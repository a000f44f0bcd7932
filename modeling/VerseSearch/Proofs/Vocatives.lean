import VerseSearch.Proofs.Appending
import VerseSearch.Text.Split

/-!
# Vocative particles in a row

The vocative particle is written joined to the word after it, so the space behind each particle
should go (`joinParticles`). The fold takes that space only if the space before the particle is
still there: behind the first word, a particle that was joined has used up the space before the next
one (`joinFolded`). So it joins every particle exactly if behind the first word no two of them stand
in a row (`folds_all_particles_iff`).
-/

set_option autoImplicit false

namespace VerseSearch.Letters

/-- Words put together with a space behind each, but none behind a particle. -/
def joinParticles : List (List Char) → List Char
  | [] => []
  | [w] => w
  | w :: v :: ws => (if w ∈ particles then w else w ++ [' ']) ++ joinParticles (v :: ws)

/-- Words put together with a space behind each, but none behind a particle with a space before it.
The flag says whether there is a space before the first word. -/
def joinSpaced : Bool → List (List Char) → List Char
  | _, [] => []
  | _, [w] => w
  | spaced, w :: v :: ws =>
    if spaced = true ∧ w ∈ particles then w ++ joinSpaced false (v :: ws)
    else w ++ ' ' :: joinSpaced true (v :: ws)

/-- The words as the fold puts them together. It joins the first word in a step of its own, so there
is a space before the second word in any case. -/
def joinFolded : List (List Char) → List Char
  | [] => []
  | [w] => w
  | w :: v :: ws => (if w ∈ particles then w else w ++ [' ']) ++ joinSpaced true (v :: ws)

/-- Among the words two particles stand in a row, with a word behind them. -/
def HasRow (words : List (List Char)) : Prop :=
  ∃ before p p' v after, words = before ++ p :: p' :: v :: after ∧ p ∈ particles ∧ p' ∈ particles

/-! ## What the fold does to words -/

theorem space_not_mem_of_mem_particles {p : List Char} (hp : p ∈ particles) : ' ' ∉ p := by
  have hall : particles.all (fun p => decide (' ' ∉ p)) = true := by decide
  exact of_decide_eq_true (List.all_eq_true.1 hall p hp)

/-- A word ends at the first space. -/
theorem eq_of_append_space {w v r s : List Char} (hw : ' ' ∉ w) (hv : ' ' ∉ v)
    (h : w ++ ' ' :: r = v ++ ' ' :: s) : w = v := by
  induction w generalizing v with
  | nil =>
    cases v with
    | nil => rfl
    | cons d v => exact absurd ((List.cons.inj h).1 ▸ List.mem_cons_self) hv
  | cons c w ih =>
    cases v with
    | nil => exact absurd ((List.cons.inj h).1 ▸ List.mem_cons_self) hw
    | cons d v =>
      obtain ⟨hc, hrest⟩ := List.cons.inj h
      rw [hc, ih (List.not_mem_of_not_mem_cons hw) (List.not_mem_of_not_mem_cons hv) hrest]

theorem foldInner_word_append {w : List Char} (hw : ' ' ∉ w) (r : List Char) :
    foldInner (w ++ r) = w ++ foldInner r := by
  induction w with
  | nil => rfl
  | cons c w ih =>
    have hc : c ≠ ' ' := fun h => hw (h ▸ List.mem_cons_self)
    rw [List.cons_append, foldInner, ih (List.not_mem_of_not_mem_cons hw), List.cons_append]
    · exact fun _ h => absurd h hc
    · exact fun _ h => absurd h hc

theorem foldInner_particle {p : List Char} (hp : p ∈ particles) (r : List Char) :
    foldInner (' ' :: (p ++ ' ' :: r)) = ' ' :: (p ++ foldInner r) := by
  simp only [particles, List.mem_cons, List.not_mem_nil, or_false] at hp
  rcases hp with rfl | rfl <;> rfl

/-- A space stays where no particle with a space behind it follows. -/
theorem foldInner_space {s : List Char} (h : ∀ p ∈ particles, ∀ r, s ≠ p ++ ' ' :: r) :
    foldInner (' ' :: s) = ' ' :: foldInner s := by
  rw [foldInner]
  · exact fun r _ hs => h ['\u064A', '\u0627'] (by decide) r hs
  · exact fun r _ hs => h ['\u0648', '\u064A', '\u0627'] (by decide) r hs

variable {w : List Char} {ws : List (List Char)}

/-- The inner step on words, without and with a space before them. -/
theorem foldInner_joinWith (hw : ' ' ∉ w) (hws : ∀ v ∈ ws, ' ' ∉ v) :
    foldInner (Text.joinWith ' ' (w :: ws)) = joinSpaced false (w :: ws) ∧
      foldInner (' ' :: Text.joinWith ' ' (w :: ws)) = ' ' :: joinSpaced true (w :: ws) := by
  induction ws generalizing w with
  | nil =>
    have hword : foldInner w = w := by simpa [foldInner] using foldInner_word_append hw []
    refine ⟨hword, ?_⟩
    rw [Text.joinWith, foldInner_space, hword, joinSpaced]
    rintro p - r rfl
    exact hw (by simp)
  | cons v vs ih =>
    obtain ⟨hv, hvs⟩ := List.forall_mem_cons.1 hws
    obtain ⟨hfalse, htrue⟩ := ih hv hvs
    have hplain : foldInner (w ++ ' ' :: Text.joinWith ' ' (v :: vs)) =
        w ++ ' ' :: joinSpaced true (v :: vs) := by rw [foldInner_word_append hw, htrue]
    refine ⟨by simpa [Text.joinWith, joinSpaced] using hplain, ?_⟩
    rw [Text.joinWith, joinSpaced]
    by_cases hp : w ∈ particles
    · rw [foldInner_particle hp, hfalse, if_pos ⟨rfl, hp⟩]
    · rw [foldInner_space, hplain, if_neg fun h => hp h.2]
      intro p hmem r heq
      rw [eq_of_append_space hw (space_not_mem_of_mem_particles hmem) heq] at hp
      exact hp hmem

theorem foldLeading_word (hw : ' ' ∉ w) : foldLeading w = w := by
  fun_cases foldLeading w with
  | case1 r => exact absurd (by simp) hw
  | case2 r => exact absurd (by simp) hw
  | case3 => rfl

/-- The leading step on a word with a space behind it. -/
theorem foldLeading_append_space (hw : ' ' ∉ w) (r : List Char) :
    foldLeading (w ++ ' ' :: r) = (if w ∈ particles then w else w ++ [' ']) ++ r := by
  split
  · rename_i hp
    simp only [particles, List.mem_cons, List.not_mem_nil, or_false] at hp
    rcases hp with rfl | rfl <;> rfl
  · rename_i hp
    have hno : ∀ p ∈ particles, ∀ r', w ++ ' ' :: r ≠ p ++ ' ' :: r' := by
      intro p hmem r' heq
      rw [eq_of_append_space hw (space_not_mem_of_mem_particles hmem) heq] at hp
      exact hp hmem
    rw [foldLeading]
    · simp
    · exact hno ['\u064A', '\u0627'] (by decide)
    · exact hno ['\u0648', '\u064A', '\u0627'] (by decide)

theorem foldVocative_joinWith (hw : ' ' ∉ w) (hws : ∀ v ∈ ws, ' ' ∉ v) :
    foldVocative (Text.joinWith ' ' (w :: ws)) = joinFolded (w :: ws) := by
  rw [foldVocative, (foldInner_joinWith hw hws).1]
  cases ws with
  | nil => exact foldLeading_word hw
  | cons v vs =>
    rw [joinSpaced, if_neg (by simp)]
    exact foldLeading_append_space hw _

theorem foldVocative_eq (q : List Char) : foldVocative q = joinFolded (Text.splitAt ' ' q) := by
  obtain ⟨w, ws, hwords⟩ := List.exists_cons_of_ne_nil (Text.splitAt_ne_nil ' ' q)
  have hspace : ∀ v ∈ w :: ws, ' ' ∉ v := fun v hv => Text.not_mem_of_mem_splitAt (hwords ▸ hv)
  obtain ⟨hw, hws⟩ := List.forall_mem_cons.1 hspace
  rw [← Text.joinWith_splitAt ' ' q, hwords, foldVocative_joinWith hw hws, ← hwords,
    Text.joinWith_splitAt]

/-! ## Particles that are missed -/

theorem length_joinParticles_le (spaced : Bool) (words : List (List Char)) :
    (joinParticles words).length ≤ (joinSpaced spaced words).length := by
  fun_induction joinParticles words generalizing spaced with
  | case1 => exact Nat.le_refl _
  | case2 w => exact Nat.le_refl _
  | case3 w v ws ih =>
    rw [joinSpaced]
    by_cases hjoined : spaced = true ∧ w ∈ particles
    · rw [if_pos hjoined, if_pos hjoined.2, List.length_append, List.length_append]
      exact Nat.add_le_add_left (ih false) w.length
    · have hword : (if w ∈ particles then w else w ++ [' ']).length ≤ w.length + 1 := by
        split <;> simp
      have hrest := ih true
      rw [if_neg hjoined, List.length_append, List.length_append, List.length_cons]
      omega

theorem hasRow_cons_iff : HasRow (w :: ws) ↔
    (∃ p v after, ws = p :: v :: after ∧ w ∈ particles ∧ p ∈ particles) ∨ HasRow ws := by
  constructor
  · rintro ⟨before, p, p', v, after, h, hp, hp'⟩
    cases before with
    | nil =>
      obtain ⟨rfl, rfl⟩ := List.cons.inj h
      exact .inl ⟨p', v, after, rfl, hp, hp'⟩
    | cons u before =>
      exact .inr ⟨before, p, p', v, after, (List.cons.inj h).2, hp, hp'⟩
  · rintro (⟨p, v, after, rfl, hw, hp⟩ | ⟨before, p, p', v, after, rfl, hp, hp'⟩)
    · exact ⟨[], w, p, v, after, rfl, hw, hp⟩
    · exact ⟨w :: before, p, p', v, after, rfl, hp, hp'⟩

/-- A particle is missed exactly if it stands right behind one that was joined. -/
theorem joinSpaced_eq_joinParticles_iff (spaced : Bool) (words : List (List Char)) :
    joinSpaced spaced words = joinParticles words ↔
      ¬ (HasRow words ∨
        spaced = false ∧ ∃ p v after, words = p :: v :: after ∧ p ∈ particles) := by
  have hshort : ∀ words, words.length < 3 → ¬ HasRow words := by
    rintro _ hlength ⟨before, p, p', v, after, rfl, -, -⟩
    simp only [List.length_append, List.length_cons] at hlength
    omega
  fun_induction joinSpaced spaced words with
  | case1 => simp [joinParticles, hshort]
  | case2 => simp [joinParticles, hshort]
  | case3 spaced w v ws hjoined ih =>
    obtain ⟨rfl, hp⟩ := hjoined
    rw [joinParticles, if_pos hp, List.append_cancel_left_eq]
    refine ih.trans ?_
    rw [hasRow_cons_iff (w := w)]
    simp [hp, or_comm]
  | case4 spaced w v ws hkept ih =>
    by_cases hp : w ∈ particles
    · -- the space before it is used up, and the space behind it stays
      have hspaced : spaced = false := by simpa [hp] using hkept
      refine iff_of_false (fun heq => ?_) (fun hno => hno (.inr ⟨hspaced, w, v, ws, rfl, hp⟩))
      rw [joinParticles, if_pos hp, List.append_cancel_left_eq] at heq
      have hlength := length_joinParticles_le true (v :: ws)
      rw [← heq, List.length_cons] at hlength
      omega
    · rw [joinParticles, if_neg hp, List.append_assoc, List.append_cancel_left_eq]
      simp [ih, hasRow_cons_iff, hp]

/-- Which particles are joined to the word behind them. Behind the first word a particle is, unless
the one right before it was; so all of them are exactly if behind the first word no two of them
stand in a row, with a word behind them. -/
theorem folds_all_particles_iff (q : List Char) :
    foldVocative q = joinFolded (Text.splitAt ' ' q) ∧
      (foldVocative q = joinParticles (Text.splitAt ' ' q) ↔
        ¬ HasRow (Text.splitAt ' ' q).tail) := by
  refine ⟨foldVocative_eq q, ?_⟩
  rw [foldVocative_eq]
  fun_cases joinFolded (Text.splitAt ' ' q) with
  | case1 => simp [joinParticles, HasRow]
  | case2 w => simp [joinParticles, HasRow]
  | case3 w v ws =>
    rw [joinParticles, List.append_cancel_left_eq, joinSpaced_eq_joinParticles_iff]
    simp

/-- Of two particles in a row behind a space the second one is missed. -/
theorem not_folds_two_particles :
    let q := " \u064A\u0627 \u064A\u0627 \u0628".toList
    foldVocative q ≠ joinParticles (Text.splitAt ' ' q) := by
  decide

end VerseSearch.Letters
