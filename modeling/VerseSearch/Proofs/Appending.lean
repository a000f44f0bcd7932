import VerseSearch.Proofs.Cleaning

/-!
# One more character at the end of a letter query

Cleaning looks at a query from left to right, but a character that is typed at its end may reach
back: a shadda goes before the vowel that the query ended with, and the space behind a vocative
particle is dropped. `Extends` is all that can happen to the cleaned query
(`extends_clean_append`). The letters after that may make an article of the two letters before
(`addsToken_tokens_append`).
-/

set_option autoImplicit false

namespace VerseSearch.Letters

/-- What a character `c`, typed behind a query, may do to the cleaned query: it is dropped, put at
the end, or put before the vowel at the end. -/
inductive Extends (c : Char) : List Char → List Char → Prop where
  | dropped (s : List Char) : Extends c s s
  | appended (s : List Char) : Extends c s (s ++ [c])
  | exchanged (s : List Char) {v : Char} : isVowel v = true → precedesVowel c = true →
      Extends c (s ++ [v]) (s ++ [c, v])

namespace Extends

variable {c : Char} {s t : List Char}

theorem cons (a : Char) (h : Extends c s t) : Extends c (a :: s) (a :: t) := by
  cases h with
  | dropped => exact .dropped _
  | appended => exact .appended _
  | exchanged s hv hc => exact .exchanged (a :: s) hv hc

theorem length_le (h : Extends c s t) : s.length ≤ t.length := by
  cases h <;> simp

end Extends

variable {c v : Char}

theorem stripSigns_append (q r : List Char) : stripSigns (q ++ r) = stripSigns q ++ stripSigns r :=
  List.filter_append q r

/-- A mark that is typed at the end may change places with the vowel before it. -/
theorem extends_reorderMarks_append (q : List Char) (c : Char) :
    Extends c (reorderMarks q) (reorderMarks (q ++ [c])) := by
  fun_induction reorderMarks q with
  | case1 => exact .appended []
  | case2 v =>
    rw [List.singleton_append, reorderMarks]
    split
    · rename_i h
      obtain ⟨hv, hc⟩ := Bool.and_eq_true_iff.1 h
      exact .exchanged [] hv hc
    · exact .appended [v]
  | case3 v m r h ih =>
    rw [List.cons_append, List.cons_append, reorderMarks, if_pos h]
    exact (ih.cons v).cons m
  | case4 v m r h ih =>
    rw [List.cons_append, List.cons_append, reorderMarks, if_neg h]
    exact ih.cons v

/-! ## Vocative particles -/

/-- The vocative particle, without and with a waw before it. -/
def particles : List (List Char) := [['\u064A', '\u0627'], ['\u0648', '\u064A', '\u0627']]

/-- A text that `q` does not begin with is not at the beginning of `q` and one more character,
unless that character completes it. -/
theorem append_singleton_ne {p q : List Char} {d : Char} (hend : ¬ (q = p ∧ c = d))
    (hq : ∀ r, q ≠ p ++ d :: r) (r : List Char) : q ++ [c] ≠ p ++ d :: r := by
  intro h
  rcases List.eq_nil_or_concat r with rfl | ⟨r', b, rfl⟩
  · obtain ⟨hqp, hc⟩ := List.append_inj' h rfl
    exact hend ⟨hqp, List.singleton_inj.1 hc⟩
  · rw [List.concat_eq_append, ← List.cons_append, ← List.append_assoc] at h
    exact hq r' (List.append_inj' h rfl).1

/-- A particle and its space that a query with one more character begins with were there before,
unless the character is the space. -/
theorem append_ne_particle {p q : List Char} (hp : p ∈ particles)
    (hspace : ¬ (c = ' ' ∧ q ∈ particles)) (hq : ∀ r, q ≠ p ++ ' ' :: r) (r : List Char) :
    q ++ [c] ≠ p ++ ' ' :: r := by
  refine append_singleton_ne ?_ hq r
  rintro ⟨rfl, hc⟩
  exact hspace ⟨hc, hp⟩

theorem foldInner_append (q : List Char) (c : Char) :
    foldInner (q ++ [c]) = foldInner q ++ [c] ∨
      (c = ' ' ∧ foldInner (q ++ [c]) = foldInner q) := by
  fun_induction foldInner q with
  | case1 r ih => simpa [foldInner] using ih
  | case2 r ih => simpa [foldInner] using ih
  | case3 a r hya hwaya ih =>
    by_cases hspace : a = ' ' ∧ c = ' ' ∧ r ∈ particles
    · obtain ⟨rfl, rfl, hr⟩ := hspace
      simp only [particles, List.mem_cons, List.not_mem_nil, or_false] at hr
      rcases hr with rfl | rfl <;> exact .inr ⟨rfl, rfl⟩
    · have hkeep : foldInner (a :: (r ++ [c])) = a :: foldInner (r ++ [c]) := by
        rw [foldInner]
        · exact fun r' ha => append_ne_particle (p := ['\u064A', '\u0627']) (by decide)
            (fun h => hspace ⟨ha, h⟩) (fun r'' => hya r'' ha) r'
        · exact fun r' ha => append_ne_particle (p := ['\u0648', '\u064A', '\u0627']) (by decide)
            (fun h => hspace ⟨ha, h⟩) (fun r'' => hwaya r'' ha) r'
      rw [List.cons_append, hkeep]
      rcases ih with ih | ⟨hc, ih⟩
      · exact .inl (by rw [ih, List.cons_append])
      · exact .inr ⟨hc, by rw [ih]⟩
  | case4 => exact .inl (by simp [foldInner])

theorem foldLeading_append (q : List Char) (c : Char) :
    foldLeading (q ++ [c]) = foldLeading q ++ [c] ∨
      (c = ' ' ∧ foldLeading (q ++ [c]) = foldLeading q) := by
  by_cases hspace : c = ' ' ∧ q ∈ particles
  · obtain ⟨rfl, hq⟩ := hspace
    simp only [particles, List.mem_cons, List.not_mem_nil, or_false] at hq
    rcases hq with rfl | rfl <;> exact .inr ⟨rfl, rfl⟩
  · left
    fun_cases foldLeading q with
    | case1 r => rfl
    | case2 r => rfl
    | case3 _ hya hwaya =>
      rw [foldLeading]
      · exact append_ne_particle (p := ['\u064A', '\u0627']) (by decide) hspace hya
      · exact append_ne_particle (p := ['\u0648', '\u064A', '\u0627']) (by decide) hspace hwaya

/-- A character behind a query is put behind the folded query. A space may be dropped. -/
theorem foldVocative_append (q : List Char) (c : Char) :
    foldVocative (q ++ [c]) = foldVocative q ++ [c] ∨
      (c = ' ' ∧ foldVocative (q ++ [c]) = foldVocative q) := by
  rcases foldInner_append q c with h | ⟨hc, h⟩
  · rw [foldVocative, h]
    exact foldLeading_append _ c
  · exact .inr ⟨hc, by rw [foldVocative, h, foldVocative]⟩

theorem foldVocative_append_of_ne (q : List Char) (h : c ≠ ' ') :
    foldVocative (q ++ [c]) = foldVocative q ++ [c] :=
  (foldVocative_append q c).resolve_right fun hc => h hc.1

theorem ne_space_of_isVowel (h : isVowel c = true) : c ≠ ' ' := by
  rintro rfl
  exact absurd h (by decide)

theorem ne_space_of_precedesVowel (h : precedesVowel c = true) : c ≠ ' ' := by
  rintro rfl
  exact absurd h (by decide)

/-- Folding keeps what a character may do to a query. -/
theorem Extends.foldVocative {s t : List Char} (h : Extends c s t) :
    Extends c (foldVocative s) (foldVocative t) := by
  cases h with
  | dropped => exact .dropped _
  | appended =>
    rcases foldVocative_append s c with h | ⟨_, h⟩
    · rw [h]
      exact .appended _
    · rw [h]
      exact .dropped _
  | @exchanged s v hv hc =>
    have hboth : s ++ [c, v] = (s ++ [c]) ++ [v] := by simp
    rw [hboth, foldVocative_append_of_ne _ (ne_space_of_isVowel hv),
      foldVocative_append_of_ne _ (ne_space_of_isVowel hv),
      foldVocative_append_of_ne _ (ne_space_of_precedesVowel hc), List.append_assoc]
    exact .exchanged _ hv hc

/-- All that one more character may do to the cleaned query. -/
theorem extends_clean_append (q : List Char) (c : Char) : Extends c (clean q) (clean (q ++ [c])) := by
  rw [clean, clean, stripSigns_append]
  by_cases hc : c ∈ signs
  · have hstrip : stripSigns [c] = [] := by simp [stripSigns, hc]
    rw [hstrip, List.append_nil]
    exact .dropped _
  · have hstrip : stripSigns [c] = [c] := by simp [stripSigns, hc]
    rw [hstrip]
    exact (extends_reorderMarks_append (stripSigns q) c).foldVocative

/-! ## Tokens -/

/-- What a character `c` at the end of a cleaned query may do to the tokens: a token is put at the
end, or an alef and a lam at the end become an article with it. -/
inductive AddsToken (c : Char) : List Token → List Token → Prop where
  | appended (ts : List Token) : AddsToken c ts (ts ++ [.ofLetter c])
  | fused (ts : List Token) {f : Family} : f = .articleRelative ∨ f = .articleLam →
      c = '\u0630' ∨ c = '\u0644' →
      AddsToken c (ts ++ [.family .alef, .letter '\u0644']) (ts ++ [.family f])

theorem AddsToken.cons {ts ts' : List Token} (t : Token) (h : AddsToken c ts ts') :
    AddsToken c (t :: ts) (t :: ts') := by
  cases h with
  | appended => exact .appended _
  | fused ts hf hc => exact .fused (t :: ts) hf hc

theorem addsToken_tokens_append (q : List Char) (c : Char) :
    AddsToken c (tokens q) (tokens (q ++ [c])) := by
  fun_induction tokens q with
  | case1 r ih => exact ih.cons _
  | case2 r ih => exact ih.cons _
  | case3 a r hrelative hlam ih =>
    by_cases hfuse : a = '\u0627' ∧ r = ['\u0644'] ∧ (c = '\u0630' ∨ c = '\u0644')
    · obtain ⟨rfl, rfl, rfl | rfl⟩ := hfuse
      · exact .fused [] (.inl rfl) (.inl rfl)
      · exact .fused [] (.inr rfl) (.inr rfl)
    · have hkeep : tokens (a :: (r ++ [c])) = Token.ofLetter a :: tokens (r ++ [c]) := by
        rw [tokens]
        · exact fun r' ha => append_singleton_ne (p := ['\u0644'])
            (fun h => hfuse ⟨ha, h.1, .inl h.2⟩) (fun r'' => hrelative r'' ha) r'
        · exact fun r' ha => append_singleton_ne (p := ['\u0644'])
            (fun h => hfuse ⟨ha, h.1, .inr h.2⟩) (fun r'' => hlam r'' ha) r'
      rw [List.cons_append, hkeep]
      exact ih.cons _
  | case4 =>
    have hone : tokens ([] ++ [c]) = [] ++ [Token.ofLetter c] := by simp [tokens]
    rw [hone]
    exact .appended []

/-- Only a thal and a lam can end an article. -/
theorem tokens_append_of_ne (q : List Char) (hthal : c ≠ '\u0630') (hlam : c ≠ '\u0644') :
    tokens (q ++ [c]) = tokens q ++ [Token.ofLetter c] := by
  have h := addsToken_tokens_append q c
  generalize tokens q = ts, tokens (q ++ [c]) = ts' at h
  cases h with
  | appended => rfl
  | fused _ _ hc => exact absurd hc (not_or.2 ⟨hthal, hlam⟩)

end VerseSearch.Letters
