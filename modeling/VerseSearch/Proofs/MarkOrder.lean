import Mathlib.Data.List.Chain
import Mathlib.Logic.Relation
import VerseSearch.Pattern
import VerseSearch.Proofs.Cleaning

/-!
# The order of marks on one letter

The corpus writes a shadda or a hamza above before the vowel of the letter (`InOrder`). However the
marks of a query are typed, there is one way to put them in this order by exchanging neighbours
(`corpusOrder_eq_of_sameMarks`). Reordering exchanges a vowel with one mark behind it and goes on
behind the two. So it reaches the order exactly if nowhere three or four marks in a row call for a
second exchange (`inOrder_reorderMarks_iff`).
-/

set_option autoImplicit false

namespace VerseSearch.Letters

/-- A vowel and behind it a mark that the corpus writes before it. -/
def isMisplaced (v m : Char) : Bool := isVowel v && precedesVowel m

/-- No vowel stands right before a shadda or a hamza above. -/
def InOrder (q : List Char) : Prop := q.IsChain fun v m => isMisplaced v m = false

instance (q : List Char) : Decidable (InOrder q) :=
  inferInstanceAs (Decidable (List.IsChain _ q))

/-- A vowel and the mark right behind it, which the corpus writes before it, change places. -/
inductive Exchange : List Char → List Char → Prop where
  | neighbours (before after : List Char) {v m : Char} : isMisplaced v m = true →
      Exchange (before ++ v :: m :: after) (before ++ m :: v :: after)

/-- The texts are spellings of the same marks on the same letters. -/
def SameMarks : List Char → List Char → Prop := Relation.EqvGen Exchange

/-- Somewhere in the text marks in a row are out of order after one exchange too: a vowel before a
misplaced pair, or a mark or another such pair behind one. -/
inductive HasStack : List Char → Prop where
  | behindVowel {u v m : Char} (r : List Char) : isVowel u = true → isMisplaced v m = true →
      HasStack (u :: v :: m :: r)
  | beforeMark {v m n : Char} (r : List Char) : isMisplaced v m = true → precedesVowel n = true →
      HasStack (v :: m :: n :: r)
  | beforePair {v m u n : Char} (r : List Char) : isMisplaced v m = true →
      isMisplaced u n = true → HasStack (v :: m :: u :: n :: r)
  | later (c : Char) {q : List Char} : HasStack q → HasStack (c :: q)

variable {c v m : Char} {q q' r s : List Char}

/-! ## The order of the corpus -/

theorem isVowel_of_precedesVowel (h : precedesVowel m = true) : isVowel m = false := by
  simp only [precedesVowel, Bool.or_eq_true, beq_iff_eq] at h
  rcases h with rfl | rfl <;> decide

theorem isMisplaced_of_precedesVowel (h : precedesVowel m = true) (c : Char) :
    isMisplaced m c = false := by
  rw [isMisplaced, isVowel_of_precedesVowel h, Bool.false_and]

/-- A vowel, a shadda and a hamza above are no signs. -/
theorem not_mem_signs_of_isMisplaced (h : isMisplaced v m = true) : v ∉ signs ∧ m ∉ signs := by
  have hsigns : signs.all (fun c => !isVowel c && !precedesVowel c) = true := by decide
  obtain ⟨hv, hm⟩ := Bool.and_eq_true_iff.1 h
  refine ⟨fun hmem => ?_, fun hmem => ?_⟩
  · have hnot := List.all_eq_true.1 hsigns v hmem
    rw [hv] at hnot
    cases hnot
  · have hnot := List.all_eq_true.1 hsigns m hmem
    rw [hm, Bool.and_comm] at hnot
    cases hnot

theorem inOrder_nil : InOrder [] := .nil

theorem inOrder_singleton (c : Char) : InOrder [c] := .singleton c

theorem inOrder_cons :
    InOrder (c :: q) ↔ (∀ d ∈ q.head?, isMisplaced c d = false) ∧ InOrder q := List.isChain_cons

/-- Puts a character in front of a text. A vowel goes behind the marks there that the corpus writes
before it. -/
def putMark (c : Char) : List Char → List Char
  | [] => [c]
  | m :: s => if isMisplaced c m then m :: putMark c s else c :: m :: s

/-- The text with its marks in the order of the corpus. -/
def corpusOrder (q : List Char) : List Char := q.foldr putMark []

theorem putMark_of_precedesVowel (h : precedesVowel m = true) (s : List Char) :
    putMark m s = m :: s := by
  cases s with
  | nil => rfl
  | cons c s => rw [putMark, isMisplaced_of_precedesVowel h, if_neg Bool.false_ne_true]

theorem inOrder_putMark (h : InOrder s) (c : Char) : InOrder (putMark c s) := by
  induction s with
  | nil => exact inOrder_singleton c
  | cons m s ih =>
    rw [putMark]
    split
    · rename_i hpair
      have hm : precedesVowel m = true := (Bool.and_eq_true_iff.1 hpair).2
      exact inOrder_cons.2 ⟨fun d _ => isMisplaced_of_precedesVowel hm d, ih (inOrder_cons.1 h).2⟩
    · rename_i hpair
      refine inOrder_cons.2 ⟨fun d hd => ?_, h⟩
      rw [← Option.some.inj hd]
      exact Bool.eq_false_iff.2 hpair

theorem inOrder_corpusOrder (q : List Char) : InOrder (corpusOrder q) := by
  induction q with
  | nil => exact inOrder_nil
  | cons c q ih => exact inOrder_putMark ih c

/-- A text in order stays as it is. -/
theorem corpusOrder_eq_self (h : InOrder q) : corpusOrder q = q := by
  induction q with
  | nil => rfl
  | cons c q ih =>
    obtain ⟨hhead, hq⟩ := inOrder_cons.1 h
    show putMark c (corpusOrder q) = c :: q
    rw [ih hq]
    cases q with
    | nil => rfl
    | cons m q => rw [putMark, hhead m rfl, if_neg Bool.false_ne_true]

/-- Spellings of the same marks are the same text in the order of the corpus. -/
theorem corpusOrder_eq_of_sameMarks (h : SameMarks q q') : corpusOrder q = corpusOrder q' := by
  induction h with
  | rel _ _ hexchange =>
    obtain ⟨before, after, hpair⟩ := hexchange
    rename_i v m
    have hm : precedesVowel m = true := (Bool.and_eq_true_iff.1 hpair).2
    have hboth : corpusOrder (v :: m :: after) = corpusOrder (m :: v :: after) := by
      show putMark v (putMark m (corpusOrder after)) = putMark m (putMark v (corpusOrder after))
      rw [putMark_of_precedesVowel hm, putMark_of_precedesVowel hm, putMark, if_pos hpair]
    simp only [corpusOrder, List.foldr_append] at hboth ⊢
    rw [hboth]
  | refl => rfl
  | symm _ _ _ ih => exact ih.symm
  | trans _ _ _ _ _ ih ih' => exact ih.trans ih'

/-! ## What reordering does -/

namespace SameMarks

theorem cons (c : Char) (h : SameMarks q q') : SameMarks (c :: q) (c :: q') := by
  induction h with
  | rel _ _ hexchange =>
    obtain ⟨before, after, hpair⟩ := hexchange
    exact .rel _ _ (.neighbours (c :: before) after hpair)
  | refl => exact .refl _
  | symm _ _ _ ih => exact .symm _ _ ih
  | trans _ _ _ _ _ ih ih' => exact .trans _ _ _ ih ih'

/-- Signs are no marks, so the texts without them are spellings of the same marks, too. -/
theorem stripSigns (h : SameMarks q q') : SameMarks (stripSigns q) (stripSigns q') := by
  induction h with
  | rel _ _ hexchange =>
    obtain ⟨before, after, hpair⟩ := hexchange
    rename_i v m
    obtain ⟨hv, hm⟩ := not_mem_signs_of_isMisplaced hpair
    simp only [Letters.stripSigns, List.filter_append]
    rw [List.filter_cons_of_pos (by simpa using hv), List.filter_cons_of_pos (by simpa using hm),
      List.filter_cons_of_pos (by simpa using hm), List.filter_cons_of_pos (by simpa using hv)]
    exact .rel _ _ (.neighbours _ _ hpair)
  | refl => exact .refl _
  | symm _ _ _ ih => exact .symm _ _ ih
  | trans _ _ _ _ _ ih ih' => exact .trans _ _ _ ih ih'

end SameMarks

/-- Reordering gives a spelling of the same marks. -/
theorem sameMarks_reorderMarks (q : List Char) : SameMarks q (reorderMarks q) := by
  fun_induction reorderMarks q with
  | case1 => exact .refl _
  | case2 c => exact .refl _
  | case3 v m r hpair ih =>
    exact .trans _ _ _ (.rel _ _ (.neighbours [] r hpair)) ((ih.cons v).cons m)
  | case4 v m r hpair ih => exact ih.cons v

/-- Reordering gives the order of the corpus exactly if it leaves no misplaced pair. -/
theorem reorderMarks_eq_corpusOrder_iff :
    reorderMarks q = corpusOrder q ↔ InOrder (reorderMarks q) := by
  constructor
  · intro h
    rw [h]
    exact inOrder_corpusOrder q
  · intro h
    rw [corpusOrder_eq_of_sameMarks (sameMarks_reorderMarks q), corpusOrder_eq_self h]

/-- Reordering leaves exactly the texts in order as they are. -/
theorem reorderMarks_eq_self_iff : reorderMarks q = q ↔ InOrder q := by
  fun_induction reorderMarks q with
  | case1 => exact iff_of_true rfl inOrder_nil
  | case2 c => exact iff_of_true rfl (inOrder_singleton c)
  | case3 v m r hpair ih =>
    refine iff_of_false (fun h => ?_) (fun h => ?_)
    · -- the mark in front now would be the vowel
      obtain ⟨hv, hm⟩ := Bool.and_eq_true_iff.1 hpair
      rw [← (List.cons.inj h).1, isVowel_of_precedesVowel hm] at hv
      cases hv
    · have hnot : isMisplaced v m = false := (inOrder_cons.1 h).1 m rfl
      exact Bool.false_ne_true (hnot.symm.trans hpair)
  | case4 v m r hpair ih =>
    have hhead : ∀ d ∈ (m :: r).head?, isMisplaced v d = false := by
      intro d hd
      rw [← Option.some.inj hd]
      exact Bool.eq_false_iff.2 hpair
    rw [List.cons_inj_right, ih, inOrder_cons (c := v), and_iff_right hhead]

/-- The text begins with a shadda or a hamza above, or with one behind a vowel. -/
def leads : List Char → Bool
  | [] => false
  | [m] => precedesVowel m
  | v :: m :: _ => precedesVowel v || isMisplaced v m

theorem any_head?_reorderMarks (q : List Char) :
    (reorderMarks q).head?.any precedesVowel = leads q := by
  fun_cases reorderMarks q with
  | case1 => rfl
  | case2 c => rfl
  | case3 v m r hpair =>
    have hm : precedesVowel m = true := (Bool.and_eq_true_iff.1 hpair).2
    have hmisplaced : isMisplaced v m = true := hpair
    simp [leads, hm, hmisplaced]
  | case4 v m r hpair =>
    have hmisplaced : isMisplaced v m = false := Bool.eq_false_iff.2 hpair
    simp [leads, hmisplaced]

theorem inOrder_cons_reorderMarks :
    InOrder (v :: reorderMarks q) ↔
      ¬ (isVowel v = true ∧ leads q = true) ∧ InOrder (reorderMarks q) := by
  rw [inOrder_cons, ← any_head?_reorderMarks]
  cases (reorderMarks q).head? <;> simp [isMisplaced]

theorem not_hasStack_nil : ¬ HasStack [] := nofun

theorem not_hasStack_singleton (c : Char) : ¬ HasStack [c] := by
  intro h
  cases h with
  | later _ h => exact not_hasStack_nil h

/-- A character that is no vowel is not the first one of such marks. -/
theorem hasStack_of_not_isVowel (hm : isVowel m = false) : HasStack (m :: r) ↔ HasStack r := by
  refine ⟨fun h => ?_, .later m⟩
  have hno : ∀ n, isMisplaced m n = true → False := by simp [isMisplaced, hm]
  cases h with
  | behindVowel r hv _ => exact absurd (hm.symm.trans hv) Bool.false_ne_true
  | beforeMark r hpair _ => exact (hno _ hpair).elim
  | beforePair r hpair _ => exact (hno _ hpair).elim
  | later _ h => exact h

/-- What has to follow a misplaced pair. -/
theorem hasStack_of_misplaced (hpair : isMisplaced v m = true) :
    HasStack (v :: m :: r) ↔ leads r = true ∨ HasStack r := by
  obtain ⟨hv, hm⟩ := Bool.and_eq_true_iff.1 hpair
  have hno := isVowel_of_precedesVowel hm
  constructor
  · intro h
    cases h with
    | behindVowel r _ hnext =>
      rw [isMisplaced_of_precedesVowel hm] at hnext
      cases hnext
    | @beforeMark _ _ n r _ hn => exact .inl (by cases r <;> simp [leads, hn])
    | beforePair r _ hnext => exact .inl (by simp [leads, hnext])
    | later _ h => exact .inr ((hasStack_of_not_isVowel hno).1 h)
  · rintro (h | h)
    · rcases r with _ | ⟨u, _ | ⟨n, r⟩⟩
      · cases h
      · exact .beforeMark [] hpair h
      · rcases Bool.or_eq_true_iff.1 h with h | h
        · exact .beforeMark (n :: r) hpair h
        · exact .beforePair r hpair h
    · exact .later v (.later m h)

/-- What has to follow a character that does not begin a misplaced pair. -/
theorem hasStack_of_not_misplaced (hpair : isMisplaced v m = false) :
    HasStack (v :: m :: r) ↔ (isVowel v = true ∧ leads (m :: r) = true) ∨ HasStack (m :: r) := by
  constructor
  · intro h
    cases h with
    | behindVowel r hv hnext => exact .inl ⟨hv, by simp [leads, hnext]⟩
    | beforeMark r h _ => exact absurd (hpair.symm.trans h) Bool.false_ne_true
    | beforePair r h _ => exact absurd (hpair.symm.trans h) Bool.false_ne_true
    | later _ h => exact .inr h
  · rintro (⟨hv, h⟩ | h)
    · have hm : precedesVowel m = false := by simpa [isMisplaced, hv] using hpair
      cases r with
      | nil => exact absurd (hm.symm.trans h) Bool.false_ne_true
      | cons n r =>
        rw [leads, hm, Bool.false_or] at h
        exact .behindVowel r hv h
    · exact .later v h

/-- Reordering reaches the order of the corpus exactly if one exchange for each misplaced pair is
enough. -/
theorem inOrder_reorderMarks_iff : InOrder (reorderMarks q) ↔ ¬ HasStack q := by
  fun_induction reorderMarks q with
  | case1 => exact iff_of_true inOrder_nil not_hasStack_nil
  | case2 c => exact iff_of_true (inOrder_singleton c) (not_hasStack_singleton c)
  | case3 v m r hpair ih =>
    obtain ⟨hv, hm⟩ := Bool.and_eq_true_iff.1 hpair
    have hfront : InOrder (m :: v :: reorderMarks r) ↔ InOrder (v :: reorderMarks r) := by
      rw [inOrder_cons (c := m)]
      exact and_iff_right fun d _ => isMisplaced_of_precedesVowel hm d
    rw [hfront, inOrder_cons_reorderMarks, ih, hasStack_of_misplaced hpair, not_or, hv,
      and_iff_right rfl]
  | case4 v m r hpair ih =>
    rw [inOrder_cons_reorderMarks, ih, hasStack_of_not_misplaced (Bool.eq_false_iff.2 hpair),
      not_or]

/-- A spelling of the same marks as a text that needs no second exchange is reordered to the same
text exactly if it needs none either. -/
theorem reorderMarks_eq_iff_of_sameMarks (h : SameMarks q q') (hq' : ¬ HasStack q') :
    reorderMarks q = reorderMarks q' ↔ ¬ HasStack q := by
  have horder := inOrder_reorderMarks_iff.2 hq'
  constructor
  · intro heq
    exact inOrder_reorderMarks_iff.1 (heq ▸ horder)
  · intro hq
    rw [reorderMarks_eq_corpusOrder_iff.2 (inOrder_reorderMarks_iff.2 hq),
      reorderMarks_eq_corpusOrder_iff.2 horder, corpusOrder_eq_of_sameMarks h]

/-- How far reordering reaches the order of the corpus. It exchanges characters and keeps them all.
It leaves no vowel before a shadda or a hamza above exactly if nowhere marks in a row call for a
second exchange; and exactly then a second time changes nothing. Spellings of the same marks that
call for none are reordered to the same text and have the same pattern. -/
theorem reorders_iff_not_hasStack (q : List Char) :
    (reorderMarks q).Perm q ∧
    (InOrder (reorderMarks q) ↔ ¬ HasStack q) ∧
    (reorderMarks (reorderMarks q) = reorderMarks q ↔ ¬ HasStack q) ∧
    (∀ q' : List Char, SameMarks q q' → ¬ HasStack q' →
      (reorderMarks q = reorderMarks q' ↔ ¬ HasStack q)) ∧
    ∀ keyword keyword' : String, SameMarks keyword.toList keyword'.toList →
      ¬ HasStack (stripSigns keyword.toList) → ¬ HasStack (stripSigns keyword'.toList) →
      ∀ wildcard : String,
        Pattern.ofLetters wildcard keyword = Pattern.ofLetters wildcard keyword' := by
  refine ⟨perm_reorderMarks q, inOrder_reorderMarks_iff,
    reorderMarks_eq_self_iff.trans inOrder_reorderMarks_iff,
    fun q' => reorderMarks_eq_iff_of_sameMarks, ?_⟩
  intro keyword keyword' hsame hstack hstack' wildcard
  have hclean : clean keyword.toList = clean keyword'.toList := by
    rw [clean, clean, (reorderMarks_eq_iff_of_sameMarks hsame.stripSigns hstack').2 hstack]
  rw [Pattern.ofLetters, Pattern.ofLetters, source, source, hclean]

/-- A reh with a fatha and a shadda, and with a shadda and a fatha. -/
theorem reorders_fatha_and_shadda :
    reorderMarks "\u0631\u064E\u0651".toList = reorderMarks "\u0631\u0651\u064E".toList ∧
      Pattern.ofLetters nonConsonant "\u0631\u064E\u0651" =
        Pattern.ofLetters nonConsonant "\u0631\u0651\u064E" := by
  obtain ⟨-, -, -, hspelling, hpattern⟩ :=
    reorders_iff_not_hasStack "\u0631\u064E\u0651".toList
  have hsame : SameMarks "\u0631\u064E\u0651".toList "\u0631\u0651\u064E".toList :=
    .rel _ _ (.neighbours ['\u0631'] [] rfl)
  have hfirst : ¬ HasStack "\u0631\u064E\u0651".toList := inOrder_reorderMarks_iff.1 (by decide)
  have hsecond : ¬ HasStack "\u0631\u0651\u064E".toList := inOrder_reorderMarks_iff.1 (by decide)
  exact ⟨(hspelling _ hsame hsecond).2 hfirst, hpattern _ _ hsame hfirst hsecond nonConsonant⟩

/-- Of a shadda and a hamza above behind a fatha only one goes before it, the other one only if the
text is reordered again. So the two texts, which spell the same marks, are searched for by different
expressions. -/
theorem not_reorders_shadda_and_hamza :
    let q := "\u064E\u0651\u0654".toList
    ¬ InOrder (reorderMarks q) ∧ reorderMarks (reorderMarks q) ≠ reorderMarks q ∧
      SameMarks q (reorderMarks q) ∧
      source nonConsonant.toList q ≠ source nonConsonant.toList (reorderMarks q) := by
  exact ⟨by decide, by decide, sameMarks_reorderMarks _, by decide⟩

end VerseSearch.Letters
