import VerseSearch.Letters.Cleanup
import VerseSearch.Letters.Token

/-!
# What cleaning leaves of a query

Cleaning a letter query drops signs and spaces and exchanges marks; it adds nothing. So each letter
that is searched for was typed, and none of the signs is left. Plain letters are searched for one by
one (`tokens_clean_of_isPlain`).
-/

set_option autoImplicit false

namespace VerseSearch.Letters

/-- Reordering exchanges characters and keeps them all. -/
theorem perm_reorderMarks (q : List Char) : (reorderMarks q).Perm q := by
  fun_induction reorderMarks q with
  | case1 => exact .nil
  | case2 c => exact .refl _
  | case3 v m r h ih => exact ((ih.cons v).cons m).trans (.swap v m r)
  | case4 v m r h ih => exact ih.cons v

theorem foldInner_sublist (q : List Char) : (foldInner q).Sublist q := by
  fun_induction foldInner q with
  | case1 r ih => simpa using ih.cons ' '
  | case2 r ih => simpa using ih.cons ' '
  | case3 c r _ _ ih => exact ih.cons_cons c
  | case4 => exact .refl _

theorem foldLeading_sublist (q : List Char) : (foldLeading q).Sublist q := by
  unfold foldLeading
  split
  · simp
  · simp
  · exact .refl q

/-- Joining particles to the words after them only drops spaces. -/
theorem foldVocative_sublist (q : List Char) : (foldVocative q).Sublist q :=
  (foldLeading_sublist _).trans (foldInner_sublist q)

/-- What is left of a query was typed and is no sign. -/
theorem mem_of_mem_clean {c : Char} {q : List Char} (h : c ∈ clean q) : c ∈ q ∧ c ∉ signs :=
  mem_stripSigns.1 ((perm_reorderMarks _).mem_iff.1 ((foldVocative_sublist _).subset h))

theorem ofLetter_eq_letter {c d : Char} (h : Token.ofLetter c = .letter d) : c = d := by
  unfold Token.ofLetter at h
  split at h
  · cases h
  · exact Token.letter.inj h

/-- A plain letter that is searched for stands in the query. -/
theorem mem_of_letter_mem_tokens {c : Char} {q : List Char} (h : Token.letter c ∈ tokens q) :
    c ∈ q := by
  fun_induction tokens q with
  | case1 r ih =>
    rcases List.mem_cons.1 h with h | h
    · cases h
    · exact List.subset_append_right ['\u0627', '\u0644', '\u0630'] r (ih h)
  | case2 r ih =>
    rcases List.mem_cons.1 h with h | h
    · cases h
    · exact List.subset_append_right ['\u0627', '\u0644', '\u0644'] r (ih h)
  | case3 d r _ _ ih =>
    rcases List.mem_cons.1 h with h | h
    · exact List.mem_cons.2 (.inl (ofLetter_eq_letter h.symm).symm)
    · exact List.mem_cons_of_mem d (ih h)
  | case4 => cases h

/-! ## Plain letters -/

/-- Without vowels, or without marks that are written before a vowel, nothing is exchanged. -/
theorem reorderMarks_eq_self {q : List Char}
    (h : (∀ c ∈ q, isVowel c = false) ∨ ∀ c ∈ q, precedesVowel c = false) :
    reorderMarks q = q := by
  fun_induction reorderMarks q with
  | case1 => rfl
  | case2 => rfl
  | case3 v m r hpair ih =>
    rw [Bool.and_eq_true] at hpair
    rcases h with h | h
    · exact absurd hpair.1 (by simp [h v])
    · exact absurd hpair.2 (by simp [h m])
  | case4 v m r _ ih =>
    have htail := h.imp (fun h c hc => h c (List.mem_cons_of_mem v hc))
      fun h c hc => h c (List.mem_cons_of_mem v hc)
    rw [ih htail]

/-- Without an alef there is no vocative particle. -/
theorem foldInner_eq_self {q : List Char} (h : ∀ c ∈ q, c ≠ '\u0627') : foldInner q = q := by
  fun_induction foldInner q with
  | case1 r ih => exact absurd rfl (h '\u0627' (by simp))
  | case2 r ih => exact absurd rfl (h '\u0627' (by simp))
  | case3 c r _ _ ih => rw [ih fun d hd => h d (List.mem_cons_of_mem c hd)]
  | case4 => rfl

theorem foldLeading_eq_self {q : List Char} (h : ∀ c ∈ q, c ≠ '\u0627') : foldLeading q = q := by
  fun_cases foldLeading q with
  | case1 r => exact absurd rfl (h '\u0627' (by simp))
  | case2 r => exact absurd rfl (h '\u0627' (by simp))
  | case3 => rfl

/-- Without an alef there is no article. -/
theorem tokens_eq_map {q : List Char} (h : ∀ c ∈ q, c ≠ '\u0627') :
    tokens q = q.map Token.ofLetter := by
  fun_induction tokens q with
  | case1 r ih => exact absurd rfl (h '\u0627' List.mem_cons_self)
  | case2 r ih => exact absurd rfl (h '\u0627' List.mem_cons_self)
  | case3 c r _ _ ih => rw [ih fun d hd => h d (List.mem_cons_of_mem c hd), List.map_cons]
  | case4 => rfl

/-- Without signs, alefs and marks that are exchanged each character of a query is searched for on
its own. -/
theorem tokens_clean_eq_map {q : List Char} (hsign : ∀ c ∈ q, c ∉ signs)
    (hmarks : (∀ c ∈ q, isVowel c = false) ∨ ∀ c ∈ q, precedesVowel c = false)
    (halef : ∀ c ∈ q, c ≠ '\u0627') :
    tokens (clean q) = q.map Token.ofLetter := by
  have hstrip : stripSigns q = q := List.filter_eq_self.2 fun c hc => by simpa using hsign c hc
  rw [clean, hstrip, reorderMarks_eq_self hmarks, foldVocative, foldInner_eq_self halef,
    foldLeading_eq_self halef, tokens_eq_map halef]

/-- A letter that stands for itself or its family, whatever stands beside it. -/
def isPlain (c : Char) : Bool :=
  !signs.contains c && !isVowel c && c != ' ' && c != '\u0627'

/-- Plain letters are searched for one by one. -/
theorem tokens_clean_of_isPlain {q : List Char} (h : ∀ c ∈ q, isPlain c = true) :
    tokens (clean q) = q.map Token.ofLetter := by
  simp only [isPlain, Bool.and_eq_true, bne_iff_ne, Bool.not_eq_true', List.contains_eq_mem,
    decide_eq_false_iff_not] at h
  exact tokens_clean_eq_map (fun c hc => (h c hc).1.1.1) (.inl fun c hc => (h c hc).1.1.2)
    fun c hc => (h c hc).2

end VerseSearch.Letters
