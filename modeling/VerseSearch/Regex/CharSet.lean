/-!
# Sets of characters

Sets are built from ranges. Whether a character belongs to one is decided by `CharSet.contains`,
and two sets that are written the same way are equal.
-/

set_option autoImplicit false

namespace VerseSearch

/-- A set of characters. -/
inductive CharSet where
  | empty
  /-- The characters from the first to the last. -/
  | range (first last : Char)
  /-- The characters of either set. -/
  | union (s t : CharSet)
  /-- All other characters. -/
  | complement (s : CharSet)
deriving DecidableEq, Repr

namespace CharSet

/-- Whether the character belongs to the set. -/
def contains : CharSet → Char → Bool
  | .empty, _ => false
  | .range first last, c => decide (first ≤ c) && decide (c ≤ last)
  | .union s t, c => s.contains c || t.contains c
  | .complement s, c => !s.contains c

/-- The set of one character. -/
def only (c : Char) : CharSet := .range c c

/-- Every character but the line feed. -/
def notNewline : CharSet := .complement (.only '\n')

/-- The set with one more set in it. -/
def add (s t : CharSet) : CharSet := if s = .empty then t else .union s t

/-! ## Laws -/

@[simp] theorem contains_only (a c : Char) : (only a).contains c = decide (c = a) := by
  have h : (a ≤ c ∧ c ≤ a) ↔ c = a :=
    ⟨fun h => Char.le_antisymm h.2 h.1, fun h => h ▸ ⟨Char.le_refl _, Char.le_refl _⟩⟩
  rw [only, contains, ← Bool.decide_and]
  exact decide_eq_decide.2 h

@[simp] theorem contains_notNewline (c : Char) :
    notNewline.contains c = !decide (c = '\n') := by
  rw [notNewline, contains, contains_only]

@[simp] theorem contains_add (s t : CharSet) (c : Char) :
    (s.add t).contains c = (s.contains c || t.contains c) := by
  rw [add]
  split
  · rename_i h
    simp [h, contains]
  · rfl

end CharSet

end VerseSearch
