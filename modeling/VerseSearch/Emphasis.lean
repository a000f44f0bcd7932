import VerseSearch.Pattern

/-!
# Emphasis and display of verses

A verse without a pattern, or with an empty one, is left as it is. In the letter layer each whole
occurrence stands between the two markers. In the mark layer the markers stand around the beginning
of a word that carries the marks; the rest of the word follows the closing marker.
-/

set_option autoImplicit false

namespace VerseSearch

/-- What is written before and behind an occurrence. -/
structure Markers where
  opening : String := "<mark>"
  closing : String := "</mark>"
deriving DecidableEq, Repr

namespace Markers

/-- A span between the markers. -/
def around (m : Markers) (span : List Char) : List Char :=
  m.opening.toList ++ span ++ m.closing.toList

/-- What an occurrence becomes. In the mark layer the groups are the occurrence, the marked
beginning of the word, one group for each `+`, and the rest of the word. -/
def replacement (m : Markers) : PatternKind → Groups → List Char
  | .letters, groups => m.around (groups.text 1)
  | .marks optional, groups => ' ' :: m.around (groups.text 2) ++ groups.text (3 + optional)

/-- A text without one space at its front, if there is one. -/
def dropSpace : List Char → List Char
  | ' ' :: s => s
  | s => s

/-- A text without one space at either end. -/
def unpad (s : List Char) : List Char := (dropSpace (dropSpace s).reverse).reverse

/-- Takes back the spaces that a pattern's subject was given. -/
def restore : PatternKind → List Char → List Char
  | .letters, s => s
  | .marks _, s => unpad s

/-- The verse with every occurrence of the pattern emphasized. -/
def emphasize (m : Markers) (pattern : Option Pattern) (text : String) : Except Fault String :=
  match pattern.bind fun p => p.matchers.map fun e => (p.kind, e.marking) with
  | none => .ok text
  | some (kind, marking) =>
    match marking.replaceHits? (fun _ groups => m.replacement kind groups)
        (kind.subject text.toList) with
    | none => .error .givenUp
    | some s => .ok (String.ofList (restore kind s))

/-! ## Laws -/

@[simp] theorem emphasize_none (m : Markers) (text : String) :
    m.emphasize none text = .ok text := rfl

/-- An empty pattern emphasizes nothing. -/
theorem emphasize_of_isEmpty (m : Markers) {p : Pattern} (h : p.isEmpty = true) (text : String) :
    m.emphasize (some p) text = .ok text := by
  rw [Pattern.isEmpty, Option.isNone_iff_eq_none] at h
  simp [emphasize, h]

/-- A verse that is too much for the second expression of a pattern is not emphasized. -/
theorem emphasize_of_cut?_eq_none (m : Markers) {p : Pattern} {e : Matchers}
    (h : p.matchers = some e) {text : String}
    (hcut : e.marking.cut? (p.kind.subject text.toList) = none) :
    m.emphasize (some p) text = .error .givenUp := by
  simp only [emphasize, Option.bind_some, h, Option.map_some, Regex.replaceHits?, hcut,
    Option.map_none]

/-- In any other one each piece is kept, or replaced. -/
theorem emphasize_of_cut?_eq_some (m : Markers) {p : Pattern} {e : Matchers}
    (h : p.matchers = some e) {text : String} {ps : List Piece}
    (hcut : e.marking.cut? (p.kind.subject text.toList) = some ps) :
    m.emphasize (some p) text = .ok (String.ofList (restore p.kind (ps.flatMap fun
      | .plain c => [c]
      | .hit _ groups => m.replacement p.kind groups))) := by
  have hreplaced : e.marking.replaceHits? (fun _ groups => m.replacement p.kind groups)
      (p.kind.subject text.toList) = some (ps.flatMap fun
        | .plain c => [c]
        | .hit _ groups => m.replacement p.kind groups) := congrArg (Option.map _) hcut
  simp only [emphasize, Option.bind_some, h, Option.map_some, hreplaced]

/-- Emphasis fails only because a verse is too much for the second expression. -/
theorem eq_givenUp_of_emphasize {m : Markers} {pattern : Option Pattern} {text : String}
    {fault : Fault} (h : m.emphasize pattern text = .error fault) : fault = .givenUp := by
  unfold emphasize at h
  split at h
  · cases h
  · split at h <;> cases h
    rfl

end Markers

/-- The small high meem and the small low meem are not displayed. -/
def isHidden (c : Char) : Bool := c == '\u06E2' || c == '\u06ED'

/-- Alef wasla is displayed as alef. -/
def shownChar (c : Char) : Char := if c = '\u0671' then '\u0627' else c

/-- The form in which a verse is displayed. -/
def displayForm (text : String) : String :=
  String.ofList ((text.toList.filter fun c => !isHidden c).map shownChar)

end VerseSearch
