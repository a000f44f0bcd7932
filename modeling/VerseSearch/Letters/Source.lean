import VerseSearch.Letters.Cleanup
import VerseSearch.Letters.Token

/-!
# The expression of a letter query

The expression is built as text. Every letter and every family is followed by a wildcard, so marks,
small signs and tatweel may stand between the letters that were typed. `emit_eq_flatMap` states that
how letters are grouped into segments makes no difference.
-/

set_option autoImplicit false

namespace VerseSearch.Letters

/-- The usual wildcard: as few characters as possible that are neither consonants nor spaces. -/
def nonConsonant : String := "[^\u0621-\u063A\u0641-\u064A\u0671 ]*?"

namespace Segment

/-- The segment with the wildcard behind every letter and family. -/
def source (wildcard : List Char) : Segment → List Char
  | .literal run => run.flatMap fun c => c :: wildcard
  | .family f => f.expansion.toList ++ wildcard

end Segment

namespace Token

/-- What the token stands for. -/
def source : Token → List Char
  | .letter c => [c]
  | .family f => f.expansion.toList

end Token

/-- The segments one after the other. -/
def emit (wildcard : List Char) (segments : List Segment) : List Char :=
  segments.flatMap (Segment.source wildcard)

/-- The text of the regular expression that finds a letter query. Empty if the query has nothing
to search for. -/
def source (wildcard : List Char) (q : List Char) : List Char :=
  emit wildcard (segments (tokens (clean q)))

/-! ## Laws -/

theorem source_segment (wildcard : List Char) (s : Segment) :
    s.source wildcard = s.tokens.flatMap fun t => t.source ++ wildcard := by
  cases s with
  | literal run =>
    induction run with
    | nil => rfl
    | cons c r ih =>
      simp only [Segment.source, Segment.tokens] at ih ⊢
      rw [List.flatMap_cons, ih, List.map_cons, List.flatMap_cons]
      rfl
  | family f => simp [Segment.source, Segment.tokens, Token.source]

/-- Emitting segments is emitting their tokens one by one, each with the wildcard behind it. -/
theorem emit_eq_flatMap (wildcard : List Char) (ts : List Token) :
    emit wildcard (segments ts) = ts.flatMap fun t => t.source ++ wildcard := by
  conv => rhs; rw [← flatMap_tokens_segments ts]
  rw [emit, List.flatMap_assoc]
  exact congrArg (fun f => List.flatMap f (segments ts)) (funext (source_segment wildcard))

end VerseSearch.Letters
