import VerseSearch.Letters.Family

/-!
# Tokens and segments of a letter query

A token is a plain letter or a family of spellings; the two families that begin with the article
take three letters. A segment is a run of plain letters, or a family. Neither step loses anything:
the segments of a list of tokens flatten to the tokens (`flatMap_tokens_segments`).
-/

set_option autoImplicit false

namespace VerseSearch.Letters

/-- A letter of a query, or a family of spellings. -/
inductive Token where
  | letter (c : Char)
  | family (f : Family)
deriving DecidableEq, Repr

namespace Token

/-- The token of a single letter. -/
def ofLetter (c : Char) : Token :=
  match Family.ofLetter? c with
  | some f => .family f
  | none => .letter c

end Token

/-- The tokens of a query. At each letter the article families are tried first. -/
def tokens : List Char → List Token
  | '\u0627' :: '\u0644' :: '\u0630' :: r => .family .articleRelative :: tokens r
  | '\u0627' :: '\u0644' :: '\u0644' :: r => .family .articleLam :: tokens r
  | c :: r => Token.ofLetter c :: tokens r
  | [] => []

/-- A run of plain letters, or a family of spellings. -/
inductive Segment where
  | literal (run : List Char)
  | family (f : Family)
deriving DecidableEq, Repr

namespace Segment

/-- The tokens that the segment groups. -/
def tokens : Segment → List Token
  | .literal run => run.map .letter
  | .family f => [.family f]

end Segment

/-- Groups consecutive plain letters. -/
def segments : List Token → List Segment
  | [] => []
  | .family f :: ts => .family f :: segments ts
  | .letter c :: ts =>
    match segments ts with
    | .literal run :: rest => .literal (c :: run) :: rest
    | rest => .literal [c] :: rest

/-! ## Laws -/

@[simp] theorem tokens_nil : tokens [] = [] := rfl

/-- Grouping loses no token and changes no order. -/
theorem flatMap_tokens_segments (ts : List Token) :
    (segments ts).flatMap Segment.tokens = ts := by
  induction ts with
  | nil => rfl
  | cons t ts ih =>
    cases t with
    | family f => simp [segments, Segment.tokens, ih]
    | letter c =>
      rw [segments]
      split
      · rename_i run rest h
        rw [h] at ih
        simp only [List.flatMap_cons, Segment.tokens] at ih ⊢
        rw [List.map_cons, List.cons_append, ih]
      · simp [Segment.tokens, ih]

end VerseSearch.Letters
