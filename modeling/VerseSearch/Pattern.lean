import VerseSearch.Fault
import VerseSearch.Letters.Source
import VerseSearch.Marks.Source
import VerseSearch.Regex.Pieces
import VerseSearch.Regex.Weight

/-!
# Compiled queries

A keyword is compiled once and run against every verse. Occurrences are counted with the pattern
itself; for emphasis the pattern stands in one group around it. A pattern of the mark layer is
tied to the spaces around words, so it runs on the verse with a space at either end.

A pattern that is not regular may be too much for a verse: then the search is given up, and there is
no number of occurrences (`Pattern.givesUp`).
-/

set_option autoImplicit false

namespace VerseSearch

/-- Which layer a pattern is for, and what emphasis has to know about it. -/
inductive PatternKind where
  | letters
  /-- With the number of groups that the wildcards `+` add. -/
  | marks (optional : Nat)
deriving DecidableEq, Repr

namespace PatternKind

/-- The text that the pattern runs on. -/
def subject : PatternKind → List Char → List Char
  | .letters, text => text
  | .marks _, text => ' ' :: text ++ [' ']

end PatternKind

/-- The expressions of a pattern. -/
structure Matchers where
  /-- The pattern as it is, for counting. -/
  counting : Regex
  /-- The pattern in a group of its own, for emphasis. -/
  marking : Regex
deriving DecidableEq, Repr

/-- A compiled query. -/
structure Pattern where
  kind : PatternKind
  /-- The text of the regular expression. -/
  source : String
  /-- None if the text is empty; then nothing matches. -/
  matchers : Option Matchers
deriving DecidableEq, Repr

namespace Pattern

/-- Reads the text of a pattern, once as it is and once in a group. It must not take too much
memory. -/
def build (kind : PatternKind) (source : List Char) : Except ReadFault Pattern :=
  if source = [] then .ok ⟨kind, "", none⟩
  else
    match Regex.read source, Regex.read ('(' :: source ++ [')']) with
    | .ok counting, .ok marking =>
      if counting.fits then .ok ⟨kind, String.ofList source, some ⟨counting, marking⟩⟩
      else .error .tooLarge
    | .error fault, _ => .error fault
    | _, .error fault => .error fault

/-- The pattern of a letter query with a given wildcard. -/
def ofLetters (wildcard keyword : String) : Except ReadFault Pattern :=
  build .letters (Letters.source wildcard.toList keyword.toList)

/-- The pattern of a mark query. -/
def ofMarks (keyword : String) : Except ReadFault Pattern :=
  build (.marks (Marks.optionalCount keyword.toList)) (Marks.source keyword.toList)

/-- The pattern of a keyword in a layer. The wildcard is for letters only. -/
def compile (wildcard : String) : Layer → String → Except ReadFault Pattern
  | .letters, keyword => ofLetters wildcard keyword
  | .marks, keyword => ofMarks keyword

/-- The keyword left nothing to search for. -/
def isEmpty (p : Pattern) : Bool := p.matchers.isNone

/-- The number of occurrences in a verse. They do not overlap. -/
def count (p : Pattern) (text : String) : Except Fault Nat :=
  match p.matchers with
  | none => .ok 0
  | some m =>
    match m.counting.count? (p.kind.subject text.toList) with
    | none => .error .givenUp
    | some n => .ok n

/-- Whether the verse is too much for the pattern. -/
def givesUp (p : Pattern) (text : String) : Bool :=
  match p.matchers with
  | none => false
  | some m => (m.counting.cut? (p.kind.subject text.toList)).isNone

/-- An answer that there is unless the verse is too much for the pattern. -/
def unlessGivenUp {α : Type} (p : Pattern) (text : String) (a : α) : Except Fault α :=
  if p.givesUp text then .error .givenUp else .ok a

/-- Whether two patterns are for the same kind of query and have the same text. -/
def same (p q : Pattern) : Bool := p.kind == q.kind && p.source == q.source

/-! ## Laws -/

@[simp] theorem build_nil (kind : PatternKind) : build kind [] = .ok ⟨kind, "", none⟩ := rfl

/-- A mark query without characters has an empty pattern. -/
theorem ofMarks_empty : ofMarks "" = .ok ⟨.marks 0, "", none⟩ := rfl

/-- A text that is read, and is read in a group, gives a pattern unless it takes too much memory. -/
theorem build_of_read (kind : PatternKind) {source : List Char} {counting marking : Regex}
    (hne : source ≠ []) (hcounting : Regex.read source = .ok counting)
    (hmarking : Regex.read ('(' :: source ++ [')']) = .ok marking) :
    build kind source =
      if counting.fits then .ok ⟨kind, String.ofList source, some ⟨counting, marking⟩⟩
      else .error .tooLarge := by
  rw [build, if_neg hne, hcounting, hmarking]

/-- A pattern has no text, or its text was read as it is and in a group. -/
theorem build_cases {kind : PatternKind} {source : List Char} {p : Pattern}
    (h : build kind source = .ok p) :
    (source = [] ∧ p = ⟨kind, "", none⟩) ∨ (source ≠ [] ∧ ∃ counting marking : Regex,
      Regex.read source = .ok counting ∧ Regex.read ('(' :: source ++ [')']) = .ok marking ∧
      p = ⟨kind, String.ofList source, some ⟨counting, marking⟩⟩) := by
  unfold build at h
  split at h
  · rename_i hempty
    cases h
    exact .inl ⟨hempty, rfl⟩
  · rename_i hne
    split at h
    · rename_i counting marking hcounting hmarking
      split at h <;> cases h
      exact .inr ⟨hne, counting, marking, hcounting, hmarking, rfl⟩
    · cases h
    · cases h

/-- A pattern shows the text it was built from. -/
theorem source_of_build {kind : PatternKind} {source : List Char} {p : Pattern}
    (h : build kind source = .ok p) : p.source = String.ofList source ∧ p.kind = kind := by
  rcases build_cases h with ⟨rfl, rfl⟩ | ⟨_, _, _, _, _, rfl⟩
  · exact ⟨rfl, rfl⟩
  · exact ⟨rfl, rfl⟩

/-- A pattern is empty exactly if its text is. -/
theorem isEmpty_of_build {kind : PatternKind} {source : List Char} {p : Pattern}
    (h : build kind source = .ok p) : p.isEmpty = true ↔ source = [] := by
  rcases build_cases h with ⟨rfl, rfl⟩ | ⟨hne, _, _, _, _, rfl⟩
  · exact iff_of_true rfl rfl
  · exact iff_of_false Bool.false_ne_true hne

/-- An empty pattern has no occurrence. -/
theorem count_of_isEmpty {p : Pattern} (h : p.isEmpty = true) (text : String) :
    p.count text = .ok 0 := by
  rw [isEmpty, Option.isNone_iff_eq_none] at h
  simp [count, h]

/-- The occurrences are the matches among the pieces of the verse. -/
theorem count_of_cut?_eq_some {p : Pattern} {m : Matchers} (h : p.matchers = some m) {text : String}
    {ps : List Piece} (hcut : m.counting.cut? (p.kind.subject text.toList) = some ps) :
    p.count text = .ok (ps.countP Piece.isHit) := by
  simp only [count, h, Regex.count?, hcut, Option.map_some]

/-- A verse that is too much for the pattern has no number of occurrences. -/
theorem givesUp_eq_true_iff {p : Pattern} {text : String} :
    p.givesUp text = true ↔ p.count text = .error .givenUp := by
  unfold givesUp count
  cases p.matchers with
  | none => simp
  | some m =>
    simp only [Regex.count?]
    cases m.counting.cut? (p.kind.subject text.toList) <;> simp

/-- Every other verse has one. -/
theorem givesUp_eq_false_iff {p : Pattern} {text : String} :
    p.givesUp text = false ↔ ∃ n, p.count text = .ok n := by
  unfold givesUp count
  cases p.matchers with
  | none => simp
  | some m =>
    simp only [Regex.count?]
    cases m.counting.cut? (p.kind.subject text.toList) <;> simp

theorem unlessGivenUp_of_true {α : Type} {p : Pattern} {text : String} (h : p.givesUp text = true)
    (a : α) : p.unlessGivenUp text a = .error .givenUp := if_pos h

theorem unlessGivenUp_of_false {α : Type} {p : Pattern} {text : String}
    (h : p.givesUp text = false) (a : α) : p.unlessGivenUp text a = .ok a := by
  rw [unlessGivenUp, h, if_neg Bool.false_ne_true]

theorem unlessGivenUp_eq_ok {α : Type} {p : Pattern} {text : String} {a b : α} :
    p.unlessGivenUp text a = .ok b ↔ p.givesUp text = false ∧ a = b := by
  cases h : p.givesUp text <;> simp [unlessGivenUp, h]

/-- An automaton always comes to an end. -/
theorem givesUp_of_isRegular {p : Pattern} {m : Matchers} (h : p.matchers = some m)
    (hr : m.counting.isRegular = true) (text : String) : p.givesUp text = false := by
  simp only [givesUp, h, Regex.cut?, hr, if_true]
  split <;> rfl

/-- No verse is too much for a pattern that is read as a regular expression. -/
theorem givesUp_of_build {kind : PatternKind} {source : List Char} {p : Pattern}
    (h : build kind source = .ok p)
    (hregular : (Regex.read source).toOption.map Regex.isRegular = some true) (text : String) :
    p.givesUp text = false := by
  rcases build_cases h with ⟨_, rfl⟩ | ⟨_, counting, marking, hcounting, _, rfl⟩
  · rfl
  · rw [hcounting] at hregular
    exact givesUp_of_isRegular (m := ⟨counting, marking⟩) rfl (Option.some.inj hregular) text

/-- Occurrences are counted unless the search is given up, and a regular pattern, or any other one
that the ways to match describe, counts the matches that these make. -/
theorem count_eq_unlessGivenUp {p : Pattern} {m : Matchers} (h : p.matchers = some m)
    (hm : m.counting.isPlain = true) (text : String) :
    p.count text = p.unlessGivenUp text (m.counting.count (p.kind.subject text.toList)) := by
  cases hcut : m.counting.cut? (p.kind.subject text.toList) with
  | none => simp [count, unlessGivenUp, givesUp, h, Regex.count?, hcut]
  | some ps =>
    have hps := Regex.eq_pieces_of_cut? hm hcut
    simp [count, unlessGivenUp, givesUp, h, Regex.count?, hcut, hps, Regex.count]

end Pattern

end VerseSearch
