/-!
# Cleaning a letter query

Before a query is split into letters, characters that a regular expression reads as signs are
removed (`stripSigns`), the marks on one letter are put into the order of the corpus
(`reorderMarks`), and the vocative particle is joined to the word after it (`foldVocative`), as the
corpus writes it.
-/

set_option autoImplicit false

namespace VerseSearch.Letters

/-- The characters that are removed. -/
def signs : List Char := ",@.[]()\x7b\x7d-|^!$*+=\\".toList

/-- The query without signs. -/
def stripSigns (q : List Char) : List Char := q.filter fun c => !signs.contains c

/-- Fatha, damma or kasra. -/
def isVowel (c : Char) : Bool := c == '\u064E' || c == '\u064F' || c == '\u0650'

/-- Shadda or hamza above, which the corpus writes before a vowel. -/
def precedesVowel (c : Char) : Bool := c == '\u0651' || c == '\u0654'

/-- Exchanges a vowel and a shadda or hamza above behind it, once for each such pair from left to
right. -/
def reorderMarks : List Char → List Char
  | [] => []
  | [c] => [c]
  | v :: m :: r =>
    if isVowel v && precedesVowel m then m :: v :: reorderMarks r
    else v :: reorderMarks (m :: r)

/-- Removes the space behind a vocative particle, yeh and alef with or without a waw before them,
that stands between two spaces. The two spaces are used up together. -/
def foldInner : List Char → List Char
  | ' ' :: '\u064A' :: '\u0627' :: ' ' :: r => ' ' :: '\u064A' :: '\u0627' :: foldInner r
  | ' ' :: '\u0648' :: '\u064A' :: '\u0627' :: ' ' :: r =>
    ' ' :: '\u0648' :: '\u064A' :: '\u0627' :: foldInner r
  | c :: r => c :: foldInner r
  | [] => []

/-- Removes the space behind a vocative particle at the very front. -/
def foldLeading : List Char → List Char
  | '\u064A' :: '\u0627' :: ' ' :: r => '\u064A' :: '\u0627' :: r
  | '\u0648' :: '\u064A' :: '\u0627' :: ' ' :: r => '\u0648' :: '\u064A' :: '\u0627' :: r
  | q => q

/-- Joins vocative particles to the words after them. -/
def foldVocative (q : List Char) : List Char := foldLeading (foldInner q)

/-- The query after all three steps. -/
def clean (q : List Char) : List Char := foldVocative (reorderMarks (stripSigns q))

/-! ## Laws -/

theorem mem_stripSigns {c : Char} {q : List Char} :
    c ∈ stripSigns q ↔ c ∈ q ∧ c ∉ signs := by
  simp [stripSigns, List.mem_filter]

@[simp] theorem clean_nil : clean [] = [] := by decide

end VerseSearch.Letters
