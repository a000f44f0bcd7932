import VerseSearch.Text.Replace

/-!
# The expression of a mark query

The expression is built as text. The query is changed step by step: every character gets a
placeholder for an optional consonant in front; `-` becomes a consonant with no mark on it, `+` a
consonant with any mark or none; a mark behind a shadda stays on the shadda's consonant; the
placeholders become consonants; and the whole is tied to the beginning of a word, with the rest of
the word behind it.
-/

set_option autoImplicit false

namespace VerseSearch.Marks

/-- What stands for a consonant until the consonants are filled in. -/
def placeholder : Char := '@'

/-- A consonant. -/
def consonant : String := "[\u0621-\u064A]"

/-- A mark. -/
def mark : String := "[\u064B-\u0652]"

/-- Anything but a mark. -/
def notMark : String := "[^\u064B-\u0652]"

/-- A placeholder that what follows carries no mark. -/
def bareUnit : List Char := placeholder :: ("(?=" ++ notMark ++ ")").toList

/-- An optional placeholder with a mark, or one that carries none, as a numbered group. -/
def anyUnit : List Char :=
  '(' :: placeholder :: '?' :: mark.toList ++ '|' :: bareUnit ++ [')']

/-- Puts an optional placeholder in front of every character. -/
def prefixPlaceholders (q : List Char) : List Char :=
  q.flatMap fun c => [placeholder, '?', c]

/-- A `-` and its placeholder become a consonant without a mark. -/
def expandBare : List Char → List Char := Text.replaceAll [placeholder, '?', '-'] bareUnit

/-- A `+` and its placeholder become a consonant with or without a mark. -/
def expandAny : List Char → List Char := Text.replaceAll [placeholder, '?', '+'] anyUnit

/-- Behind a shadda the optional placeholder is dropped. -/
def attachShadda : List Char → List Char :=
  Text.replaceAll ['\u0651', placeholder, '?'] ['\u0651']

/-- The placeholders become consonants. -/
def fillConsonants : List Char → List Char := Text.replaceAll [placeholder] consonant.toList

/-- Ties the body to the beginning of a word and adds the rest of the word. -/
def wrapWord (body : List Char) : List Char :=
  " (".toList ++ body ++ ")(.*?(?= ))".toList

/-- The text of the regular expression that finds a mark query; empty for the empty query. -/
def source (q : List Char) : List Char :=
  if q = [] then []
  else wrapWord (fillConsonants (attachShadda (expandAny (expandBare (prefixPlaceholders q)))))

/-- The number of `+` in the query. Each adds a numbered group. -/
def optionalCount (q : List Char) : Nat := q.count '+'

/-! ## Laws -/

@[simp] theorem source_nil : source [] = [] := rfl

/-- Filling in consonants changes the placeholders and nothing else. -/
theorem fillConsonants_eq (body : List Char) :
    fillConsonants body =
      body.flatMap fun c => if c = placeholder then consonant.toList else [c] :=
  Text.replaceAll_singleton placeholder consonant.toList body

end VerseSearch.Marks
