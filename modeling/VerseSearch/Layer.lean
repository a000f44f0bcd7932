/-!
# The two layers of a verse

The layers are the letters of a verse, and the marks above and below them. A query is typed in one
of the layers, and each layer has a corpus of its own: letters are looked for in the Uthmani
spelling, marks in the fully vowelled simple spelling.
-/

set_option autoImplicit false

namespace VerseSearch

/-- What a query is typed in, and the corpus that is written for it. -/
inductive Layer where
  /-- Consonant letters; also the layer of lookups by surah and verse. -/
  | letters
  /-- Vowel marks, with `+` and `-` as wildcards. -/
  | marks
deriving DecidableEq, Repr

namespace Layer

/-- Both layers, letters first. -/
def all : List Layer := [.letters, .marks]

/-- The name of the layer in answers and messages. -/
def name : Layer → String
  | .letters => "normal"
  | .marks => "diacritics"

/-- The name of the file that holds the corpus of the layer. -/
def fileName (l : Layer) : String := l.name ++ ".json"

@[simp] theorem mem_all (l : Layer) : l ∈ all := by cases l <;> simp [all]

end Layer

end VerseSearch
