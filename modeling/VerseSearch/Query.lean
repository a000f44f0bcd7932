import VerseSearch.Layer
import VerseSearch.Numeral
import VerseSearch.Text.Blank

/-!
# Queries

How a typed text is classified, cleaned and read. The first character that is not blank decides the
layer (`Layer.ofInput?`). The layer then keeps the characters it has a use for (`Layer.validate`),
and the kept text is a search for content or, in the letter layer, a lookup of verses by surah and
verse (`Query.ofInput`).
-/

set_option autoImplicit false

namespace VerseSearch

/-! ## Character ranges -/

/-- The letters, hamza to yeh. -/
def isLetter (c : Char) : Bool := decide ('\u0621' ≤ c) && decide (c ≤ '\u064A')

/-- The vowel marks, fathatan to sukun. -/
def isMark (c : Char) : Bool := decide ('\u064B' ≤ c) && decide (c ≤ '\u0652')

/-- The small signs of recitation. -/
def isAnnotation (c : Char) : Bool := decide ('\u06D4' ≤ c) && decide (c ≤ '\u06ED')

/-! ## Classification and validation -/

namespace Layer

/-- The layer a text is typed in when its first character that is not blank is `c`. -/
def ofFirst? (c : Char) : Option Layer :=
  if isLetter c || isAnnotation c || c == ':' || Numeral.isDigit c then some .letters
  else if isMark c || c == '+' || c == '-' then some .marks
  else none

/-- The layer a text is typed in, told by its first character that is not blank. -/
def ofInput? (raw : List Char) : Option Layer :=
  (Text.trimStart raw).head?.bind ofFirst?

/-- The characters a letter query keeps: letters, marks up to sukun, digits and colons. -/
def keepsInLetters (c : Char) : Bool :=
  isLetter c || isMark c || Numeral.isDigit c || c == ':'

/-- The characters a mark query keeps: marks and the two wildcards. -/
def keepsInMarks (c : Char) : Bool := isMark c || c == '+' || c == '-'

/-- Keeps what a letter query has a use for and writes a run of blanks as one space. The flag says
whether the character before was blank. -/
def collapse : Bool → List Char → List Char
  | _, [] => []
  | afterBlank, c :: r =>
    if Text.isBlank c then
      if afterBlank then collapse true r else ' ' :: collapse true r
    else if keepsInLetters c then c :: collapse false r
    else collapse false r

/-- The text without the characters the layer has no use for. In the letter layer the digits
become Arabic-Indic and blanks become spaces. -/
def validate : Layer → List Char → List Char
  | .letters, raw => Numeral.toArabicIndic (collapse false raw)
  | .marks, raw => raw.filter keepsInMarks

end Layer

/-! ## Reading -/

/-- A query as it is searched for and remembered. -/
inductive Query where
  /-- The first character belongs to neither layer. -/
  | invalid
  /-- A search for verses that contain the keyword in the layer. -/
  | content (layer : Layer) (keyword : String)
  /-- A lookup by surah number or name fragment, and by verse number if there is one. -/
  | reference (surah : String) (verse : Option String)
deriving DecidableEq, Repr

namespace Query

/-- Reads `surah:verse`. Blanks around the parts are ignored, an empty verse part is none, and
what follows a second colon is dropped. -/
def ofReference (value : List Char) : Query :=
  let surah := Text.trim (value.takeWhile (· != ':'))
  let verse := Text.trim ((value.dropWhile (· != ':')).tail.takeWhile (· != ':'))
  .reference (String.ofList surah) (if verse.isEmpty then none else some (String.ofList verse))

/-- A validated letter query that is a lookup: it has a colon, or is one numeral. -/
def isReference (value : List Char) : Bool :=
  value.contains ':' || Numeral.isNumeral (Text.trim value)

/-- The query that a typed text stands for. -/
def ofInput (raw : String) : Query :=
  match Layer.ofInput? raw.toList with
  | none => .invalid
  | some layer =>
    let value := layer.validate raw.toList
    if layer = .letters ∧ isReference value = true then ofReference value
    else .content layer (String.ofList value)

/-- The layer of the corpus that answers the query. -/
def layer? : Query → Option Layer
  | .invalid => none
  | .content layer _ => some layer
  | .reference _ _ => some .letters

/-- Whether there is anything to search for. -/
def isValid (q : Query) : Bool := q != .invalid

/-! ## Laws -/

theorem isValid_iff_layer? (q : Query) : q.isValid = q.layer?.isSome := by
  cases q <;> rfl

/-- A typed text is an invalid query exactly if it is typed in neither layer. -/
theorem ofInput_eq_invalid_iff (raw : String) :
    ofInput raw = .invalid ↔ Layer.ofInput? raw.toList = none := by
  unfold ofInput
  split
  · simp [*]
  · rename_i layer h
    simp only [h]
    by_cases hr : layer = .letters ∧ isReference (layer.validate raw.toList) = true
    · rw [if_pos hr]
      simp [ofReference]
    · rw [if_neg hr]
      simp

/-- A query is answered by the corpus of the layer it is typed in. -/
theorem layer?_ofInput (raw : String) : (ofInput raw).layer? = Layer.ofInput? raw.toList := by
  unfold ofInput
  split
  · simp [layer?, *]
  · rename_i layer h
    rw [h]
    by_cases hr : layer = .letters ∧ isReference (layer.validate raw.toList) = true
    · rw [if_pos hr, hr.1]
      rfl
    · rw [if_neg hr]
      rfl

end Query

/-! ## Laws of validation -/

namespace Layer

@[simp] theorem collapse_nil (b : Bool) : collapse b [] = [] := by cases b <;> rfl

@[simp] theorem validate_marks_nil : validate .marks [] = [] := rfl

/-- A validated mark query keeps all its characters when validated again. -/
theorem validate_marks_validate_marks (raw : List Char) :
    validate .marks (validate .marks raw) = validate .marks raw := by
  simp [validate, List.filter_filter]

/-- A mark query holds marks and wildcards only. -/
theorem keepsInMarks_of_mem_validate {raw : List Char} {c : Char}
    (h : c ∈ validate .marks raw) : keepsInMarks c = true := (List.mem_filter.1 h).2

end Layer

end VerseSearch
