import VerseSearch.Json.Token

/-!
# JSON values

A text is turned into a value whether or not it is correct JSON: where the text goes wrong the
value has a hole, `Value.broken`, and ends. A reader who walks through the value in the order of the
text therefore meets the first fault of the text, or an objection of its own, whichever is first.
`Value.isWhole` says that there is no hole.

The value is built with a stack of the arrays and objects that are still open (`build`), one token
at a time.
-/

set_option autoImplicit false

namespace VerseSearch.Json

/-- A JSON value, with a hole where its text goes wrong. -/
inductive Value where
  | null
  | bool (value : Bool)
  /-- With its value if it is written as a natural number. -/
  | number (natural : Option Nat)
  /-- With its content, unless an escape stands for half a surrogate pair. -/
  | text (content : Option (List Char))
  | array (items : List Value)
  /-- The members in the order of the text; a key has no name if its content is missing. -/
  | object (members : List (Option (List Char) × Value))
  /-- The text goes wrong here. -/
  | broken
deriving Repr

namespace Value

mutual

/-- Whether the value has no hole. -/
def isWhole : Value → Bool
  | .array items => areWhole items
  | .object members => membersAreWhole members
  | .broken => false
  | _ => true

/-- Whether none of the values has a hole. -/
def areWhole : List Value → Bool
  | [] => true
  | v :: vs => isWhole v && areWhole vs

/-- Whether no member has a hole. -/
def membersAreWhole : List (Option (List Char) × Value) → Bool
  | [] => true
  | (_, v) :: ms => isWhole v && membersAreWhole ms

end

end Value

/-- An array or object that is not closed yet, with what it holds so far, latest first. -/
inductive Container where
  | array (items : List Value)
  /-- With the key whose value is to come, if it is read. -/
  | object (members : List (Option (List Char) × Value)) (key : Option (List Char))
deriving Repr

/-- What may come next. -/
inductive Expected where
  /-- A value. -/
  | value
  /-- A value, or the end of an array that is still empty. -/
  | firstItem
  /-- A key, or the end of an object that is still empty. -/
  | firstKey
  | key
  /-- The colon behind a key. -/
  | colon
  /-- A comma, or the end of the innermost container. -/
  | separator
deriving DecidableEq, Repr

namespace Container

/-- The container closed, with one more value in it. -/
def closeWith (v : Value) : Container → Value
  | .array items => .array (v :: items).reverse
  | .object members key => .object ((key, v) :: members).reverse

/-- All open containers closed around a value, innermost first. -/
def closeAll (v : Value) (open_ : List Container) : Value :=
  open_.foldl (fun v c => c.closeWith v) v

end Container

/-- What a token leads to. -/
inductive Progress where
  /-- More tokens are needed. -/
  | more (open_ : List Container) (expected : Expected)
  /-- The value is complete. -/
  | done (v : Value)
  /-- The token has no place here. -/
  | fault
deriving Repr

/-- A complete value in its place. -/
def Progress.ofValue (v : Value) : List Container → Progress
  | [] => .done v
  | .array items :: around => .more (.array (v :: items) :: around) .separator
  | .object members key :: around => .more (.object ((key, v) :: members) none :: around) .separator

/-- A token where a value may begin. -/
def Progress.ofFirst (open_ : List Container) : Token → Progress
  | .null => .ofValue .null open_
  | .bool b => .ofValue (.bool b) open_
  | .number n => .ofValue (.number n) open_
  | .text content => .ofValue (.text content) open_
  | .openArray => .more (.array [] :: open_) .firstItem
  | .openObject => .more (.object [] none :: open_) .firstKey
  | _ => .fault

/-- One more token. -/
def Progress.step (open_ : List Container) (expected : Expected) (t : Token) : Progress :=
  match expected, t, open_ with
  | .firstItem, .closeArray, .array items :: around => .ofValue (.array items.reverse) around
  | .firstItem, t, _ => .ofFirst open_ t
  | .value, t, _ => .ofFirst open_ t
  | .firstKey, .closeObject, .object members _ :: around =>
    .ofValue (.object members.reverse) around
  | .firstKey, .text name, .object members _ :: around =>
    .more (.object members name :: around) .colon
  | .key, .text name, .object members _ :: around =>
    .more (.object members name :: around) .colon
  | .colon, .colon, _ => .more open_ .value
  | .separator, .comma, .array _ :: _ => .more open_ .value
  | .separator, .comma, .object _ _ :: _ => .more open_ .key
  | .separator, .closeArray, .array items :: around => .ofValue (.array items.reverse) around
  | .separator, .closeObject, .object members _ :: around =>
    .ofValue (.object members.reverse) around
  | _, _, _ => .fault

/-- The value that the tokens spell, and the tokens behind it. -/
def build (open_ : List Container) (expected : Expected) : List Token → Value × List Token
  | [] => (Container.closeAll .broken open_, [])
  | t :: ts =>
    match Progress.step open_ expected t with
    | .more open' expected' => build open' expected' ts
    | .done v => (v, ts)
    | .fault => (Container.closeAll .broken open_, t :: ts)

/-- A text as a value, and whether nothing but blanks follows the value. -/
def parse (s : List Char) : Value × Bool :=
  let p := build [] .value (tokens s)
  (p.1, p.2.isEmpty)

/-! ## Laws -/

@[simp] theorem parse_nil : parse [] = (.broken, true) := by
  simp [parse, build, Container.closeAll]

end VerseSearch.Json
