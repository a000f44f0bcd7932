import VerseSearch.Regex.OpenSet

/-!
# Reading the text of a regular expression

The reader takes one character at a time (`ReadState.step`) and keeps what is still open: the
groups around the current place, the items read in the innermost one, and what the last
characters may yet become (`Tail`). Reading a text in two parts is therefore the same as reading it
at once (`ReadState.run_append`), which is what lets a text be read unit by unit.

Special are the characters `( ) [ | . * + ? ^ $`, the backslash and, behind an item, `{`. All others
stand for themselves. A repetition is greedy; a `?` behind it makes it lazy, and a `+` behind that
keeps it to the way it prefers. Behind a backslash a sign stands for itself and a number refers to a
group that was opened before. Groups may be nested, though not without limit. What the reader does not
know it does not take for text: anchors, classes by name and flags are not read at all.
-/

set_option autoImplicit false

namespace VerseSearch

/-- What an opened group is for. -/
inductive Opener where
  | capture (number : Nat)
  | plain
  | look (positive : Bool)
deriving DecidableEq, Repr

namespace Opener

/-- The closed group as an item. -/
def close (body : Regex) : Opener → Regex
  | .capture n => .group n body
  | .plain => body
  | .look positive => .look positive body

end Opener

/-- The alternatives of a group as far as they are read, each list with the latest first. -/
structure Branches where
  /-- Finished alternatives. -/
  choices : List Regex
  /-- Finished items of the current alternative. -/
  items : List Regex
deriving DecidableEq, Repr

namespace Branches

/-- Nothing read yet. -/
def start : Branches := ⟨[], []⟩

/-- One more item. -/
def add (b : Branches) (r : Regex) : Branches := { b with items := r :: b.items }

/-- The current alternative is finished. -/
def bar (b : Branches) : Branches := ⟨Regex.concat b.items.reverse :: b.choices, []⟩

/-- All alternatives together. -/
def regex (b : Branches) : Regex := Regex.choice b.bar.choices.reverse

end Branches

/-- What the last characters read may yet become. -/
inductive Tail where
  /-- Nothing that a repetition could follow. -/
  | settled
  /-- An item that a repetition may follow. -/
  | item (r : Regex)
  /-- An item and its repetition, which a `?` makes lazy and a `+` atomic. -/
  | repeated (r : Regex) (times : Repetition)
  /-- An item repeated lazily, which a `+` makes atomic. -/
  | lazy (r : Regex)
  /-- An item, then `{` and digits with at most one comma, latest first: a repetition, or text if it
  is not completed to one. -/
  | count (r : Regex) (typed : List Char)
  /-- A backslash. -/
  | escape
  /-- A backslash and the number of a group. -/
  | reference (number : Nat)
  /-- An opening parenthesis. -/
  | paren
  /-- An opening parenthesis and `?`. -/
  | parenMark
  /-- An open set. -/
  | set (s : OpenSet)
deriving DecidableEq, Repr

/-- How far a text is read. -/
structure ReadState where
  /-- The innermost open group. -/
  current : Branches
  /-- The groups around it, innermost first: each with what was read before the group inside it
  was opened, and that group's opener. -/
  around : List (Branches × Opener)
  tail : Tail
  /-- How many numbered groups are opened so far. -/
  groups : Nat
deriving DecidableEq, Repr

namespace ReadState

/-- Before the first character. -/
def start : ReadState := ⟨.start, [], .settled, 0⟩

/-- One more item; a repetition may follow it. -/
def atom (st : ReadState) (r : Regex) : ReadState := { st with tail := .item r }

/-- One more item; no repetition may follow it. -/
def addSettled (st : ReadState) (r : Regex) : ReadState :=
  { st with current := st.current.add r, tail := .settled }

/-- A repetition that turned out to be text: its brace and what follows it stand for themselves, and
the last of them is an item that a repetition may follow. -/
def spill (st : ReadState) (r : Regex) : List Char → ReadState
  | [] => { st with current := st.current.add r, tail := .item (.letter '\x7b') }
  | d :: typed =>
    { st with
      current := (r :: Regex.letter '\x7b' :: typed.reverse.map Regex.letter).foldl
        Branches.add st.current
      tail := .item (.letter d) }

/-- What the tail has become when no more of it follows. -/
def settle (st : ReadState) : ReadState :=
  match st.tail with
  | .item r => st.addSettled r
  | .repeated r times => st.addSettled (times.apply true r)
  | .lazy r => st.addSettled r
  | .count r typed =>
    { st with
      current := (r :: Regex.letter '\x7b' :: typed.reverse.map Regex.letter).foldl
        Branches.add st.current
      tail := .settled }
  | .reference n => st.addSettled (.back n)
  | _ => st

/-- No more groups than this may be open at once. -/
def groupLimit : Nat := 63

/-- Opens a group. -/
def openGroup (st : ReadState) (opener : Opener) : Except ReadFault ReadState :=
  if st.around.length < groupLimit then
    .ok { st with current := .start, around := (st.current, opener) :: st.around, tail := .settled }
  else .error .tooDeep

/-- Opens a group with the next number. -/
def openCapture (st : ReadState) : Except ReadFault ReadState :=
  { st with groups := st.groups + 1 }.openGroup (.capture (st.groups + 1))

/-- Closes the innermost group. -/
def closeGroup (st : ReadState) : Except ReadFault ReadState :=
  match st.around with
  | [] => .error .unopenedGroup
  | (before, opener) :: around =>
    .ok { st with current := before, around, tail := .item (opener.close st.current.regex) }

/-- A repetition behind an item. -/
def repeatBy (st : ReadState) (r : Regex) (times : Repetition) : Except ReadFault ReadState :=
  if r.repeatable then
    match times.fault? with
    | some fault => .error fault
    | none => .ok { st with tail := .repeated r times }
  else .error .nothingToRepeat

/-- A sign of repetition. -/
def repeatItem (st : ReadState) (times : Repetition) : Except ReadFault ReadState :=
  match st.tail with
  | .item r => st.repeatBy r times
  | _ => .error .nothingToRepeat

/-- One more digit of a reference. It refers to a group that is opened before. -/
def refer (st : ReadState) (number : Nat) (c : Char) : Except ReadFault ReadState :=
  let n := 10 * number + (c.toNat - '0'.toNat)
  if 0 < n ∧ n ≤ st.groups then .ok { st with tail := .reference n } else .error .unknownReference

/-- The character behind a backslash. -/
def escaped (st : ReadState) (c : Char) : Except ReadFault ReadState :=
  if c.isDigit then st.refer 0 c
  else
    match escapedChar? c with
    | some d => .ok (st.atom (.letter d))
    | none => .error .unsupported

/-- A character at a place where an item, or a repetition of the item before, may begin. -/
def begin (st : ReadState) (c : Char) : Except ReadFault ReadState :=
  match c with
  | '(' => .ok { st.settle with tail := .paren }
  | ')' => st.settle.closeGroup
  | '[' => .ok { st.settle with tail := .set .start }
  | '|' => .ok { st.settle with current := st.settle.current.bar }
  | '.' => .ok (st.settle.atom (.one .notNewline))
  | '\\' => .ok { st.settle with tail := .escape }
  | '^' | '$' => .error .unsupported
  | '*' => st.repeatItem .anyNumber
  | '+' => st.repeatItem .atLeastOnce
  | '?' => st.repeatItem .optional
  | '\x7b' =>
    match st.tail with
    | .item r => .ok { st with tail := .count r [] }
    | _ => .ok (st.settle.atom (.letter c))
  | _ => .ok (st.settle.atom (.letter c))

/-- One more character. -/
def step (st : ReadState) (c : Char) : Except ReadFault ReadState :=
  match st.tail with
  | .settled | .item _ => st.begin c
  | .repeated r times =>
    if c = '?' then .ok { st with tail := .lazy (times.apply false r) }
    else if c = '+' then .ok (st.addSettled (.atomic (times.apply true r)))
    else st.settle.begin c
  | .lazy r => if c = '+' then .ok (st.addSettled (.atomic r)) else st.settle.begin c
  | .count r typed =>
    if c.isDigit ∨ c = ',' ∧ ',' ∉ typed then .ok { st with tail := .count r (c :: typed) }
    else
      match if c = '\x7d' then Repetition.ofText? typed.reverse else none with
      | some times => st.repeatBy r times
      | none => (st.spill r typed).begin c
  | .escape => st.escaped c
  | .reference n =>
    if c.isDigit then st.refer n c else { st with tail := .item (.back n) : ReadState }.begin c
  | .paren =>
    if c = '?' then .ok { st with tail := .parenMark }
    else
      match st.openCapture with
      | .error fault => .error fault
      | .ok st' => st'.begin c
  | .parenMark =>
    match c with
    | ':' => st.openGroup .plain
    | '=' => st.openGroup (.look true)
    | '!' => st.openGroup (.look false)
    | _ => .error .unknownGroup
  | .set s =>
    match s.step c with
    | .error fault => .error fault
    | .ok (.inl s') => .ok { st with tail := .set s' }
    | .ok (.inr set) => .ok (st.atom (.one set))

/-- All characters of a text, one after the other. -/
def run (st : ReadState) : List Char → Except ReadFault ReadState
  | [] => .ok st
  | c :: s =>
    match st.step c with
    | .error fault => .error fault
    | .ok st' => st'.run s

/-- The expression, if nothing is left open. -/
def finish (st : ReadState) : Except ReadFault Regex :=
  match st.tail with
  | .paren | .parenMark => .error .unclosedGroup
  | .set _ => .error .unclosedSet
  | .escape => .error .unsupported
  | _ =>
    match st.around with
    | [] => .ok st.settle.current.regex
    | _ :: _ => .error .unclosedGroup

end ReadState

/-- The expression that a text spells. -/
def Regex.read (source : List Char) : Except ReadFault Regex :=
  match ReadState.start.run source with
  | .error fault => .error fault
  | .ok st => st.finish

namespace ReadState

/-! ## Laws -/

@[simp] theorem run_nil (st : ReadState) : st.run [] = .ok st := rfl

/-- Reading a text is reading its first part and going on with the second. -/
theorem run_append (st : ReadState) (s t : List Char) :
    st.run (s ++ t) = (st.run s).bind fun st' => st'.run t := by
  induction s generalizing st with
  | nil => rfl
  | cons c s ih =>
    simp only [List.cons_append, run]
    cases st.step c with
    | error fault => rfl
    | ok st' => exact ih st'

theorem run_append_of_ok {st st' : ReadState} {s : List Char} (h : st.run s = .ok st')
    (t : List Char) : st.run (s ++ t) = st'.run t := by
  rw [run_append, h]; rfl

end ReadState

end VerseSearch
