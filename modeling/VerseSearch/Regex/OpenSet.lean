import VerseSearch.Regex.Syntax

/-!
# Reading a set of characters

A set is written between brackets: characters, ranges, and further sets, all of which are its parts;
a caret behind the opening bracket makes it the set of all other characters. A hyphen at its
beginning or end stands for itself, and so does a bracket that would close an empty set; a backslash
takes a sign's meaning away. Classes by name and operators between sets are not supported. Sets may
be nested, though not without limit.
-/

set_option autoImplicit false

namespace VerseSearch

/-- The character that is written as a backslash and this one. Behind a backslash most letters and
all digits mean something else than a character. -/
def escapedChar? (c : Char) : Option Char :=
  match c with
  | 'n' => some '\n'
  | 't' => some '\t'
  | 'r' => some '\r'
  | 'f' => some '\x0c'
  | 'v' => some '\x0b'
  | 'a' => some '\x07'
  | 'e' => some '\x1b'
  | _ => if c.isAlphanum then none else some c

/-- What the last characters of a set may yet become. -/
inductive SetTail where
  /-- Only the bracket is read. -/
  | bracket
  /-- The bracket and a caret are read. -/
  | caret
  /-- The bracket, possibly a caret, and hyphens are read. -/
  | hyphens
  /-- The last part is complete. -/
  | settled
  /-- A character that may begin a range. -/
  | char (c : Char)
  /-- A character that may begin a range, or an operator if it follows once more. -/
  | sign (c : Char)
  /-- A character and a hyphen behind it. -/
  | dash (first : Char)
  /-- A backslash; before it, the beginning of a range if there is one. -/
  | escape (first : Option Char)
deriving DecidableEq, Repr

/-- The parts of a set as far as they are read. -/
structure SetParts where
  negated : Bool
  members : CharSet
  /-- How many parts there are. -/
  count : Nat
  /-- How deep the deepest of them is nested. -/
  depth : Nat
deriving DecidableEq, Repr

namespace SetParts

/-- Nothing read yet. -/
def start : SetParts := ⟨false, .empty, 0, 0⟩

/-- One more part. -/
def add (p : SetParts) (members : CharSet) (depth : Nat) : SetParts :=
  ⟨p.negated, p.members.add members, p.count + 1, max p.depth depth⟩

/-- One more character. -/
def addChar (p : SetParts) (c : Char) : SetParts := p.add (.only c) 0

/-- The set itself. -/
def set (p : SetParts) : CharSet := if p.negated then .complement p.members else p.members

/-- How deep the parts are nested. Several parts together count as one more level. -/
def level (p : SetParts) : Nat := if p.count = 1 then p.depth else p.depth + 1

end SetParts

/-- A set whose closing bracket is still to come. -/
structure OpenSet where
  /-- The innermost open set. -/
  current : SetParts
  /-- The sets around it, innermost first. -/
  around : List SetParts
  tail : SetTail
deriving DecidableEq, Repr

namespace OpenSet

/-- An opening bracket is read. -/
def start : OpenSet := ⟨.start, [], .bracket⟩

/-- The deepest level that a set may reach. -/
def levelLimit : Nat := 248

/-- Opens a set inside the innermost one. -/
def openInner (s : OpenSet) : OpenSet := ⟨.start, s.current :: s.around, .bracket⟩

/-- Closes the innermost set: the one around it goes on, or the whole set is complete. -/
def close (s : OpenSet) : Except ReadFault (OpenSet ⊕ CharSet) :=
  match s.around with
  | [] => if s.current.level ≤ levelLimit then .ok (.inr s.current.set) else .error .tooDeep
  | outer :: around =>
    .ok (.inl ⟨outer.add s.current.set (s.current.level + 1), around, .settled⟩)

/-- A character where a part may begin. -/
def begin (s : OpenSet) (c : Char) : Except ReadFault (OpenSet ⊕ CharSet) :=
  match c with
  | ']' => s.close
  | '[' => .ok (.inl s.openInner)
  | '\\' => .ok (.inl { s with tail := .escape none })
  | '-' | '&' | '~' => .ok (.inl { s with tail := .sign c })
  | _ => .ok (.inl { s with tail := .char c })

/-- A character behind the opening bracket and the caret. A closing bracket stands for itself
there, though not in an inner set, and hyphens cannot begin a range. -/
def beginFirst (s : OpenSet) (c : Char) : Except ReadFault (OpenSet ⊕ CharSet) :=
  match c with
  | ']' =>
    if s.around = [] then .ok (.inl { s with current := s.current.addChar c, tail := .settled })
    else .error .unsupported
  | '-' => .ok (.inl { s with current := s.current.addChar c, tail := .hyphens })
  | _ => s.begin c

/-- A character behind one that may begin a range. -/
def behindChar (s : OpenSet) (a c : Char) : Except ReadFault (OpenSet ⊕ CharSet) :=
  if c = '-' then .ok (.inl { s with tail := .dash a })
  else { s with current := s.current.addChar a, tail := .settled : OpenSet }.begin c

/-- A range of characters. -/
def addRange (s : OpenSet) (a c : Char) : Except ReadFault (OpenSet ⊕ CharSet) :=
  if a ≤ c then .ok (.inl { s with current := s.current.add (.range a c) 0, tail := .settled })
  else .error .reversedRange

/-- One more character of the set: the set goes on, or is complete. -/
def step (s : OpenSet) (c : Char) : Except ReadFault (OpenSet ⊕ CharSet) :=
  match s.tail with
  | .bracket =>
    if c = '^' then
      .ok (.inl { s with current := { s.current with negated := true }, tail := .caret })
    else if c = ':' ∧ s.around ≠ [] then .error .unsupported
    else s.beginFirst c
  | .caret => s.beginFirst c
  | .hyphens =>
    if c = '-' then .ok (.inl { s with current := s.current.addChar c }) else s.begin c
  | .settled => s.begin c
  | .char a => s.behindChar a c
  | .sign a => if c = a then .error .unsupported else s.behindChar a c
  | .dash a =>
    match c with
    | ']' =>
      { s with current := (s.current.addChar a).addChar '-', tail := .settled : OpenSet }.close
    | '[' | '-' => .error .unsupported
    | '\\' => .ok (.inl { s with tail := .escape (some a) })
    | _ => s.addRange a c
  | .escape first =>
    match escapedChar? c, first with
    | none, _ => .error .unsupported
    | some d, none => .ok (.inl { s with tail := .char d })
    | some d, some a => s.addRange a d

end OpenSet

end VerseSearch
