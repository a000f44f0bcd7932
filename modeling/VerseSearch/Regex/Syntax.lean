import VerseSearch.Regex.CharSet

/-!
# Regular expressions

Expressions are built from sets of characters. Repetitions of every kind are built from `star`,
`alt` and `seq` (`Repetition.apply`), so the matcher has nine forms to deal with. An expression that
neither looks at what follows nor settles for a way to match nor refers to a group is regular
(`Regex.isRegular`); how an expression is matched depends on that.
-/

set_option autoImplicit false

namespace VerseSearch

/-- A regular expression. -/
inductive Regex where
  /-- The empty text. -/
  | empty
  /-- One character of the set. -/
  | one (set : CharSet)
  /-- The first, then the second. -/
  | seq (first second : Regex)
  /-- The first if it can, else the second. -/
  | alt (first second : Regex)
  /-- Any number of times, as many as possible if greedy, else as few. -/
  | star (greedy : Bool) (body : Regex)
  /-- Remembers under the number what the body covers. -/
  | group (number : Nat) (body : Regex)
  /-- What follows matches the body, or does not. Covers nothing. -/
  | look (positive : Bool) (body : Regex)
  /-- The body in the way it prefers, and in no other. -/
  | atomic (body : Regex)
  /-- Once more what the group has covered. -/
  | back (number : Nat)
deriving DecidableEq, Repr

namespace Regex

/-- One given character. -/
def letter (c : Char) : Regex := .one (.only c)

/-- All of them, one after the other. -/
def concat : List Regex → Regex
  | [] => .empty
  | [r] => r
  | r :: s :: rs => .seq r (concat (s :: rs))

/-- The first of them that can. -/
def choice : List Regex → Regex
  | [] => .empty
  | [r] => r
  | r :: s :: rs => .alt r (choice (s :: rs))

/-- The expression or nothing, whichever is preferred. -/
def maybe (greedy : Bool) (r : Regex) : Regex := if greedy then .alt r .empty else .alt .empty r

/-- The expression up to so many times, as often as possible if greedy, else as rarely. -/
def upTo (greedy : Bool) (r : Regex) : Nat → Regex
  | 0 => .empty
  | 1 => .maybe greedy r
  | n + 2 => .maybe greedy (.seq r (upTo greedy r (n + 1)))

/-- The sets in an expression, each once, together with those given. -/
def addSets : Regex → List CharSet → List CharSet
  | .empty, sets => sets
  | .one set, sets => sets.insert set
  | .seq r t, sets => addSets t (addSets r sets)
  | .alt r t, sets => addSets t (addSets r sets)
  | .star _ r, sets => addSets r sets
  | .group _ r, sets => addSets r sets
  | .look _ r, sets => addSets r sets
  | .atomic r, sets => addSets r sets
  | .back _, sets => sets

/-- Whether a repetition may follow: not after nothing and not after a look at what follows. -/
def repeatable : Regex → Bool
  | .empty => false
  | .look _ _ => false
  | _ => true

/-- Whether the expression can be run by an automaton: it neither looks at what follows nor settles
for a way to match nor refers to a group. -/
def isRegular : Regex → Bool
  | .empty => true
  | .one _ => true
  | .seq r s => r.isRegular && s.isRegular
  | .alt r s => r.isRegular && s.isRegular
  | .star _ r => r.isRegular
  | .group _ r => r.isRegular
  | .look _ _ => false
  | .atomic _ => false
  | .back _ => false

/-- Whether the expression refers to what a group has covered. -/
def refers : Regex → Bool
  | .empty => false
  | .one _ => false
  | .seq r s => r.refers || s.refers
  | .alt r s => r.refers || s.refers
  | .star _ r => r.refers
  | .group _ r => r.refers
  | .look _ r => r.refers
  | .atomic r => r.refers
  | .back _ => true

/-- Whether the expression may cover nothing. -/
def mayIdle : Regex → Bool
  | .empty => true
  | .one _ => false
  | .seq r s => r.mayIdle && s.mayIdle
  | .alt r s => r.mayIdle || s.mayIdle
  | .star _ _ => true
  | .group _ r => r.mayIdle
  | .look _ _ => true
  | .atomic r => r.mayIdle
  | .back _ => true

/-- Whether the expression repeats something that may cover nothing. -/
def idles : Regex → Bool
  | .empty => false
  | .one _ => false
  | .seq r s => r.idles || s.idles
  | .alt r s => r.idles || s.idles
  | .star _ r => r.mayIdle || r.idles
  | .group _ r => r.idles
  | .look _ r => r.idles
  | .atomic r => r.idles
  | .back _ => false

/-! ## Laws -/

theorem isRegular_concat {rs : List Regex} :
    (concat rs).isRegular = rs.all isRegular := by
  induction rs with
  | nil => rfl
  | cons r rs ih =>
    cases rs with
    | nil => exact (Bool.and_true _).symm
    | cons s rs => rw [concat, isRegular, ih, List.all_cons (a := r)]

theorem refers_concat {rs : List Regex} : (concat rs).refers = rs.any refers := by
  induction rs with
  | nil => rfl
  | cons r rs ih =>
    cases rs with
    | nil => exact (Bool.or_false _).symm
    | cons s rs => rw [concat, refers, ih, List.any_cons (a := r)]

theorem idles_concat {rs : List Regex} : (concat rs).idles = rs.any idles := by
  induction rs with
  | nil => rfl
  | cons r rs ih =>
    cases rs with
    | nil => exact (Bool.or_false _).symm
    | cons s rs => rw [concat, idles, ih, List.any_cons (a := r)]

end Regex

/-! ## Repetitions -/

/-- What is wrong with the text of a regular expression. -/
inductive ReadFault where
  /-- A closing parenthesis without an opening one. -/
  | unopenedGroup
  /-- A group that is not closed. -/
  | unclosedGroup
  /-- An unknown character after `(?`. -/
  | unknownGroup
  /-- A set that is not closed. -/
  | unclosedSet
  /-- A range of characters that ends before it begins. -/
  | reversedRange
  /-- A repetition with nothing to repeat. -/
  | nothingToRepeat
  /-- A repetition whose largest number is less than its smallest. -/
  | reversedCount
  /-- A reference to a group that is not opened before. -/
  | unknownReference
  /-- A form of expression that is not supported: an anchor, a class by name, an operator of sets. -/
  | unsupported
  /-- Groups or sets that are nested too deep. -/
  | tooDeep
  /-- An expression that takes too much memory. -/
  | tooLarge
deriving DecidableEq, Repr

/-- How often an item is repeated. -/
structure Repetition where
  least : Nat
  /-- None if there is no limit. -/
  most : Option Nat
deriving DecidableEq, Repr

namespace Repetition

/-- Once or not at all. -/
def optional : Repetition := ⟨0, some 1⟩

/-- Any number of times. -/
def anyNumber : Repetition := ⟨0, none⟩

/-- Once or more. -/
def atLeastOnce : Repetition := ⟨1, none⟩

/-- The repetitions behind the least number of them, as an item of its own if there may be any. -/
def more (greedy : Bool) (r : Regex) (times : Repetition) : List Regex :=
  match times.most with
  | none => [.star greedy r]
  | some most => if times.least < most then [.upTo greedy r (most - times.least)] else []

/-- The item repeated, as often as possible if greedy, else as rarely. -/
def apply (greedy : Bool) (r : Regex) (times : Repetition) : Regex :=
  .concat (List.replicate times.least r ++ times.more greedy r)

/-- No automaton has room for more copies of an item, whatever it is. -/
def countLimit : Nat := 327680

/-- What is wrong with the numbers. -/
def fault? (times : Repetition) : Option ReadFault :=
  match times.most with
  | none => if countLimit < times.least then some .tooLarge else none
  | some most =>
    if most < times.least then some .reversedCount
    else if countLimit < most then some .tooLarge else none

/-- A number of repetitions in digits. One that takes more than 64 bits is none. -/
def number? (digits : List Char) : Option Nat :=
  let n := Nat.ofDigitChars 10 digits 0
  if digits ≠ [] ∧ n < UInt64.size then some n else none

/-- The repetition that digits and a comma between two braces name: a number, or the least and the
largest number, which may both be left out. -/
def ofText? (s : List Char) : Option Repetition :=
  let least := s.takeWhile (· != ',')
  match s.dropWhile (· != ',') with
  | [] => (number? least).map fun n => ⟨n, some n⟩
  | _ :: most => do
    let least ← if least = [] then some 0 else number? least
    if most = [] then some ⟨least, none⟩
    else (number? most).map fun most => ⟨least, some most⟩

end Repetition

end VerseSearch
