import VerseSearch.Regex.Syntax

/-!
# The memory that an expression takes

A regular expression is run by an automaton that reads the bytes of a text from its end to its
beginning, and an automaton of more than ten mebibytes is refused (`Regex.fits`). `Regex.weight` is
the size of the automaton in bytes: a state takes 32 of them, and what it holds beside a single way on
takes more.
-/

set_option autoImplicit false

namespace VerseSearch

/-! ## Sets as intervals -/

/-- Intervals of code points, both ends included. -/
abbrev Intervals := List (Nat × Nat)

namespace Intervals

/-- One more interval, joined with those that it meets. -/
def insert (a b : Nat) : Intervals → Intervals
  | [] => [(a, b)]
  | (c, d) :: l =>
    if b + 1 < c then (a, b) :: (c, d) :: l
    else if d + 1 < a then (c, d) :: insert a b l
    else insert (min a c) (max b d) l

/-- The largest code point. -/
def lastCode : Nat := 0x10FFFF

/-- What lies between the intervals, from a code point on. -/
def gaps (n : Nat) : Intervals → Intervals
  | [] => if n ≤ lastCode then [(n, lastCode)] else []
  | (c, d) :: l => if n < c then (n, c - 1) :: gaps (d + 1) l else gaps (d + 1) l

end Intervals

/-- The intervals of a set. -/
def CharSet.intervals : CharSet → Intervals
  | .empty => []
  | .range first last => if first ≤ last then [(first.toNat, last.toNat)] else []
  | .union s t => s.intervals.foldr (fun i l => Intervals.insert i.1 i.2 l) t.intervals
  | .complement s => Intervals.gaps 0 s.intervals

/-! ## The bytes of characters -/

/-- The bytes of a code point. -/
def codeBytes (n : Nat) : List Nat :=
  if n < 0x80 then [n]
  else if n < 0x800 then [0xC0 + n / 64, 0x80 + n % 64]
  else if n < 0x10000 then [0xE0 + n / 4096, 0x80 + n / 64 % 64, 0x80 + n % 64]
  else [0xF0 + n / 262144, 0x80 + n / 4096 % 64, 0x80 + n / 64 % 64, 0x80 + n % 64]

/-- A range of bytes for each byte of a character. -/
abbrev ByteRanges := List (Nat × Nat)

/-- The code points with the same number of bytes, as intervals. There are no characters between the
third and the fourth. -/
def codeZones : List (Nat × Nat) :=
  [(0, 0x7F), (0x80, 0x7FF), (0x800, 0xD7FF), (0xE000, 0xFFFF), (0x10000, 0x10FFFF)]

/-- An interval of code points cut so that in each part every byte ranges independently of the
others. The blocks are the numbers of code points with the same first bytes, smallest first. -/
def byteAligned : List Nat → Nat → Nat → List (Nat × Nat)
  | [], a, b => [(a, b)]
  | block :: blocks, a, b =>
    if a / block = b / block then [(a, b)]
    else
      let a' := (a + block - 1) / block * block
      let b' := (b + 1) / block * block
      (if a < a' then [(a, a' - 1)] else []) ++
        (if a' < b' then byteAligned blocks a' (b' - 1) else []) ++
        if b' ≤ b then [(b', b)] else []

/-- The byte ranges of an interval of code points. -/
def byteRanges (a b : Nat) : List ByteRanges :=
  codeZones.flatMap fun (low, high) =>
    let a := max a low
    let b := min b high
    if b < a then []
    else if high = 0x7F then [[(a, b)]]
    else (byteAligned [64, 4096, 262144] a b).map fun (a, b) => (codeBytes a).zip (codeBytes b)

/-! ## Weights -/

namespace Weight

/-- A state. -/
def state : Nat := 32

/-- A state with several ways on, which are in order of preference. -/
def branching (ways : Nat) : Nat := state + 4 * ways

/-- A state with a way on for each of several ranges of bytes. -/
def table (ranges : Nat) : Nat := state + 8 * ranges

/-- The beginnings of a list, but the empty one. -/
def beginnings {α : Type} : List α → List (List α)
  | [] => []
  | a :: l => [a] :: (beginnings l).map (a :: ·)

/-- The code of a set's only member, if it has one member only. -/
def onlyCode? : Intervals → Option Nat
  | [(a, b)] => if a = b then some a else none
  | _ => none

/-- A set of characters. Read backwards, characters share their first bytes. -/
def ofSet (set : CharSet) : Nat :=
  let intervals := set.intervals
  match onlyCode? intervals with
  | some n => state * (codeBytes n).length
  | none =>
    if intervals.all fun i => i.2 < 0x80 then state + table intervals.length
    else
      let ranges := intervals.flatMap fun (a, b) => byteRanges a b
      branching ranges.length + state + state * ((ranges.flatMap beginnings).eraseDups).length

/-- Several literal texts. Read backwards, they share their last bytes. -/
def ofLiterals (texts : List (List Nat)) : Nat :=
  let texts := texts.map List.reverse
  let inner := (texts.flatMap fun t => [] :: beginnings t.dropLast).eraseDups
  let ways (b : List Nat) : Nat :=
    (texts.filterMap fun t => if b.isPrefixOf t then t[b.length]? else none).eraseDups.length
  inner.foldr (fun b n => branching 1 + (if ways b = 1 then state else table (ways b)) + n) state

/-- What is to be known of the alternatives of an expression. -/
structure Alternatives where
  count : Nat
  /-- The weights of the alternatives together. -/
  total : Nat
  /-- One set, if each alternative is a character of a set. -/
  set? : Option CharSet
  /-- The texts, if each alternative is one. -/
  literals? : Option (List (List Nat))

namespace Alternatives

/-- A single alternative that is neither a set nor a text. -/
def single (weight : Nat) : Alternatives := ⟨1, weight, none, none⟩

/-- The weight of the alternatives as one expression. -/
def weight (m : Alternatives) : Nat :=
  if m.count = 1 then m.total
  else
    match m.set?, m.literals? with
    | some set, _ => ofSet set
    | none, some texts => ofLiterals texts
    | none, none => branching m.count + state + m.total

/-- The alternatives of both. -/
def or (m n : Alternatives) : Alternatives where
  count := m.count + n.count
  total := m.total + n.total
  set? := m.set?.bind fun s => n.set?.map s.union
  literals? := m.literals?.bind fun l => n.literals?.map (l ++ ·)

/-- The text of the only alternative. -/
def text? (m : Alternatives) : Option (List Nat) :=
  match m.literals? with
  | some [text] => some text
  | _ => none

/-- The one after the other. -/
def andThen (m n : Alternatives) : Alternatives where
  count := 1
  total := m.weight + n.weight
  set? := none
  literals? := m.text?.bind fun s => n.text?.map fun t => [s ++ t]

end Alternatives

end Weight

namespace Regex

open Weight

/-- What is to be known of the alternatives of an expression, when the weights of sets are known.
What is repeated has a branch before it, and nothing (an empty alternative) a state of its own. -/
def alternatives (setWeight : CharSet → Nat) : Regex → Alternatives
  | .empty => .single state
  | .one set =>
    ⟨1, setWeight set, some set, (onlyCode? set.intervals).map fun n => [codeBytes n]⟩
  | .seq r s =>
    match s with
    | .star _ t =>
      if r = t then .single (branching 2 + (alternatives setWeight r).weight)
      else (alternatives setWeight r).andThen (alternatives setWeight s)
    | _ => (alternatives setWeight r).andThen (alternatives setWeight s)
  | .alt .empty r => .single (branching 2 + state + (alternatives setWeight r).weight)
  | .alt r .empty => .single (branching 2 + state + (alternatives setWeight r).weight)
  | .alt r s => (alternatives setWeight r).or (alternatives setWeight s)
  | .star _ r => .single (branching 2 + (alternatives setWeight r).weight)
  | .group _ r => .single (alternatives setWeight r).weight
  | .look _ r => .single (alternatives setWeight r).weight
  | .atomic r => .single (alternatives setWeight r).weight
  | .back _ => .single state

/-- The states at the beginning and the end of every automaton. -/
def frameWeight : Nat := 144

/-- The size in bytes of the automaton for an expression. -/
def weight (r : Regex) : Nat :=
  let known := (r.addSets []).map fun set => (set, Weight.ofSet set)
  let setWeight (set : CharSet) : Nat :=
    match known.find? (·.1 = set) with
    | some e => e.2
    | none => Weight.ofSet set
  frameWeight + (r.alternatives setWeight).weight

/-- The largest automaton that is not refused. -/
def weightLimit : Nat := 10 * 1024 * 1024

/-- Whether the expression takes no more memory than it may. -/
def fits (r : Regex) : Bool := !r.isRegular || decide (r.weight ≤ weightLimit)

/-- An expression that is not run by an automaton is not refused. -/
theorem fits_of_not_isRegular {r : Regex} (h : r.isRegular = false) : r.fits = true := by
  rw [fits, h]
  rfl

end Regex

end VerseSearch
