import VerseSearch.Corpus.Basic
import VerseSearch.Json.Value
import VerseSearch.Numeral
import VerseSearch.Text.Blank
import VerseSearch.Text.Unseen

/-!
# Reading a corpus from JSON

A corpus is an array of verses. A verse is an object with the members `ayah`, `anum`, `snum` and
`surah` in any order, other members being ignored, or an array of these four values in this order.
The two numbers are JSON numbers or numerals in a string.

The text is read in order and the first fault decides (`Corpus.ofJson`). Only when all verses are
read are their numbers checked (`Corpus.check`), so a fault in the text goes before a number out of
range.
-/

set_option autoImplicit false

namespace VerseSearch

open Json (Value)

/-- Why a text is no corpus. -/
inductive CorpusFault where
  /-- The text is not JSON, or not of the right shape. -/
  | malformed
  /-- A string stands for a verse or surah number but is no numeral within 32 bits. -/
  | invalidNumeral (numeral : List Char)
  /-- The verse at the position has no surah's number. -/
  | surahOutOfRange (index : Nat) (surahNumber : UInt32)
  /-- The verse at the position has the number 0. -/
  | verseZero (index : Nat) (surahName : String)
deriving DecidableEq, Repr

namespace CorpusFault

/-- What the fault is called in the corpus of a layer. -/
def message (layer : Layer) : CorpusFault → String
  | .malformed => "Failed to parse " ++ layer.name ++ " corpus"
  | .invalidNumeral numeral =>
    "Failed to parse " ++ layer.name ++ " corpus: invalid numeral: " ++
      String.ofList (Text.quote numeral)
  | .surahOutOfRange index surahNumber =>
    "record " ++ toString index ++ " has surah number " ++ toString surahNumber.toNat ++
      " outside 1..=" ++ toString Verse.surahCount.toNat
  | .verseZero index surahName =>
    "record " ++ toString index ++ " (" ++ surahName ++ ") has verse number 0"

end CorpusFault

namespace Verse

/-! ## The values of a verse -/

/-- A string. -/
def stringOf : Value → Except CorpusFault String
  | .text (some s) => .ok (String.ofList s)
  | _ => .error .malformed

/-- A number: a JSON number within 32 bits, or a numeral with any blanks around it. -/
def numberOf : Value → Except CorpusFault UInt32
  | .number (some n) => if n < UInt32.size then .ok (UInt32.ofNat n) else .error .malformed
  | .text (some s) =>
    match Numeral.value? (Text.trim s) with
    | some n => .ok n
    | none => .error (.invalidNumeral s)
  | _ => .error .malformed

/-- The members of a verse that are read so far. -/
structure Partial where
  text : Option String := none
  number : Option UInt32 := none
  surahNumber : Option UInt32 := none
  surahName : Option String := none
deriving DecidableEq, Repr

namespace Partial

/-- One more member. None may come twice; a member that a verse does not have only has to be
whole. -/
def add (p : Partial) (key : List Char) (v : Value) : Except CorpusFault Partial :=
  if key = "ayah".toList then
    if p.text.isSome then .error .malformed
    else (stringOf v).map fun s => { p with text := some s }
  else if key = "anum".toList then
    if p.number.isSome then .error .malformed
    else (numberOf v).map fun n => { p with number := some n }
  else if key = "snum".toList then
    if p.surahNumber.isSome then .error .malformed
    else (numberOf v).map fun n => { p with surahNumber := some n }
  else if key = "surah".toList then
    if p.surahName.isSome then .error .malformed
    else (stringOf v).map fun s => { p with surahName := some s }
  else if v.isWhole then .ok p
  else .error .malformed

/-- All members, in the order of the text. -/
def addAll (p : Partial) : List (Option (List Char) × Value) → Except CorpusFault Partial
  | [] => .ok p
  | (none, _) :: _ => .error .malformed
  | (some key, v) :: ms =>
    match p.add key v with
    | .error fault => .error fault
    | .ok p' => p'.addAll ms

/-- The verse, if no member is missing. -/
def verse? (p : Partial) : Option Verse :=
  match p.text, p.number, p.surahNumber, p.surahName with
  | some text, some number, some surahNumber, some surahName =>
    some ⟨text, number, surahNumber, surahName⟩
  | _, _, _, _ => none

end Partial

/-- A verse from an array of its four values. A value that is missing is read like one that goes
wrong. -/
def ofItems (items : List Value) : Except CorpusFault Verse := do
  let text ← stringOf (items.getD 0 .broken)
  let number ← numberOf (items.getD 1 .broken)
  let surahNumber ← numberOf (items.getD 2 .broken)
  let surahName ← stringOf (items.getD 3 .broken)
  if items.length = 4 then .ok ⟨text, number, surahNumber, surahName⟩ else .error .malformed

/-- A verse from its JSON value. -/
def ofValue : Value → Except CorpusFault Verse
  | .object members =>
    match ({} : Partial).addAll members with
    | .error fault => .error fault
    | .ok p =>
      match p.verse? with
      | some v => .ok v
      | none => .error .malformed
  | .array items => ofItems items
  | _ => .error .malformed

/-- All verses, in the order of the text. -/
def ofValues : List Value → Except CorpusFault (List Verse)
  | [] => .ok []
  | v :: vs =>
    match ofValue v with
    | .error fault => .error fault
    | .ok verse => (ofValues vs).map (verse :: ·)

end Verse

namespace Corpus

/-- The verses of a JSON text. -/
def versesOfJson (s : List Char) : Except CorpusFault (List Verse) :=
  match Json.parse s with
  | (.array items, complete) =>
    match Verse.ofValues items with
    | .error fault => .error fault
    | .ok verses => if complete then .ok verses else .error .malformed
  | _ => .error .malformed

/-- Checks the numbers of the verses from a position on. -/
def checkFrom (index : Nat) : List Verse → Except CorpusFault Unit
  | [] => .ok ()
  | v :: vs =>
    if v.surahNumber = 0 ∨ Verse.surahCount < v.surahNumber then
      .error (.surahOutOfRange index v.surahNumber)
    else if v.number = 0 then .error (.verseZero index v.surahName)
    else checkFrom (index + 1) vs

/-- The corpus that a JSON text holds. -/
def ofJson (layer : Layer) (s : String) : Except CorpusFault Corpus :=
  match versesOfJson s.toList with
  | .error fault => .error fault
  | .ok verses =>
    match checkFrom 0 verses with
    | .error fault => .error fault
    | .ok () => .ok ⟨layer, verses⟩

/-! ## Laws -/

/-- The check succeeds exactly on verses whose numbers are in range. -/
theorem checkFrom_eq_ok_iff (index : Nat) (verses : List Verse) :
    checkFrom index verses = .ok () ↔ ∀ v ∈ verses, v.IsNumbered := by
  induction verses generalizing index with
  | nil => simp [checkFrom]
  | cons v vs ih =>
    have h0 : ∀ n : UInt32, n = 0 ↔ ¬ 1 ≤ n := by
      intro n
      rw [UInt32.le_iff_toNat_le, ← UInt32.toNat_inj]
      simp only [UInt32.toNat_zero, UInt32.toNat_one]
      omega
    simp only [checkFrom, List.forall_mem_cons, Verse.IsNumbered]
    by_cases h₁ : v.surahNumber = 0 ∨ Verse.surahCount < v.surahNumber
    · rw [if_pos h₁]
      simp only [reduceCtorEq, false_iff]
      rintro ⟨⟨hlow, hhigh, -⟩, -⟩
      rcases h₁ with h₁ | h₁
      · exact (h0 _).1 h₁ hlow
      · exact UInt32.not_le.2 h₁ hhigh
    · rw [if_neg h₁]
      simp only [not_or, h0, Decidable.not_not, UInt32.not_lt] at h₁
      by_cases h₂ : v.number = 0
      · rw [if_pos h₂]
        simp [(h0 _).1 h₂]
      · rw [if_neg h₂, ih]
        have : 1 ≤ v.number := Decidable.not_not.1 fun h => h₂ ((h0 _).2 h)
        simp [h₁.1, h₁.2, this, Verse.IsNumbered]

/-- A corpus that is read from a file belongs to the layer it was read for, and all its verses
are numbered. -/
theorem isNumbered_of_ofJson {layer : Layer} {s : String} {c : Corpus}
    (h : ofJson layer s = .ok c) : c.layer = layer ∧ ∀ v ∈ c.verses, v.IsNumbered := by
  unfold ofJson at h
  split at h
  · simp at h
  · split at h
    · simp at h
    · rename_i hc
      cases h
      exact ⟨rfl, (checkFrom_eq_ok_iff 0 _).1 hc⟩

end Corpus

end VerseSearch
