/-!
# Numerals in ASCII and in Arabic-Indic digits

A numeral is a non-empty text of digits of either system, in any mix. `value?` reads one as a
32-bit number and refuses what does not fit; `written` writes a number in Arabic-Indic digits.
The two rows of ten digits are written into one another (`toArabicIndic_digits`).

Settings and requests hold counts instead: a count is a 64-bit number in ASCII digits, and a plus sign
may stand in front (`Text.count?`).
-/

set_option autoImplicit false

namespace VerseSearch.Numeral

/-- The code point of the Arabic-Indic zero; the other nine digits follow it. -/
def arabicIndicZero : Nat := 0x660

/-- The value of an ASCII digit. -/
def asciiDigit? (c : Char) : Option Nat :=
  if '0' ≤ c ∧ c ≤ '9' then some (c.toNat - 48) else none

/-- The value of an Arabic-Indic digit. -/
def arabicIndicDigit? (c : Char) : Option Nat :=
  if '\u0660' ≤ c ∧ c ≤ '\u0669' then some (c.toNat - arabicIndicZero) else none

/-- The value of a digit of either system. -/
def digit? (c : Char) : Option Nat := (asciiDigit? c).orElse fun _ => arabicIndicDigit? c

/-- A digit of either system. -/
def isDigit (c : Char) : Bool := (digit? c).isSome

/-- Not empty and made of digits only. -/
def isNumeral (s : List Char) : Bool := !s.isEmpty && s.all isDigit

/-- The Arabic-Indic digit of the same value; other characters stay. -/
def arabicIndicChar (c : Char) : Char :=
  match asciiDigit? c with
  | some d => Char.ofNat (arabicIndicZero + d)
  | none => c

/-- The ASCII digit of the same value; other characters stay. -/
def asciiChar (c : Char) : Char :=
  match arabicIndicDigit? c with
  | some d => Char.ofNat (48 + d)
  | none => c

/-- The text with its ASCII digits in Arabic-Indic. -/
def toArabicIndic (s : List Char) : List Char := s.map arabicIndicChar

/-- The text with its Arabic-Indic digits in ASCII. -/
def toAscii (s : List Char) : List Char := s.map asciiChar

/-- The decimal value of a text of digits, the highest digit first. A character that is no digit
counts as zero. -/
def decimal (s : List Char) : Nat := s.foldl (fun n c => 10 * n + (digit? c).getD 0) 0

/-- The value of a numeral, if the text is one and the value fits into 32 bits. -/
def value? (s : List Char) : Option UInt32 :=
  if isNumeral s && decimal s < UInt32.size then some (UInt32.ofNat (decimal s)) else none

/-- A number in Arabic-Indic digits. -/
def written (n : Nat) : List Char := toArabicIndic (Nat.toDigits 10 n)

/-! ## Laws -/

@[simp] theorem toArabicIndic_nil : toArabicIndic [] = [] := rfl

@[simp] theorem toArabicIndic_cons (c : Char) (s : List Char) :
    toArabicIndic (c :: s) = arabicIndicChar c :: toArabicIndic s := rfl

@[simp] theorem toArabicIndic_append (s t : List Char) :
    toArabicIndic (s ++ t) = toArabicIndic s ++ toArabicIndic t := by simp [toArabicIndic]

@[simp] theorem isNumeral_nil : isNumeral [] = false := rfl

/-- The ten digits of each system. -/
theorem digit?_tables :
    "0123456789".toList.map digit? = (List.range 10).map some ∧
      "٠١٢٣٤٥٦٧٨٩".toList.map digit? = (List.range 10).map some := by decide

/-- The two rows of digits are turned into one another. -/
theorem toArabicIndic_digits :
    toArabicIndic "0123456789".toList = "٠١٢٣٤٥٦٧٨٩".toList ∧
      toAscii "٠١٢٣٤٥٦٧٨٩".toList = "0123456789".toList := by decide

theorem decimal_append_singleton (s : List Char) (c : Char) :
    decimal (s ++ [c]) = 10 * decimal s + (digit? c).getD 0 := by simp [decimal]

/-- A text that is no numeral has no value. -/
theorem value?_eq_none_of_not {s : List Char} (h : isNumeral s = false) : value? s = none := by
  simp [value?, h]

end VerseSearch.Numeral

/-! ## Counts -/

namespace VerseSearch.Text

/-- One more than the largest count. -/
def countBound : Nat := UInt64.size

/-- The text without one plus sign at its front. -/
def dropPlus : List Char → List Char
  | '+' :: s => s
  | s => s

/-- The count that a text spells, if it is one. -/
def count? (s : List Char) : Option Nat :=
  let digits := dropPlus s
  if digits ≠ [] ∧ digits.all Char.isDigit = true ∧ Nat.ofDigitChars 10 digits 0 < countBound then
    some (Nat.ofDigitChars 10 digits 0)
  else none

end VerseSearch.Text
