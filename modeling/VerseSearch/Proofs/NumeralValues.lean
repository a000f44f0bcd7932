import Mathlib.Data.Nat.Digits.Defs
import VerseSearch.Proofs.TypedReferences

/-!
# What a numeral is worth

A numeral is worth its place value: the last digit counts for itself, and each place counts ten
times as much as the one behind it, whichever row a digit is of. `readFrom` reads a text digit by
digit in 32-bit arithmetic and gives up at the first product or sum that is no 32-bit number. A
number never gets smaller while digits are read, so this happens exactly if the number at the end
does not fit (`readFrom_eq`). `reads_all_notations` says for every text what its value is.
-/

set_option autoImplicit false

namespace VerseSearch.Numeral

variable {c : Char} {d : Nat} {s : List Char}

/-! ## Digits of the two rows -/

theorem asciiDigit?_isSome_iff : (asciiDigit? c).isSome = true ↔ '0' ≤ c ∧ c ≤ '9' := by
  rw [asciiDigit?, Option.isSome_ite]

theorem arabicIndicDigit?_isSome_iff :
    (arabicIndicDigit? c).isSome = true ↔ '\u0660' ≤ c ∧ c ≤ '\u0669' := by
  rw [arabicIndicDigit?, Option.isSome_ite]

/-- The digits are the two rows of ten. -/
theorem isDigit_iff :
    isDigit c = true ↔ ('0' ≤ c ∧ c ≤ '9') ∨ ('\u0660' ≤ c ∧ c ≤ '\u0669') := by
  rw [← asciiDigit?_isSome_iff, ← arabicIndicDigit?_isSome_iff, isDigit, digit?]
  cases asciiDigit? c <;> simp

/-- The digits of a value below ten in the two rows. -/
theorem ascii_row (h : d < 10) :
    asciiDigit? (Char.ofNat (48 + d)) = some d ∧
      asciiDigit? (Char.ofNat (arabicIndicZero + d)) = none ∧
      arabicIndicChar (Char.ofNat (48 + d)) = Char.ofNat (arabicIndicZero + d) := by
  have hrow : (List.range 10).all (fun d =>
      asciiDigit? (Char.ofNat (48 + d)) == some d &&
        asciiDigit? (Char.ofNat (arabicIndicZero + d)) == none &&
        arabicIndicChar (Char.ofNat (48 + d)) == Char.ofNat (arabicIndicZero + d)) = true := by
    decide
  have hd := List.all_eq_true.1 hrow d (List.mem_range.2 h)
  simpa [and_assoc] using hd

/-- A character is an Arabic-Indic digit and written as the ASCII digit of its value, or stays. -/
theorem asciiChar_cases (c : Char) :
    (arabicIndicDigit? c = none ∧ asciiChar c = c) ∨
      ∃ d < 10, c = Char.ofNat (arabicIndicZero + d) ∧ arabicIndicDigit? c = some d ∧
        asciiChar c = Char.ofNat (48 + d) := by
  unfold asciiChar
  split
  · rename_i d h
    obtain ⟨hd, hc⟩ := arabicIndicDigit?_eq_some h
    exact .inr ⟨d, hd, hc, h, rfl⟩
  · rename_i h
    exact .inl ⟨h, rfl⟩

/-- A digit has the same value in ASCII. -/
theorem digit?_asciiChar (c : Char) : digit? (asciiChar c) = digit? c := by
  rcases asciiChar_cases c with ⟨-, h⟩ | ⟨d, hd, hc, hvalue, h⟩
  · rw [h]
  · obtain ⟨hascii, hnone, -⟩ := ascii_row hd
    have hc' : asciiDigit? c = none := hc ▸ hnone
    rw [h, digit?, digit?, hascii, hc', hvalue]
    rfl

/-- In ASCII every digit is an ASCII digit. -/
theorem asciiDigit?_asciiChar (c : Char) : asciiDigit? (asciiChar c) = digit? c := by
  rcases asciiChar_cases c with ⟨hnone, hc⟩ | ⟨d, hd, -, -, hc⟩
  · rw [hc, digit?, hnone]
    cases asciiDigit? c <;> rfl
  · rw [← digit?_asciiChar, hc, digit?, (ascii_row hd).1]
    rfl

/-- Writing a character in ASCII and back changes exactly the ASCII digits. -/
theorem arabicIndicChar_asciiChar_eq_iff :
    arabicIndicChar (asciiChar c) = c ↔ asciiDigit? c = none := by
  rcases asciiChar_cases c with ⟨-, h⟩ | ⟨d, hd, hc, -, h⟩
  · rw [h]
    constructor
    · intro heq
      rw [← heq, asciiDigit?_arabicIndicChar]
    · intro hnone
      rw [arabicIndicChar, hnone]
  · obtain ⟨-, hnone, hback⟩ := ascii_row hd
    rw [h, hback, ← hc]
    exact iff_of_true rfl (hc ▸ hnone)

theorem isNumeral_toAscii (s : List Char) : isNumeral (toAscii s) = isNumeral s := by
  have hdigit : isDigit ∘ asciiChar = isDigit :=
    funext fun c => congrArg Option.isSome (digit?_asciiChar c)
  simp [isNumeral, toAscii, List.all_map, hdigit]

theorem decimal_toAscii (s : List Char) : decimal (toAscii s) = decimal s := by
  simp only [decimal, toAscii, List.foldl_map, digit?_asciiChar]

/-- Only texts with an ASCII digit are changed by writing them in ASCII and back. -/
theorem toArabicIndic_toAscii_eq_iff :
    toArabicIndic (toAscii s) = s ↔ ∀ c ∈ s, ¬('0' ≤ c ∧ c ≤ '9') := by
  induction s with
  | nil => exact iff_of_true rfl (List.forall_mem_nil _)
  | cons c s ih =>
    rw [List.forall_mem_cons, ← ih, ← asciiDigit?_isSome_iff, Bool.not_eq_true,
      Option.isSome_eq_false_iff, Option.isNone_iff_eq_none, ← arabicIndicChar_asciiChar_eq_iff]
    exact List.cons_eq_cons

/-! ## Place value -/

/-- What the digits of a text are worth: the last one its value, the one before it ten times its
value, and so on. -/
def placeValue (s : List Char) : Nat := Nat.ofDigits 10 (s.reverse.map fun c => (digit? c).getD 0)

/-- The value that is read from left to right is the place value. -/
theorem decimal_eq_placeValue (s : List Char) : decimal s = placeValue s := by
  induction s using List.reverseRecOn with
  | nil => rfl
  | append_singleton s c ih =>
    rw [decimal_append_singleton, ih, placeValue, placeValue, List.reverse_append,
      List.reverse_singleton, List.singleton_append, List.map_cons, Nat.ofDigits_cons]
    exact Nat.add_comm _ _

/-- Zeros in front are worth nothing. -/
theorem placeValue_zeros (k : Nat) (hc : digit? c = some 0) (s : List Char) :
    placeValue (List.replicate k c ++ s) = placeValue s := by
  rw [placeValue, List.reverse_append, List.map_append, List.reverse_replicate, List.map_replicate,
    hc]
  exact Nat.ofDigits_append_replicate_zero _

/-! ## Reading in 32 bits -/

/-- Ten times the number, if that is a 32-bit number. -/
def tenfold? (n : UInt32) : Option UInt32 :=
  if n.toNat * 10 < UInt32.size then some (n * 10) else none

/-- The sum, if it is a 32-bit number. -/
def plus? (n d : UInt32) : Option UInt32 :=
  if n.toNat + d.toNat < UInt32.size then some (n + d) else none

/-- The number that the ASCII digits of a text make of the number before them. None if a character
is no ASCII digit, or if a product or a sum on the way is no 32-bit number. -/
def readFrom (n : UInt32) : List Char → Option UInt32
  | [] => some n
  | c :: s => do
    let tens ← tenfold? n
    let d ← asciiDigit? c
    let sum ← plus? tens (UInt32.ofNat d)
    readFrom sum s

/-- The number that digits make of the number before them, of any size. -/
def decimalFrom (n : Nat) (s : List Char) : Nat :=
  s.foldl (fun n c => 10 * n + (digit? c).getD 0) n

/-- A number does not get smaller by digits behind it. -/
theorem le_decimalFrom (n : Nat) (s : List Char) : n ≤ decimalFrom n s := by
  induction s generalizing n with
  | nil => exact Nat.le_refl n
  | cons c s ih =>
    have hstep : n ≤ 10 * n + (digit? c).getD 0 := by omega
    exact hstep.trans (ih _)

/-- One digit is read if ten times the number and the digit fit. -/
theorem readFrom_cons {n : UInt32} (hc : asciiDigit? c = some d) :
    readFrom n (c :: s) =
      if 10 * n.toNat + d < UInt32.size then readFrom (UInt32.ofNat (10 * n.toNat + d)) s
      else none := by
  have hd : d < 10 := (asciiDigit?_eq_some hc).1
  have hsmall : d < UInt32.size := hd.trans (by decide)
  have hdigit : (UInt32.ofNat d).toNat = d := UInt32.toNat_ofNat_of_lt' hsmall
  rw [readFrom, hc, tenfold?]
  by_cases htens : n.toNat * 10 < UInt32.size
  · have hten : (n * 10).toNat = n.toNat * 10 := by
      rw [UInt32.toNat_mul]
      exact Nat.mod_eq_of_lt htens
    rw [if_pos htens]
    simp only [Option.bind_eq_bind, Option.bind_some, plus?, hten, hdigit]
    by_cases hsum : n.toNat * 10 + d < UInt32.size
    · have heq : n * 10 + UInt32.ofNat d = UInt32.ofNat (10 * n.toNat + d) := by
        rw [← UInt32.toNat_inj, UInt32.toNat_add, hten, hdigit, UInt32.toNat_ofNat', Nat.mul_comm]
      rw [if_pos hsum, if_pos (by omega), heq]
      rfl
    · rw [if_neg hsum, if_neg (by omega)]
      rfl
  · rw [if_neg htens, if_neg (by omega)]
    rfl

/-- Digits are read exactly if the number at the end fits: no number on the way is larger. -/
theorem readFrom_eq (n : UInt32) (hs : ∀ c ∈ s, (asciiDigit? c).isSome = true) :
    readFrom n s =
      if decimalFrom n.toNat s < UInt32.size then some (UInt32.ofNat (decimalFrom n.toNat s))
      else none := by
  induction s generalizing n with
  | nil =>
    have hn : decimalFrom n.toNat [] = n.toNat := rfl
    rw [readFrom, hn, if_pos n.toNat_lt, UInt32.ofNat_toNat]
  | cons c s ih =>
    obtain ⟨hc, hs⟩ := List.forall_mem_cons.1 hs
    obtain ⟨d, hd⟩ := Option.isSome_iff_exists.1 hc
    have hdigit : decimalFrom n.toNat (c :: s) = decimalFrom (10 * n.toNat + d) s := by
      simp [decimalFrom, digit?, hd]
    rw [readFrom_cons hd, hdigit]
    by_cases hfits : 10 * n.toNat + d < UInt32.size
    · have hnext : (UInt32.ofNat (10 * n.toNat + d)).toNat = 10 * n.toNat + d :=
        UInt32.toNat_ofNat_of_lt' hfits
      rw [if_pos hfits, ih _ hs, hnext]
    · have hgrows := le_decimalFrom (10 * n.toNat + d) s
      rw [if_neg hfits, if_neg (by omega)]

/-- The value of a numeral is what is read from its ASCII form in 32 bits. -/
theorem value?_eq_readFrom (s : List Char) :
    value? s = if isNumeral s then readFrom 0 (toAscii s) else none := by
  cases hs : isNumeral s with
  | false => exact value?_eq_none_of_not hs
  | true =>
    have hdigits : ∀ c ∈ toAscii s, (asciiDigit? c).isSome = true := by
      intro c hc
      obtain ⟨c, hmem, rfl⟩ := List.mem_map.1 hc
      rw [asciiDigit?_asciiChar]
      exact (Query.nonempty_of_isNumeral hs).2 c hmem
    have hvalue : decimalFrom (0 : UInt32).toNat (toAscii s) = decimal s := decimal_toAscii s
    rw [if_pos rfl, readFrom_eq 0 hdigits, hvalue, value?, hs, Bool.true_and]
    simp only [decide_eq_true_eq]

/-! ## Every notation -/

theorem isNumeral_iff : isNumeral s = true ↔
    s ≠ [] ∧ ∀ c ∈ s, ('0' ≤ c ∧ c ≤ '9') ∨ ('\u0660' ≤ c ∧ c ≤ '\u0669') := by
  simp only [isNumeral, Bool.and_eq_true, Bool.not_eq_true', List.isEmpty_eq_false_iff,
    List.all_eq_true, isDigit_iff]

theorem value?_toArabicIndic (s : List Char) : value? (toArabicIndic s) = value? s := by
  rw [value?, value?, isNumeral_toArabicIndic, decimal_toArabicIndic]

theorem value?_toAscii (s : List Char) : value? (toAscii s) = value? s := by
  rw [value?, value?, isNumeral_toAscii, decimal_toAscii]

/-- A number that is written in Arabic-Indic digits is read. -/
theorem value?_written (n : UInt32) : value? (written n.toNat) = some n :=
  value?_eq_some_iff.2 ⟨isNumeral_written _, decimal_written _⟩

/-- Numerals are read exactly, whichever rows their digits are of. A text has the value `n` exactly
if it is not empty, all its characters are digits of the two rows and `n` is their place value, in
which zeros in front count nothing; it has none exactly if it is empty, has another character or
its place value is no 32-bit number. Reading in 32 bits from left to right, with every product and
sum checked, finds the same. The value is kept when the digits are written in either row, a number
that is written out in either row is read again, and Arabic-Indic digits written in ASCII and back
are as before exactly if no digit was ASCII at first. -/
theorem reads_all_notations (s : List Char) :
    (∀ n : UInt32, value? s = some n ↔
      s ≠ [] ∧ (∀ c ∈ s, ('0' ≤ c ∧ c ≤ '9') ∨ ('\u0660' ≤ c ∧ c ≤ '\u0669')) ∧
        placeValue s = n.toNat) ∧
    (value? s = none ↔
      s = [] ∨ (∃ c ∈ s, ¬('0' ≤ c ∧ c ≤ '9') ∧ ¬('\u0660' ≤ c ∧ c ≤ '\u0669')) ∨
        UInt32.size ≤ placeValue s) ∧
    (∀ k, placeValue (List.replicate k '0' ++ s) = placeValue s ∧
      placeValue (List.replicate k '\u0660' ++ s) = placeValue s) ∧
    (value? s = if isNumeral s then readFrom 0 (toAscii s) else none) ∧
    value? (toArabicIndic s) = value? s ∧ value? (toAscii s) = value? s ∧
    (∀ n : UInt32, value? (Nat.toDigits 10 n.toNat) = some n ∧
      value? (toArabicIndic (Nat.toDigits 10 n.toNat)) = some n) ∧
    (toArabicIndic (toAscii s) = s ↔ ¬ ∃ c ∈ s, '0' ≤ c ∧ c ≤ '9') := by
  refine ⟨fun n => ?_, ?_, fun k => ⟨placeValue_zeros k rfl s, placeValue_zeros k rfl s⟩,
    value?_eq_readFrom s, value?_toArabicIndic s, value?_toAscii s, fun n => ?_, ?_⟩
  · rw [value?_eq_some_iff, isNumeral_iff, decimal_eq_placeValue, and_assoc]
  · have hnumeral : isNumeral s = false ↔
        s = [] ∨ ∃ c ∈ s, ¬('0' ≤ c ∧ c ≤ '9') ∧ ¬('\u0660' ≤ c ∧ c ≤ '\u0669') := by
      rw [← Bool.not_eq_true, isNumeral_iff]
      simp only [ne_eq, not_and_or, not_not, not_forall, not_or, exists_prop]
    rw [← or_assoc, ← hnumeral, ← decimal_eq_placeValue, value?]
    cases isNumeral s <;> simp
  · have hread := value?_written n
    have hascii := (value?_toArabicIndic (Nat.toDigits 10 n.toNat)).symm
    exact ⟨hascii.trans hread, hread⟩
  · rw [toArabicIndic_toAscii_eq_iff]
    simp only [not_exists, not_and]

/-- The largest 32-bit number, in mixed digits behind a zero, and the next number. -/
example : value? "\u06604\u06629\u0664967295".toList = some 4294967295 ∧
    value? "4294967296".toList = none := by decide

end VerseSearch.Numeral
