/-!
# The tokens of a JSON text

Blanks between tokens are dropped; a place where no token begins gives one `broken` token and ends
the list. A string whose escapes do not form characters is a token all the same, without a
content, so that only a reader who needs the content finds fault with it. A number is kept as a
natural number if it is written as one, and without a value otherwise.
-/

set_option autoImplicit false

namespace VerseSearch.Json

/-- A token of a JSON text. -/
inductive Token where
  | openArray
  | closeArray
  | openObject
  | closeObject
  | comma
  | colon
  | null
  | bool (value : Bool)
  /-- With its value if it is written as a natural number: digits only. -/
  | number (natural : Option Nat)
  /-- With its content, unless an escape stands for half a surrogate pair. -/
  | text (content : Option (List Char))
  /-- No token begins here. -/
  | broken
deriving DecidableEq, Repr

/-- The blanks of JSON. -/
def isSpace (c : Char) : Bool := c == ' ' || c == '\n' || c == '\t' || c == '\r'

/-! ## Strings -/

/-- The value of a hexadecimal digit. -/
def hexDigit? (c : Char) : Option Nat :=
  if '0' ≤ c ∧ c ≤ '9' then some (c.toNat - 48)
  else if 'a' ≤ c ∧ c ≤ 'f' then some (c.toNat - 87)
  else if 'A' ≤ c ∧ c ≤ 'F' then some (c.toNat - 55)
  else none

/-- The value of four hexadecimal digits. -/
def codeUnit? (a b c d : Char) : Option Nat :=
  match hexDigit? a, hexDigit? b, hexDigit? c, hexDigit? d with
  | some a, some b, some c, some d => some (((a * 16 + b) * 16 + c) * 16 + d)
  | _, _, _, _ => none

/-- The first half of a surrogate pair. -/
def isHighSurrogate (u : Nat) : Bool := decide (0xD800 ≤ u) && decide (u < 0xDC00)

/-- The second half of a surrogate pair. -/
def isLowSurrogate (u : Nat) : Bool := decide (0xDC00 ≤ u) && decide (u < 0xE000)

/-- The character of a surrogate pair. -/
def pairChar (high low : Nat) : Char :=
  Char.ofNat (0x10000 + (high - 0xD800) * 0x400 + (low - 0xDC00))

/-- The character that a backslash and one more character stand for. -/
def escape? : Char → Option Char
  | '"' => some '"'
  | '\\' => some '\\'
  | '/' => some '/'
  | 'b' => some '\x08'
  | 'f' => some '\x0c'
  | 'n' => some '\n'
  | 'r' => some '\r'
  | 't' => some '\t'
  | _ => none

/-- A unit of a string: a character, or an escape that is half a surrogate pair. -/
inductive TextUnit where
  | char (c : Char)
  | half (code : Nat)
deriving DecidableEq, Repr

/-- The unit with the given code. -/
def TextUnit.ofCode (u : Nat) : TextUnit :=
  if isHighSurrogate u || isLowSurrogate u then .half u else .char (Char.ofNat u)

/-- The characters of a string, unless a half stands without its other half. -/
def content : List TextUnit → Option (List Char)
  | [] => some []
  | .char c :: us => (content us).map (c :: ·)
  | .half u :: .half v :: us =>
    if isHighSurrogate u && isLowSurrogate v then (content us).map (pairChar u v :: ·) else none
  | .half _ :: _ => none

/-- The units of a string behind its opening quote, and what follows the closing one. -/
def stringBody : List Char → Option (List TextUnit × List Char)
  | [] => none
  | '"' :: r => some ([], r)
  | '\\' :: 'u' :: a :: b :: c :: d :: r =>
    match codeUnit? a b c d with
    | none => none
    | some u => (stringBody r).map fun p => (.ofCode u :: p.1, p.2)
  | '\\' :: c :: r =>
    match escape? c with
    | none => none
    | some e => (stringBody r).map fun p => (.char e :: p.1, p.2)
  | c :: r => if c < ' ' then none else (stringBody r).map fun p => (.char c :: p.1, p.2)

/-! ## Numbers -/

/-- Whether a digit comes next. -/
def digitNext : List Char → Bool
  | c :: _ => c.isDigit
  | [] => false

/-- The text behind a run of digits. -/
def skipDigits (s : List Char) : List Char := s.dropWhile Char.isDigit

/-- The digits before the point and what follows them. A leading zero stands alone. -/
def integerPart : List Char → Option (List Char × List Char)
  | '0' :: r => if digitNext r then none else some (['0'], r)
  | s => if digitNext s then some (s.takeWhile Char.isDigit, skipDigits s) else none

/-- What follows the point and its digits, if there is a point, and whether there is one. -/
def fractionPart : List Char → Option (Bool × List Char)
  | '.' :: r => if digitNext r then some (true, skipDigits r) else none
  | s => some (false, s)

/-- A text without one sign at its front. -/
def skipSign : List Char → List Char
  | '+' :: r => r
  | '-' :: r => r
  | s => s

/-- What follows the exponent, if there is one, and whether there is one. -/
def exponentPart (s : List Char) : Option (Bool × List Char) :=
  match s with
  | c :: r =>
    if c = 'e' ∨ c = 'E' then
      if digitNext (skipSign r) then some (true, skipDigits (skipSign r)) else none
    else some (false, s)
  | [] => some (false, [])

/-- A number, with its value if it is digits only. -/
def number (negative : Bool) (s : List Char) : Option (Token × List Char) :=
  match integerPart s with
  | none => none
  | some (digits, r) =>
    match fractionPart r with
    | none => none
    | some (fraction, r) =>
      match exponentPart r with
      | none => none
      | some (exponent, r) =>
        let natural := if negative || fraction || exponent then none
          else some (Nat.ofDigitChars 10 digits 0)
        some (.number natural, r)

/-! ## All tokens -/

/-- The token that is one sign. -/
def sign? : Char → Option Token
  | '[' => some .openArray
  | ']' => some .closeArray
  | '\x7b' => some .openObject
  | '\x7d' => some .closeObject
  | ',' => some .comma
  | ':' => some .colon
  | _ => none

/-- The token that is one of the three words, and what follows it. -/
def word? : List Char → Option (Token × List Char)
  | 'n' :: 'u' :: 'l' :: 'l' :: r => some (.null, r)
  | 't' :: 'r' :: 'u' :: 'e' :: r => some (.bool true, r)
  | 'f' :: 'a' :: 'l' :: 's' :: 'e' :: r => some (.bool false, r)
  | _ => none

/-- The token at the front of a text, and what follows it. -/
def next? : List Char → Option (Token × List Char)
  | [] => none
  | c :: r =>
    match sign? c with
    | some t => some (t, r)
    | none =>
      if c = '"' then (stringBody r).map fun p => (.text (content p.1), p.2)
      else if c = '-' then number true r
      else if c.isDigit then number false (c :: r)
      else word? (c :: r)

/-! ### Every token shortens the text -/

theorem length_skipDigits_le (s : List Char) : (skipDigits s).length ≤ s.length :=
  (List.dropWhile_suffix _).length_le

theorem length_lt_of_stringBody {s : List Char} {p : List TextUnit × List Char}
    (h : stringBody s = some p) : p.2.length < s.length := by
  fun_induction stringBody s generalizing p with
  | case1 => simp at h
  | case2 r => cases h; simp
  | case3 => simp at h
  | case4 a b c d r u _ ih =>
    obtain ⟨q, hq, rfl⟩ := Option.map_eq_some_iff.1 h
    have := ih hq
    simp only [List.length_cons]
    omega
  | case5 => simp at h
  | case6 c r _ e _ ih =>
    obtain ⟨q, hq, rfl⟩ := Option.map_eq_some_iff.1 h
    have := ih hq
    simp only [List.length_cons]
    omega
  | case7 => simp at h
  | case8 c r _ _ _ _ ih =>
    obtain ⟨q, hq, rfl⟩ := Option.map_eq_some_iff.1 h
    have := ih hq
    simp only [List.length_cons]
    omega

theorem length_lt_of_integerPart {s : List Char} {p : List Char × List Char}
    (h : integerPart s = some p) : p.2.length < s.length := by
  unfold integerPart at h
  split at h
  · split at h
    · simp at h
    · cases h; simp
  · split at h
    · rename_i hd
      cases h
      cases s with
      | nil => simp [digitNext] at hd
      | cons c r =>
        have hc : c.isDigit = true := hd
        have := length_skipDigits_le r
        simp only [skipDigits, List.dropWhile_cons, hc, if_true, List.length_cons] at this ⊢
        omega
    · simp at h

theorem length_le_of_fractionPart {s : List Char} {p : Bool × List Char}
    (h : fractionPart s = some p) : p.2.length ≤ s.length := by
  unfold fractionPart at h
  split at h
  · rename_i r
    split at h
    · cases h
      have := length_skipDigits_le r
      simp only [List.length_cons]
      omega
    · simp at h
  · cases h; simp

theorem length_skipSign_le (s : List Char) : (skipSign s).length ≤ s.length := by
  unfold skipSign
  split <;> simp

theorem length_le_of_exponentPart {s : List Char} {p : Bool × List Char}
    (h : exponentPart s = some p) : p.2.length ≤ s.length := by
  unfold exponentPart at h
  split at h
  · rename_i c r
    split at h
    · split at h
      · cases h
        have := length_skipDigits_le (skipSign r)
        have := length_skipSign_le r
        simp only [List.length_cons]
        omega
      · simp at h
    · cases h; simp
  · cases h; simp

theorem length_lt_of_number {negative : Bool} {s : List Char} {p : Token × List Char}
    (h : number negative s = some p) : p.2.length < s.length := by
  unfold number at h
  split at h
  · simp at h
  · rename_i h₁
    split at h
    · simp at h
    · rename_i h₂
      split at h
      · simp at h
      · rename_i h₃
        cases h
        have := length_lt_of_integerPart h₁
        have := length_le_of_fractionPart h₂
        have := length_le_of_exponentPart h₃
        simp only at *
        omega

theorem length_lt_of_word? {s : List Char} {p : Token × List Char} (h : word? s = some p) :
    p.2.length < s.length := by
  unfold word? at h
  split at h <;> cases h <;> simp only [List.length_cons] <;> omega

theorem length_lt_of_next? {s : List Char} {p : Token × List Char} (h : next? s = some p) :
    p.2.length < s.length := by
  unfold next? at h
  split at h
  · simp at h
  · rename_i c r
    split at h
    · cases h; simp
    · split at h
      · obtain ⟨q, hq, rfl⟩ := Option.map_eq_some_iff.1 h
        have := length_lt_of_stringBody hq
        simp only [List.length_cons]
        omega
      · split at h
        · have := length_lt_of_number h
          simp only [List.length_cons]
          omega
        · split at h
          · exact length_lt_of_number h
          · exact length_lt_of_word? h

/-- The tokens of a text. -/
def tokens (s : List Char) : List Token :=
  match s with
  | [] => []
  | c :: r =>
    if isSpace c then tokens r
    else match _h : next? (c :: r) with
      | none => [.broken]
      | some (t, rest) => t :: tokens rest
termination_by s.length
decreasing_by
  · simp
  · exact length_lt_of_next? _h

/-! ## Laws -/

@[simp] theorem tokens_nil : tokens [] = [] := by rw [tokens]

theorem tokens_of_isSpace {c : Char} (h : isSpace c = true) (r : List Char) :
    tokens (c :: r) = tokens r := by
  rw [tokens, if_pos h]

theorem tokens_of_next? {c : Char} {r rest : List Char} {t : Token} (hc : isSpace c = false)
    (h : next? (c :: r) = some (t, rest)) : tokens (c :: r) = t :: tokens rest := by
  rw [tokens, if_neg (by simp [hc])]
  split
  · rename_i h'
    simp [h] at h'
  · rename_i h'
    rw [h] at h'
    cases h'
    rfl

end VerseSearch.Json
