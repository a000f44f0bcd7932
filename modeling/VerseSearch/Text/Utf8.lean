/-!
# Reading bytes as UTF-8

Bytes that are no UTF-8 do not stop the reading: each longest beginning of a character that is not
completed, and each byte that begins none, is read as U+FFFD.
-/

set_option autoImplicit false

namespace VerseSearch.Text

/-- What is read of the current character. -/
inductive Utf8State where
  /-- Between two characters. -/
  | start
  /-- Further bytes are missing; the next one has to lie in a range. -/
  | inside (missing : Nat) (low high : UInt8) (value : Nat)
deriving DecidableEq, Repr

/-- What stands for bytes that are no character. -/
def replacementChar : Char := '\uFFFD'

namespace Utf8State

/-- A byte between two characters: a character of one byte, or the first byte of several. -/
def first (b : UInt8) : List Char × Utf8State :=
  let n := b.toNat
  if n < 0x80 then ([Char.ofNat n], .start)
  else if 0xC2 ≤ n ∧ n ≤ 0xDF then ([], .inside 1 0x80 0xBF (n - 0xC0))
  else if n = 0xE0 then ([], .inside 2 0xA0 0xBF 0)
  else if n = 0xED then ([], .inside 2 0x80 0x9F 0xD)
  else if 0xE1 ≤ n ∧ n ≤ 0xEF then ([], .inside 2 0x80 0xBF (n - 0xE0))
  else if n = 0xF0 then ([], .inside 3 0x90 0xBF 0)
  else if 0xF1 ≤ n ∧ n ≤ 0xF3 then ([], .inside 3 0x80 0xBF (n - 0xF0))
  else if n = 0xF4 then ([], .inside 3 0x80 0x8F 4)
  else ([replacementChar], .start)

/-- One more byte: the characters it completes, and the state after it. -/
def step (b : UInt8) : Utf8State → List Char × Utf8State
  | .start => first b
  | .inside missing low high value =>
    if low ≤ b ∧ b ≤ high then
      let value := value * 64 + (b.toNat - 0x80)
      if missing ≤ 1 then ([Char.ofNat value], .start)
      else ([], .inside (missing - 1) 0x80 0xBF value)
    else
      let again := first b
      (replacementChar :: again.1, again.2)

/-- All bytes, and the end of the text. -/
def decode : Utf8State → List UInt8 → List Char
  | .start, [] => []
  | .inside _ _ _ _, [] => [replacementChar]
  | s, b :: bs => (s.step b).1 ++ decode (s.step b).2 bs

end Utf8State

/-- The text that bytes stand for. -/
def ofUtf8 (bytes : List UInt8) : List Char := Utf8State.decode .start bytes

end VerseSearch.Text
