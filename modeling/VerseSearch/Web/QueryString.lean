import VerseSearch.Text.Split
import VerseSearch.Text.Utf8

/-!
# Query strings

A query string is a list of names and values, in the encoding of HTML forms: pairs are separated by
`&`, a name and its value by the first `=`, a plus sign is a space, and `%` with two hexadecimal
digits is a byte. A `%` without them stands for itself.
-/

set_option autoImplicit false

namespace VerseSearch.Web

/-- The value of a hexadecimal digit. -/
def hexDigit? (b : UInt8) : Option UInt8 :=
  if 48 ≤ b ∧ b ≤ 57 then some (b - 48)
  else if 65 ≤ b ∧ b ≤ 70 then some (b - 55)
  else if 97 ≤ b ∧ b ≤ 102 then some (b - 87)
  else none

/-- The bytes with every escape replaced by the byte it stands for. -/
def unescape : List UInt8 → List UInt8
  | [] => []
  | [a] => [a]
  | [a, b] => [a, b]
  | p :: a :: b :: r =>
    if p = 37 then
      match hexDigit? a, hexDigit? b with
      | some high, some low => (high * 16 + low) :: unescape r
      | _, _ => p :: unescape (a :: b :: r)
    else p :: unescape (a :: b :: r)

/-- A name or value in plain text. -/
def decodePart (s : List Char) : List Char :=
  Text.ofUtf8 <| unescape <| s.flatMap fun c => String.utf8EncodeChar (if c = '+' then ' ' else c)

/-- The name and the value of a pair. -/
def decodePair (s : List Char) : List Char × List Char :=
  (decodePart (s.takeWhile (· != '=')), decodePart ((s.dropWhile (· != '=')).drop 1))

/-- All pairs of a query string. An empty part is no pair. -/
def pairs (s : List Char) : List (List Char × List Char) :=
  ((Text.splitAt '&' s).filter fun part => !part.isEmpty).map decodePair

/-- The values of a name. -/
def values (name : String) (pairs : List (List Char × List Char)) : List (List Char) :=
  (pairs.filter fun p => p.1 = name.toList).map Prod.snd

end VerseSearch.Web
