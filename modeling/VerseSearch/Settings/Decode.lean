import VerseSearch.Json.Value
import VerseSearch.Numeral
import VerseSearch.Settings.Environment

/-!
# Settings from JSON

Settings are an object whose members override the defaults, other members being ignored, or an array
of the values in the order `data_dir`, `per_page`, `cache_capacity`, `bind_addr`, `mark_open`,
`mark_close`, `nonconsonant`, which may stop early. A text that is anything else is refused as a
whole.
-/

set_option autoImplicit false

namespace VerseSearch.Settings

open Json (Value)

/-- The settings that a text names; the others keep their defaults. -/
structure Overrides where
  dataDirectory : Option String := none
  perPage : Option Nat := none
  cacheCapacity : Option Nat := none
  bindAddress : Option String := none
  markOpening : Option String := none
  markClosing : Option String := none
  wildcard : Option String := none
deriving DecidableEq, Repr

namespace Overrides

/-- A string. -/
def string? : Value → Option String
  | .text (some s) => some (String.ofList s)
  | _ => none

/-- A 64-bit count. -/
def count? : Value → Option Nat
  | .number (some n) => if n < Text.countBound then some n else none
  | _ => none

/-- The names of the settings, in their order. -/
def keys : List String :=
  ["data_dir", "per_page", "cache_capacity", "bind_addr", "mark_open", "mark_close",
    "nonconsonant"]

/-- A setting, told by its place in the order, takes a value. None may be named twice. -/
def set? (o : Overrides) (place : Nat) (v : Value) : Option Overrides :=
  match place with
  | 0 => if o.dataDirectory.isSome then none
    else (string? v).map fun s => { o with dataDirectory := some s }
  | 1 => if o.perPage.isSome then none
    else (count? v).map fun n => { o with perPage := some n }
  | 2 => if o.cacheCapacity.isSome then none
    else (count? v).map fun n => { o with cacheCapacity := some n }
  | 3 => if o.bindAddress.isSome then none
    else (string? v).map fun s => { o with bindAddress := some s }
  | 4 => if o.markOpening.isSome then none
    else (string? v).map fun s => { o with markOpening := some s }
  | 5 => if o.markClosing.isSome then none
    else (string? v).map fun s => { o with markClosing := some s }
  | 6 => if o.wildcard.isSome then none
    else (string? v).map fun s => { o with wildcard := some s }
  | _ => none

/-- The settings of an object. A member that is no setting only has to be whole. -/
def addMembers? (o : Overrides) : List (Option (List Char) × Value) → Option Overrides
  | [] => some o
  | (none, _) :: _ => none
  | (some key, v) :: ms =>
    match keys.findIdx? (·.toList = key) with
    | some place => (o.set? place v).bind fun o' => o'.addMembers? ms
    | none => if v.isWhole then o.addMembers? ms else none

/-- The settings of an array, from a place in the order on. -/
def addItems? (o : Overrides) (place : Nat) : List Value → Option Overrides
  | [] => some o
  | v :: vs => (o.set? place v).bind fun o' => o'.addItems? (place + 1) vs

/-- The settings that a JSON text names. -/
def ofJson? (s : String) : Option Overrides :=
  match Json.parse s.toList with
  | (.object members, true) => ({} : Overrides).addMembers? members
  | (.array items, true) => ({} : Overrides).addItems? 0 items
  | _ => none

/-- The settings together with the usual ones for all that is not named. -/
def settings (o : Overrides) (defaultDirectory : String) : Settings :=
  let usual := Settings.usual defaultDirectory
  { dataDirectory := o.dataDirectory.getD usual.dataDirectory
    perPage := o.perPage.getD usual.perPage
    cacheCapacity := o.cacheCapacity.getD usual.cacheCapacity
    bindAddress := o.bindAddress.getD usual.bindAddress
    markers :=
      ⟨o.markOpening.getD usual.markers.opening, o.markClosing.getD usual.markers.closing⟩
    wildcard := o.wildcard.getD usual.wildcard }

end Overrides

end VerseSearch.Settings
