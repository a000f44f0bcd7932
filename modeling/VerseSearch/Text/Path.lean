import VerseSearch.Text.Split

/-!
# File paths

Paths are texts with slashes. Nothing is looked up: joining two paths is a matter of their texts,
and so is walking along one, where `.` stays and `..` goes back.
-/

set_option autoImplicit false

namespace VerseSearch.Path

/-- The path begins at the root. -/
def isAbsolute (p : String) : Bool := p.toList.head? == some '/'

/-- The second path seen from the first. An absolute path is the same from everywhere. -/
def join (base p : String) : String :=
  if isAbsolute p || base.isEmpty then p
  else if base.toList.getLast? == some '/' then base ++ p
  else base ++ "/" ++ p

/-- A place that a walk reaches: the names that lead there from where it began, the last one first.
Going back from the beginning is kept as a name. -/
abbrev Location := List (List Char)

/-- One more step of a walk. -/
def Location.step (here : Location) (name : List Char) : Location :=
  match name with
  | [] => here
  | ['.'] => here
  | ['.', '.'] =>
    match here with
    | [] => [name]
    | ['.', '.'] :: _ => name :: here
    | _ :: before => before
  | _ => name :: here

/-- The places that steps lead to, one after the other. -/
def Location.walk (here : Location) : List (List Char) → List Location
  | [] => []
  | name :: names => here.step name :: (here.step name).walk names

/-- The places that walking along a path leads to. -/
def trail (p : String) : List Location := Location.walk [] (Text.splitAt '/' p.toList)

/-- Where a path leads. -/
def target (p : String) : Location := (Text.splitAt '/' p.toList).foldl Location.step []

/-- Walking along a path comes by the place where another path leads. -/
def passes (p place : String) : Bool := (trail p).contains (target place)

/-! ## Laws -/

theorem Location.getLast?_walk (here : Location) (names : List (List Char)) (h : names ≠ []) :
    (here.walk names).getLast? = some (names.foldl Location.step here) := by
  induction names generalizing here with
  | nil => exact absurd rfl h
  | cons name names ih =>
    cases names with
    | nil => rfl
    | cons next names =>
      rw [walk, List.foldl_cons, ← ih (here.step name) (by simp)]
      simp [walk]

/-- The last place of a walk is where the path leads. -/
theorem getLast?_trail (p : String) : (trail p).getLast? = some (target p) :=
  Location.getLast?_walk [] _ (Text.splitAt_ne_nil '/' p.toList)

/-- Every path passes its own target. -/
theorem passes_self (p : String) : passes p p = true :=
  List.contains_iff_mem.2 (List.mem_of_getLast? (getLast?_trail p))

end VerseSearch.Path
