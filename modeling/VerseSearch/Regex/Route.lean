import VerseSearch.Regex.PlaceSet
import VerseSearch.Regex.Ways

/-!
# Finding the first way to match

The ways to match can be very many, so the first way of a regular expression is not looked for by
trying them. Working from the end of the expression to its beginning, `Regex.route` computes from
which places of a text its parts can lead to the goal. After that no step has to be taken back: each
part goes the first way that ends where the next part can go on.
-/

set_option autoImplicit false

namespace VerseSearch

/-- The places of a text right before a member of the set. -/
def memberPlaces (set : CharSet) (s : List Char) : PlaceSet :=
  PlaceSet.filter (fun p => (p.advance? set).isSome) s

/-- The places right before the members of some sets, computed once for a text. -/
structure MemberIndex (s : List Char) where
  entries : List (CharSet × PlaceSet)
  sound : ∀ e ∈ entries, e.2 = memberPlaces e.1 s

namespace MemberIndex

/-- The index of the given sets. -/
def ofSets (sets : List CharSet) (s : List Char) : MemberIndex s where
  entries := sets.map fun set => (set, memberPlaces set s)
  sound := by
    intro e he
    obtain ⟨set, _, rfl⟩ := List.mem_map.1 he
    rfl

/-- The places right before a member of the set. -/
def places {s : List Char} (index : MemberIndex s) (set : CharSet) : PlaceSet :=
  match index.entries.find? (·.1 = set) with
  | some e => e.2
  | none => memberPlaces set s

theorem places_eq {s : List Char} (index : MemberIndex s) (set : CharSet) :
    index.places set = memberPlaces set s := by
  rw [places]
  split
  · rename_i e h
    have he : e.1 = set := by simpa using List.find?_some h
    rw [← he]
    exact index.sound e (List.mem_of_find?_eq_some h)
  · rfl

theorem contains_places {s : List Char} (index : MemberIndex s) (set : CharSet) {p : Place}
    (hp : p.rest <:+ s) : (index.places set).contains p.left = (p.advance? set).isSome := by
  rw [places_eq, memberPlaces, p.left_eq, PlaceSet.contains_filter _ hp,
    show Place.start p.rest = p.fresh from Place.ext_rest rfl rfl, Place.advance?_fresh,
    Option.isSome_map]

end MemberIndex

/-- How to reach a goal, which is a set of places, by matching an expression. -/
structure Route where
  /-- The places from which the goal can be reached. -/
  starts : PlaceSet
  /-- Where the first way from a place that ends in the goal ends. -/
  first : Place → Option Place

namespace Route

/-- The place, if it belongs to the goal. -/
def stop (goal : PlaceSet) (p : Place) : Option Place :=
  if goal.contains p.left then some p else none

/-- The end of the first way from a place, if there is one at all. -/
def find? (route : Route) (p : Place) : Option Place :=
  if route.starts.contains p.left then route.first p else none

/-- Applies a function again and again until nothing changes, but at most `n` times. -/
def settle (f : PlaceSet → PlaceSet) : Nat → PlaceSet → PlaceSet
  | 0, A => A
  | n + 1, A =>
    let B := f A
    if B = A then A else settle f n B

/-- Goes on while that leads to the goal, as long as possible if greedy, else only until the goal is
reached. -/
def repeatFirst (onward : Place → Option Place) (goal : PlaceSet) (greedy : Bool) :
    Nat → Place → Option Place
  | 0, p => stop goal p
  | n + 1, p =>
    if !greedy && goal.contains p.left then some p
    else
      match onward p with
      | some q => repeatFirst onward goal greedy n q
      | none => stop goal p

end Route

namespace Regex

/-- Some places from which repetitions of an expression lead to the goal. -/
def seed {s : List Char} (index : MemberIndex s) (goal : PlaceSet) : Regex → PlaceSet
  | .one set => PlaceSet.spread (s.length.log2 + 1) 1 (index.places set) goal
  | _ => goal

/-- How to reach a goal in a text by matching a regular expression. -/
def route {s : List Char} (index : MemberIndex s) : Regex → PlaceSet → Route
  | .empty, goal => ⟨goal, Route.stop goal⟩
  | .one set, goal =>
    ⟨(index.places set).inter (goal.before 1), fun p => (p.advance? set).bind (Route.stop goal)⟩
  | .seq r t, goal =>
    let second := route index t goal
    let first := route index r second.starts
    ⟨first.starts, fun p => (first.first p).bind second.first⟩
  | .alt r t, goal =>
    let left := route index r goal
    let right := route index t goal
    ⟨left.starts.union right.starts, fun p => (left.first p).orElse fun _ => right.first p⟩
  | .star greedy r, goal =>
    let reach := Route.settle (fun A => goal.union (route index r A).starts) (s.length + 1)
      (seed index goal r)
    let body := route index r reach
    let onward (p : Place) : Option Place :=
      match body.first p with
      | none => none
      | some q => if q.left < p.left then some q else (route index r (reach.below p.left)).first p
    ⟨reach, fun p => Route.repeatFirst onward goal greedy p.left p⟩
  | .group n r, goal =>
    let body := route index r goal
    ⟨body.starts, fun p => (body.first p).map (p.captured n)⟩
  | .look _ _, _ | .atomic _, _ | .back _, _ => ⟨.empty, fun _ => none⟩

/-- How to match a regular expression anywhere in a text. -/
def search (r : Regex) (s : List Char) : Route :=
  route (MemberIndex.ofSets (r.addSets []) s) r (.upTo s.length)

end Regex

end VerseSearch
