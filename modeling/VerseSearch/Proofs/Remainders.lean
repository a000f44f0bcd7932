import VerseSearch.Regex.Ways

/-!
# What matches leave of a text

Where a match can end depends on the text behind the place where it begins and on nothing else.
`Regex.rests` lists what the ways to match leave of a text, in order of preference, and obeys one
law for each form of expression.
-/

set_option autoImplicit false

namespace VerseSearch

namespace Place

@[simp] theorem rest_start (s : List Char) : (start s).rest = s := rfl

end Place

namespace Regex

/-- What the ways to match the beginning of a text leave of it, the preferred ways first. -/
def rests (r : Regex) (s : List Char) : List (List Char) := (r.ways (.start s)).map Place.rest

variable {r t : Regex} {s : List Char}

/-- What a match leaves does not depend on the groups. -/
theorem map_rest_ways (r : Regex) (p : Place) : (r.ways p).map Place.rest = r.rests p.rest := by
  have hfresh : p.fresh = (Place.start p.rest).fresh := Place.ext_rest rfl rfl
  have h := congrArg (List.map Place.rest) (map_fresh_ways r hfresh)
  rw [List.map_map, List.map_map] at h
  exact h

/-- What the preferred match leaves. -/
theorem map_rest_matchAt? (r : Regex) (p : Place) :
    (r.matchAt? p).map Place.rest = (r.rests p.rest).head? := by
  rw [matchAt?, ← List.head?_map, map_rest_ways]

/-- No match begins where nothing is left in any way. -/
theorem matchAt?_eq_none {p : Place} (h : r.rests p.rest = []) : r.matchAt? p = none := by
  have hmatch := map_rest_matchAt? r p
  rw [h] at hmatch
  exact Option.map_eq_none_iff.1 hmatch

/-- An expression that matches in one way only leaves one place. -/
theorem exists_ways_eq_singleton {p : Place} {u : List Char} (h : r.rests p.rest = [u]) :
    ∃ q, r.ways p = [q] ∧ q.rest = u := by
  rw [← map_rest_ways, List.map_eq_singleton_iff] at h
  exact h

private theorem map_rest_flatMap (ps : List Place) (t : Regex) :
    (ps.flatMap t.ways).map Place.rest = (ps.map Place.rest).flatMap t.rests := by
  rw [List.map_flatMap, List.flatMap_map]
  exact congrArg (fun f => ps.flatMap f) (funext (map_rest_ways t))

/-! ## The forms of expressions -/

@[simp] theorem rests_empty : rests .empty s = [s] := rfl

@[simp] theorem rests_one_nil (set : CharSet) : rests (.one set) [] = [] := rfl

@[simp] theorem rests_one_cons (set : CharSet) (c : Char) :
    rests (.one set) (c :: s) = if set.contains c then [s] else [] := by
  have hnext : (Place.start (c :: s)).next? = some (c, ⟨s, [], s.length, rfl⟩) :=
    Place.next?_eq_some.2 ⟨rfl, rfl⟩
  rw [rests, ways, Place.advance?, hnext]
  by_cases hc : set.contains c = true <;> simp [hc]

theorem rests_seq : (seq r t).rests s = (r.rests s).flatMap t.rests :=
  map_rest_flatMap (r.ways (.start s)) t

@[simp] theorem rests_alt : (alt r t).rests s = r.rests s ++ t.rests s := List.map_append

@[simp] theorem rests_group (n : Nat) : (group n r).rests s = r.rests s := by
  rw [rests, ways, List.map_map]
  rfl

theorem rests_look (positive : Bool) :
    (look positive r).rests s = if (r.rests s).isEmpty = positive then [] else [s] := by
  cases positive <;> cases h : r.ways (.start s) <;> simp [rests, ways, h]

theorem rests_atomic : (atomic r).rests s = (r.rests s).head?.toList := by
  rw [rests, ways, ← Option.toList_map, ← List.head?_map]
  rfl

/-- Each repetition has to make the text shorter. -/
theorem rests_star (greedy : Bool) :
    (star greedy r).rests s =
      let more := (r.rests s).flatMap fun u =>
        if u.length < s.length then (star greedy r).rests u else []
      if greedy then more ++ [s] else s :: more := by
  have hmore : ((r.ways (.start s)).flatMap fun q =>
        if q.left < s.length then (star greedy r).ways q else []).map Place.rest =
      (r.rests s).flatMap fun u => if u.length < s.length then (star greedy r).rests u else [] := by
    rw [List.map_flatMap, rests, List.flatMap_map]
    congr 1
    funext q
    rw [q.left_eq]
    split
    · exact map_rest_ways _ q
    · rfl
  rw [rests, ways_star, ← hmore]
  cases greedy with
  | true => exact List.map_append
  | false => rfl

/-! ## Sequences -/

/-- The ways of a sequence are those of its first item, each followed by those of the others. -/
theorem ways_concat_cons (r : Regex) (rs : List Regex) (p : Place) :
    (concat (r :: rs)).ways p = (r.ways p).flatMap (concat rs).ways := by
  cases rs with
  | nil => exact (List.flatMap_singleton' _).symm
  | cons t rs => rfl

theorem rests_concat_cons (r : Regex) (rs : List Regex) :
    (concat (r :: rs)).rests s = (r.rests s).flatMap (concat rs).rests := by
  rw [rests, ways_concat_cons, map_rest_flatMap]
  rfl

theorem ways_concat_append (rs ts : List Regex) (p : Place) :
    (concat (rs ++ ts)).ways p = ((concat rs).ways p).flatMap (concat ts).ways := by
  induction rs generalizing p with
  | nil => simp [concat, ways]
  | cons r rs ih =>
    rw [List.cons_append, ways_concat_cons, ways_concat_cons, List.flatMap_assoc]
    exact congrArg (fun f => (r.ways p).flatMap f) (funext ih)

theorem rests_concat_append (rs ts : List Regex) :
    (concat (rs ++ ts)).rests s = ((concat rs).rests s).flatMap (concat ts).rests := by
  rw [rests, ways_concat_append, map_rest_flatMap]
  rfl

end Regex

end VerseSearch
