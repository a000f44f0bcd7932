import VerseSearch.Regex.Place
import VerseSearch.Regex.Syntax

/-!
# The ways to match

`Regex.ways` lists every way in which an expression can match from a place on, the preferred ways
first: of two alternatives the left one, of a greedy repetition the longer one, of a lazy one the
shorter one. `Regex.matchAt?` is the first of them. The list is what a match means; how the first
way is found is the matter of `Regex.route` and `Regex.explore`.

The list is for expressions that do not refer to groups: a reference is given no way, since what it
matches is not known from the place alone.
-/

set_option autoImplicit false

namespace VerseSearch

namespace Regex

/-- The ways to repeat a step at most `n` times. Each repetition has to make the text shorter. -/
def repeatWays (step : Place → List Place) (greedy : Bool) : Nat → Place → List Place
  | 0, p => [p]
  | n + 1, p =>
    let more := (step p).flatMap fun q =>
      if q.left < p.left then repeatWays step greedy n q else []
    if greedy then more ++ [p] else p :: more

/-- The places where a match that begins at the place can end, in order of preference. -/
def ways : Regex → Place → List Place
  | .empty, p => [p]
  | .one set, p => (p.advance? set).toList
  | .seq r s, p => (ways r p).flatMap (ways s)
  | .alt r s, p => ways r p ++ ways s p
  | .star greedy r, p => repeatWays (ways r) greedy p.left p
  | .group n r, p => (ways r p).map (p.captured n)
  | .look true r, p => (ways r p).head?.toList.map fun q => { p with groups := q.groups }
  | .look false r, p => if (ways r p).isEmpty then [p] else []
  | .atomic r, p => (ways r p).head?.toList
  | .back _, _ => []

/-- Where the preferred match that begins at the place ends, if there is one. -/
def matchAt? (r : Regex) (p : Place) : Option Place := (r.ways p).head?

/-! ## Laws -/

/-- Longer repetitions than the text has characters do not exist. -/
private theorem repeatWays_fuel (step : Place → List Place) (greedy : Bool) {n m : Nat} {p : Place}
    (hn : p.left ≤ n) (hm : p.left ≤ m) :
    repeatWays step greedy n p = repeatWays step greedy m p := by
  have hzero : ∀ k : Nat, ∀ p : Place, p.left = 0 → repeatWays step greedy k p = [p] := by
    intro k p hp
    cases k with
    | zero => rfl
    | succ k => cases greedy <;> simp [repeatWays, hp]
  induction n generalizing m p with
  | zero =>
    have hp : p.left = 0 := Nat.le_zero.1 hn
    rw [hzero 0 p hp, hzero m p hp]
  | succ n ih =>
    cases m with
    | zero =>
      have hp : p.left = 0 := Nat.le_zero.1 hm
      rw [hzero 0 p hp, hzero (n + 1) p hp]
    | succ m =>
      have h : (fun q : Place => if q.left < p.left then repeatWays step greedy n q else []) =
          fun q => if q.left < p.left then repeatWays step greedy m q else [] := by
        funext q
        by_cases hq : q.left < p.left
        · rw [if_pos hq, if_pos hq]
          exact ih (by omega) (by omega)
        · rw [if_neg hq, if_neg hq]
      simp only [repeatWays, h]

/-- A repetition is one more time and the repetition again, or nothing. -/
theorem ways_star (greedy : Bool) (r : Regex) (p : Place) :
    (star greedy r).ways p =
      let more := (r.ways p).flatMap fun q =>
        if q.left < p.left then (star greedy r).ways q else []
      if greedy then more ++ [p] else p :: more := by
  have h : ∀ n, p.left ≤ n → (star greedy r).ways p = repeatWays (ways r) greedy n p :=
    fun n hn => repeatWays_fuel _ _ (Nat.le_refl _) hn
  rw [h (p.left + 1) (Nat.le_succ _)]
  have hq : (fun q : Place => if q.left < p.left then repeatWays (ways r) greedy p.left q else []) =
      fun q => if q.left < p.left then (star greedy r).ways q else [] := by
    funext q
    by_cases hq : q.left < p.left
    · rw [if_pos hq, if_pos hq]
      exact repeatWays_fuel _ _ (by omega) (Nat.le_refl _)
    · rw [if_neg hq, if_neg hq]
  simp only [repeatWays, hq]

theorem mem_ways_star {greedy : Bool} {r : Regex} {p q : Place} :
    q ∈ (star greedy r).ways p ↔
      q = p ∨ ∃ m ∈ r.ways p, m.left < p.left ∧ q ∈ (star greedy r).ways m := by
  rw [ways_star]
  cases greedy
  · simp only [Bool.false_eq_true, if_false, List.mem_cons, List.mem_flatMap,
      List.mem_ite_nil_right]
  · simp only [if_true, List.mem_append, List.mem_flatMap, List.mem_ite_nil_right,
      List.mem_singleton]
    exact or_comm

private theorem rest_suffix_of_mem_star {greedy : Bool} {r : Regex}
    (h : ∀ {p q : Place}, q ∈ r.ways p → q.rest <:+ p.rest) (n : Nat) {p q : Place}
    (hn : p.left ≤ n) (hq : q ∈ (star greedy r).ways p) : q.rest <:+ p.rest := by
  induction n generalizing p with
  | zero =>
    rcases mem_ways_star.1 hq with rfl | ⟨m, _, hm, _⟩
    · exact List.suffix_refl _
    · omega
  | succ n ih =>
    rcases mem_ways_star.1 hq with rfl | ⟨m, hm, hlt, hq⟩
    · exact List.suffix_refl _
    · exact (ih (by omega) hq).trans (h hm)

/-- A match covers a beginning of the text: what it leaves is an end of it. -/
theorem rest_suffix_of_mem_ways {r : Regex} {p q : Place} (h : q ∈ r.ways p) :
    q.rest <:+ p.rest := by
  induction r generalizing p q with
  | empty =>
    rw [ways, List.mem_singleton] at h
    exact h ▸ List.suffix_refl _
  | one set =>
    rw [ways, Option.mem_toList] at h
    exact Place.rest_suffix_of_advance? h
  | seq r s ihr ihs =>
    obtain ⟨m, hm, hq⟩ := List.mem_flatMap.1 h
    exact (ihs hq).trans (ihr hm)
  | alt r s ihr ihs => exact (List.mem_append.1 h).elim ihr ihs
  | star greedy r ih => exact rest_suffix_of_mem_star ih p.left (Nat.le_refl _) h
  | group n r ih =>
    obtain ⟨m, hm, rfl⟩ := List.mem_map.1 h
    exact ih (q := m) hm
  | look positive r ih =>
    cases positive with
    | true =>
      obtain ⟨m, _, rfl⟩ := List.mem_map.1 h
      exact List.suffix_refl _
    | false =>
      rw [ways] at h
      split at h
      · rw [List.mem_singleton] at h
        exact h ▸ List.suffix_refl _
      · cases h
  | atomic r ih => exact ih (List.mem_of_mem_head? (Option.mem_toList.1 h))
  | back n => cases h

/-- A match does not end before it begins. -/
theorem left_le_of_mem_ways {r : Regex} {p q : Place} (h : q ∈ r.ways p) : q.left ≤ p.left :=
  Place.left_le_of_suffix (rest_suffix_of_mem_ways h)

/-- What the preferred match leaves is an end of the text. -/
theorem rest_suffix_of_matchAt? {r : Regex} {p q : Place} (h : r.matchAt? p = some q) :
    q.rest <:+ p.rest :=
  rest_suffix_of_mem_ways (List.mem_of_mem_head? h)

/-! ### What the groups have covered makes no difference -/

private theorem flatMap_eq_of_map_eq {α β γ : Type} {key : α → β} {f : α → List γ}
    (hf : ∀ a b, key a = key b → f a = f b) {l m : List α} (h : l.map key = m.map key) :
    l.flatMap f = m.flatMap f := by
  induction l generalizing m with
  | nil => rw [List.map_eq_nil_iff.1 h.symm]
  | cons a l ih =>
    cases m with
    | nil => cases h
    | cons b m =>
      rw [List.map_cons, List.map_cons, List.cons.injEq] at h
      rw [List.flatMap_cons, List.flatMap_cons, hf a b h.1, ih h.2]

private theorem map_fresh_star (greedy : Bool) {r : Regex}
    (ih : ∀ p q : Place, p.fresh = q.fresh →
      (r.ways p).map Place.fresh = (r.ways q).map Place.fresh)
    (n : Nat) {p q : Place} (hn : p.left ≤ n) (h : p.fresh = q.fresh) :
    ((star greedy r).ways p).map Place.fresh = ((star greedy r).ways q).map Place.fresh := by
  induction n using Nat.strongRecOn generalizing p q with
  | _ n hrec =>
    have hleft : p.left = q.left := show p.fresh.left = q.fresh.left by rw [h]
    have hmore : ((r.ways p).flatMap fun m =>
          if m.left < p.left then ((star greedy r).ways m).map Place.fresh else []) =
        (r.ways q).flatMap fun m =>
          if m.left < q.left then ((star greedy r).ways m).map Place.fresh else [] := by
      rw [← hleft]
      refine flatMap_eq_of_map_eq (fun a b hab => ?_) (ih p q h)
      have hlab : a.left = b.left := show a.fresh.left = b.fresh.left by rw [hab]
      rw [← hlab]
      by_cases ha : a.left < p.left
      · rw [if_pos ha, if_pos ha]
        exact hrec a.left (by omega) (Nat.le_refl _) hab
      · rw [if_neg ha, if_neg ha]
    have hmap : ∀ p : Place, ((r.ways p).flatMap fun m =>
          if m.left < p.left then (star greedy r).ways m else []).map Place.fresh =
        (r.ways p).flatMap fun m =>
          if m.left < p.left then ((star greedy r).ways m).map Place.fresh else [] := by
      intro p
      rw [List.map_flatMap]
      congr 1
      funext m
      split <;> rfl
    rw [ways_star, ways_star]
    cases greedy <;> simp only [Bool.false_eq_true, if_false, if_true, List.map_cons,
      List.map_append, List.map_nil, hmap, hmore, h]

/-- Places that differ in their groups only are left in the same ways, groups apart. -/
theorem map_fresh_ways (r : Regex) {p q : Place} (h : p.fresh = q.fresh) :
    (r.ways p).map Place.fresh = (r.ways q).map Place.fresh := by
  induction r generalizing p q with
  | empty => exact congrArg (fun p => [p]) h
  | one set =>
    rw [ways, ways, ← Option.toList_map, ← Option.toList_map, ← Place.advance?_fresh,
      ← Place.advance?_fresh, h]
  | seq r s ihr ihs =>
    rw [ways, ways, List.map_flatMap, List.map_flatMap]
    exact flatMap_eq_of_map_eq (fun _ _ => ihs) (ihr h)
  | alt r s ihr ihs => rw [ways, ways, List.map_append, List.map_append, ihr h, ihs h]
  | star greedy r ih => exact map_fresh_star greedy (fun _ _ => ih) p.left (Nat.le_refl _) h
  | group n r ih =>
    rw [ways, ways, List.map_map, List.map_map]
    exact ih h
  | look positive r ih =>
    have hempty : (r.ways p).isEmpty = (r.ways q).isEmpty := by
      rw [← List.isEmpty_map (f := Place.fresh), ih h, List.isEmpty_map]
    cases positive with
    | true =>
      rw [ways, ways, List.map_map, List.map_map]
      cases hp : r.ways p <;> cases hq : r.ways q <;> rw [hp, hq] at hempty
      · rfl
      · cases hempty
      · cases hempty
      · exact congrArg (fun p => [p]) h
    | false =>
      rw [ways, ways, hempty]
      split
      · exact congrArg (fun p => [p]) h
      · rfl
  | atomic r ih =>
    rw [ways, ways, ← Option.toList_map, ← Option.toList_map, ← List.head?_map, ← List.head?_map,
      ih h]
  | back n => rfl

end Regex

end VerseSearch
