import VerseSearch.Regex.Route

/-!
# A route goes the first way

`follows_route` states that the route of a regular expression finds the first of the ways to match
that end in the goal, and that the places from which there is one are right; `search_find?`, that a
search therefore finds the preferred match from every place of a text.
-/

set_option autoImplicit false

namespace VerseSearch

namespace Route

/-- A route is right for some ways: it finds the first of them that ends in the goal. -/
def Follows (route : Route) (s : List Char) (goal : PlaceSet) (ways : Place → List Place) : Prop :=
  ∀ p : Place, p.rest <:+ s →
    route.first p = (ways p).find? (fun q => goal.contains q.left) ∧
      route.starts.contains p.left = (ways p).any fun q => goal.contains q.left

theorem settle_eq_repeat (f : PlaceSet → PlaceSet) (n : Nat) (A : PlaceSet) :
    settle f n A = Nat.repeat f n A := by
  have hcomm : ∀ (n : Nat) (A : PlaceSet), Nat.repeat f n (f A) = f (Nat.repeat f n A) := by
    intro n A
    induction n with
    | zero => rfl
    | succ n ih => exact congrArg f ih
  have hfix : ∀ (n : Nat) (A : PlaceSet), f A = A → Nat.repeat f n A = A := by
    intro n A h
    induction n with
    | zero => rfl
    | succ n ih => exact (congrArg f ih).trans h
  induction n generalizing A with
  | zero => rfl
  | succ n ih =>
    rw [settle]
    split
    · rename_i h
      exact (hfix (n + 1) A h).symm
    · rw [ih]
      exact hcomm n A

/-- Stopping goes the way that stays where it is, if that is in the goal. -/
theorem stop_eq_find? (goal : PlaceSet) (p : Place) :
    stop goal p = [p].find? fun q => goal.contains q.left := by
  rw [stop, List.find?_cons]
  cases goal.contains p.left <;> rfl

theorem find?_eq_of_follows {route : Route} {s : List Char} {goal : PlaceSet}
    {ways : Place → List Place} (h : route.Follows s goal ways) {p : Place} (hp : p.rest <:+ s) :
    route.find? p = (ways p).find? fun q => goal.contains q.left := by
  obtain ⟨hf, hs⟩ := h p hp
  rw [find?, hs, hf]
  split
  · rfl
  · rename_i hn
    rw [Bool.not_eq_true, List.any_eq_false] at hn
    exact (List.find?_eq_none.2 hn).symm

end Route

namespace Regex

open Route (Follows)

/-- A repetition can lead to the goal from a place if nothing more is needed there, or one more time
leads to a later place from which it can. -/
theorem any_ways_star {greedy : Bool} {r : Regex} {p : Place} {f : Place → Bool} :
    ((star greedy r).ways p).any f = true ↔
      f p = true ∨ ∃ q ∈ r.ways p, q.left < p.left ∧ ((star greedy r).ways q).any f = true := by
  simp only [List.any_eq_true]
  constructor
  · rintro ⟨q, hq, hf⟩
    rcases mem_ways_star.1 hq with rfl | ⟨m, hm, hlt, hq⟩
    · exact .inl hf
    · exact .inr ⟨m, hm, hlt, q, hq, hf⟩
  · rintro (hf | ⟨m, hm, hlt, q, hq, hf⟩)
    · exact ⟨p, mem_ways_star.2 (.inl rfl), hf⟩
    · exact ⟨q, mem_ways_star.2 (.inr ⟨m, hm, hlt, hq⟩), hf⟩

/-- From every place of a seed repetitions lead to the goal. -/
theorem any_ways_of_contains_seed {s : List Char} (index : MemberIndex s) (goal : PlaceSet)
    (greedy : Bool) (r : Regex) {p : Place} (hp : p.rest <:+ s)
    (h : (seed index goal r).contains p.left = true) :
    ((star greedy r).ways p).any (fun q => goal.contains q.left) = true := by
  let P (i : Nat) : Prop := ∀ p : Place, p.rest <:+ s → p.left = i →
    ((star greedy r).ways p).any (fun q => goal.contains q.left) = true
  have hgoal : ∀ i, goal.contains i = true → P i := by
    intro i hi p _ hpi
    exact any_ways_star.2 (.inl (by rwa [hpi]))
  suffices P p.left from this p hp rfl
  cases r with
  | one set =>
    refine PlaceSet.of_contains_spread P hgoal (fun i hi hP p hp hpi => ?_) h
    rw [← hpi, index.contains_places set hp] at hi
    obtain ⟨q, hq⟩ := Option.isSome_iff_exists.1 hi
    have hmem : q ∈ (one set).ways p := Option.mem_toList.2 hq
    obtain ⟨c, hc, _⟩ := Place.advance?_eq_some.1 hq
    have hleft := Place.left_of_next? hc
    exact any_ways_star.2 (.inr ⟨q, hmem, by omega,
      hP q ((rest_suffix_of_mem_ways hmem).trans hp) (by omega)⟩)
  | _ => exact hgoal p.left h

section Settling

variable {s : List Char} {goal : PlaceSet} {r : Regex} {f : PlaceSet → PlaceSet}
  (hstep : ∀ (A : PlaceSet) (p : Place), p.rest <:+ s → ((f A).contains p.left = true ↔
    goal.contains p.left = true ∨ ∃ q ∈ r.ways p, A.contains q.left = true))

include hstep

/-- From every place that is added to a seed repetitions lead to the goal. -/
theorem any_ways_of_contains_repeat (index : MemberIndex s) (greedy : Bool) (n : Nat) {p : Place}
    (hp : p.rest <:+ s) (h : (Nat.repeat f n (seed index goal r)).contains p.left = true) :
    ((star greedy r).ways p).any (fun q => goal.contains q.left) = true := by
  induction n generalizing p with
  | zero => exact any_ways_of_contains_seed index goal greedy r hp h
  | succ n ih =>
    rcases (hstep _ p hp).1 h with h | ⟨q, hq, h⟩
    · exact any_ways_star.2 (.inl h)
    · rcases Nat.lt_or_eq_of_le (left_le_of_mem_ways hq) with hlt | heq
      · exact any_ways_star.2
          (.inr ⟨q, hq, hlt, ih ((rest_suffix_of_mem_ways hq).trans hp) h⟩)
      · exact ih hp (heq ▸ h)

/-- A place from which repetitions lead to the goal is added after as many steps as characters are
left there, at the latest. -/
theorem contains_repeat_of_any_ways (greedy : Bool) (A : PlaceSet) (n : Nat) {p : Place}
    (hp : p.rest <:+ s) (hn : p.left < n)
    (h : ((star greedy r).ways p).any (fun q => goal.contains q.left) = true) :
    (Nat.repeat f n A).contains p.left = true := by
  induction n generalizing p with
  | zero => exact absurd hn (Nat.not_lt_zero _)
  | succ n ih =>
    refine (hstep _ p hp).2 ?_
    rcases any_ways_star.1 h with h | ⟨q, hq, hlt, h⟩
    · exact .inl h
    · exact .inr ⟨q, hq, ih ((rest_suffix_of_mem_ways hq).trans hp) (by omega) h⟩

end Settling

/-- The places that settle are those from which repetitions lead to the goal. -/
theorem contains_settle {s : List Char} (index : MemberIndex s) (goal : PlaceSet) (greedy : Bool)
    {r : Regex} (ih : ∀ A, (route index r A).Follows s A r.ways) {p : Place} (hp : p.rest <:+ s) :
    (Route.settle (fun A => goal.union (route index r A).starts) (s.length + 1)
        (seed index goal r)).contains p.left =
      ((star greedy r).ways p).any fun q => goal.contains q.left := by
  have hstep (A : PlaceSet) (p : Place) (hp : p.rest <:+ s) :
      (goal.union (route index r A).starts).contains p.left = true ↔
        goal.contains p.left = true ∨ ∃ q ∈ r.ways p, A.contains q.left = true := by
    rw [PlaceSet.contains_union, (ih A p hp).2, Bool.or_eq_true, List.any_eq_true]
  have hlt : p.left < s.length + 1 := Nat.lt_succ_of_le (p.left_eq ▸ hp.length_le)
  rw [Route.settle_eq_repeat, Bool.eq_iff_iff]
  exact ⟨any_ways_of_contains_repeat hstep index greedy _ hp,
    contains_repeat_of_any_ways hstep greedy _ _ hp hlt⟩

/-- Looking for the first element that some list made from it satisfies, and then in that list, is
looking through all the lists. -/
theorem find?_flatMap_eq_bind {α β : Type} (l : List α) (f : α → List β) (test : β → Bool) :
    (l.flatMap f).find? test =
      (l.find? fun a => (f a).any test).bind fun a => (f a).find? test := by
  induction l with
  | nil => rfl
  | cons a l ih =>
    rw [List.flatMap_cons, List.find?_append, ih, List.find?_cons]
    cases h : (f a).any test with
    | true =>
      rw [← List.isSome_find?] at h
      obtain ⟨b, hb⟩ := Option.isSome_iff_exists.1 h
      simp [hb]
    | false =>
      have : (f a).find? test = none := by
        rw [List.find?_eq_none]
        simpa [List.any_eq_false] using h
      simp [this]

theorem find?_congr {α : Type} {l : List α} {f g : α → Bool} (h : ∀ a ∈ l, f a = g a) :
    l.find? f = l.find? g := by
  induction l with
  | nil => rfl
  | cons a l ih =>
    rw [List.find?_cons, List.find?_cons, h a List.mem_cons_self,
      ih fun b hb => h b (List.mem_cons_of_mem a hb)]

theorem any_congr {α : Type} {l : List α} {f g : α → Bool} (h : ∀ a ∈ l, f a = g a) :
    l.any f = l.any g := by
  rw [← List.isSome_find?, ← List.isSome_find?, find?_congr h]

/-- The first place of a set is the first one below a bound, if it is below. -/
theorem find?_below (l : List Place) (A : PlaceSet) (n : Nat) :
    (match l.find? fun q => A.contains q.left with
      | none => none
      | some q => if q.left < n then some q else l.find? fun q => (A.below n).contains q.left) =
      l.find? fun q => (A.below n).contains q.left := by
  split
  · rename_i h
    rw [List.find?_eq_none] at h
    refine (List.find?_eq_none.2 fun q hq => ?_).symm
    simp [h q hq]
  · rename_i q h
    split
    · rename_i hlt
      obtain ⟨hq, before, after, rfl, hbefore⟩ := List.find?_eq_some_iff_append.1 h
      refine (List.find?_eq_some_iff_append.2 ⟨by simp_all, before, after, rfl, ?_⟩).symm
      intro a ha
      have := hbefore a ha
      simp_all
    · rfl

section Repetition

variable {s : List Char} {goal reach : PlaceSet} {greedy : Bool} {r : Regex}
  {onward : Place → Option Place}
  (hreach : ∀ p : Place, p.rest <:+ s → reach.contains p.left =
    ((star greedy r).ways p).any fun q => goal.contains q.left)
  (honward : ∀ p : Place, p.rest <:+ s →
    onward p = (r.ways p).find? fun q => (reach.below p.left).contains q.left)

include hreach honward

/-- Of the ways that match once more, the first one to the goal goes on to the place `onward`
chooses, and from there the first way. -/
theorem find?_flatMap_ways_eq_bind {p : Place} (hp : p.rest <:+ s) :
    ((r.ways p).flatMap fun q => if q.left < p.left then (star greedy r).ways q else []).find?
        (fun q => goal.contains q.left) =
      (onward p).bind fun q => ((star greedy r).ways q).find? fun q => goal.contains q.left := by
  have hpred : ∀ q ∈ r.ways p,
      ((if q.left < p.left then (star greedy r).ways q else []).any
          fun q => goal.contains q.left) = (reach.below p.left).contains q.left := by
    intro q hq
    rw [PlaceSet.contains_below]
    by_cases hlt : q.left < p.left
    · rw [if_pos hlt, decide_eq_true hlt, Bool.true_and,
        hreach q ((rest_suffix_of_mem_ways hq).trans hp)]
    · rw [if_neg hlt, decide_eq_false hlt]
      rfl
  rw [honward p hp, find?_flatMap_eq_bind, find?_congr hpred]
  cases hq : (r.ways p).find? fun q => (reach.below p.left).contains q.left with
  | none => rfl
  | some q =>
    have hbelow := List.find?_some hq
    rw [PlaceSet.contains_below, Bool.and_eq_true, decide_eq_true_eq] at hbelow
    simp [hbelow.1]

/-- The place `onward` chooses is behind one more match, and a way leads from it to the goal. -/
theorem exists_find?_of_onward {p q : Place} (hp : p.rest <:+ s) (hq : onward p = some q) :
    q.rest <:+ s ∧ q.left < p.left ∧
      ∃ e, ((star greedy r).ways q).find? (fun q => goal.contains q.left) = some e := by
  rw [honward p hp] at hq
  have hqs := (rest_suffix_of_mem_ways (List.mem_of_find?_eq_some hq)).trans hp
  have hbelow := List.find?_some hq
  rw [PlaceSet.contains_below, Bool.and_eq_true, decide_eq_true_eq, hreach q hqs,
    ← List.isSome_find?] at hbelow
  exact ⟨hqs, hbelow.1, Option.isSome_iff_exists.1 hbelow.2⟩

/-- Going on while that leads to the goal goes the first way of the repetition. -/
theorem repeatFirst_eq (n : Nat) {p : Place} (hp : p.rest <:+ s) (hn : p.left ≤ n) :
    Route.repeatFirst onward goal greedy n p =
      ((star greedy r).ways p).find? fun q => goal.contains q.left := by
  induction n generalizing p with
  | zero =>
    have hways : (star greedy r).ways p = [p] := by
      rw [ways, Nat.le_zero.1 hn]
      rfl
    rw [Route.repeatFirst, hways, Route.stop_eq_find?]
  | succ n ih =>
    have hmore := find?_flatMap_ways_eq_bind hreach honward hp
    rw [Route.repeatFirst, ways_star]
    cases hq : onward p with
    | none =>
      rw [hq, Option.bind_none] at hmore
      cases greedy with
      | true => simp [Route.stop_eq_find?, hmore, List.find?_append]
      | false =>
        simp only [Bool.not_false, Bool.true_and, Bool.false_eq_true, if_false,
          Route.stop_eq_find?, List.find?_cons, hmore]
        cases goal.contains p.left <;> rfl
    | some q =>
      obtain ⟨hqs, hlt, e, he⟩ := exists_find?_of_onward hreach honward hp hq
      have hrest := ih hqs (by omega)
      rw [hq, Option.bind_some, he] at hmore
      rw [he] at hrest
      cases greedy with
      | true => simp [hmore, hrest, List.find?_append]
      | false =>
        simp only [Bool.not_false, Bool.true_and, Bool.false_eq_true, if_false,
          List.find?_cons, hmore, hrest]
        cases goal.contains p.left <;> rfl

end Repetition

/-! ### One lemma for each form of expression -/

variable {s : List Char} {index : MemberIndex s} {r t : Regex} {goal : PlaceSet}

private theorem follows_empty : (route index empty goal).Follows s goal empty.ways := by
  intro p _
  simp only [route, ways, Route.stop, List.find?_cons, List.any_cons, List.any_nil,
    Bool.or_false, and_true]
  cases goal.contains p.left <;> rfl

private theorem follows_one (set : CharSet) :
    (route index (one set) goal).Follows s goal (one set).ways := by
  intro p hp
  simp only [route, ways, PlaceSet.contains_inter, PlaceSet.contains_before,
    index.contains_places set hp]
  cases h : p.advance? set with
  | none => simp
  | some q =>
    obtain ⟨c, hc, _⟩ := Place.advance?_eq_some.1 h
    have hleft := Place.left_of_next? hc
    have e : p.left - 1 = q.left := by omega
    have e' : 1 ≤ p.left := by omega
    simp only [Option.bind_some, Route.stop, Option.toList_some, List.find?_cons, List.find?_nil,
      List.any_cons, List.any_nil, Option.isSome_some, e, e', decide_true, Bool.true_and,
      Bool.or_false, and_true]
    cases goal.contains q.left <;> rfl

private theorem follows_seq (ht : (route index t goal).Follows s goal t.ways)
    (hr : (route index r (route index t goal).starts).Follows s (route index t goal).starts r.ways) :
    (route index (seq r t) goal).Follows s goal (seq r t).ways := by
  intro p hp
  have hfirst := hr p hp
  have hpred : ∀ q ∈ r.ways p, (route index t goal).starts.contains q.left =
      (t.ways q).any fun q => goal.contains q.left :=
    fun q hq => (ht q ((rest_suffix_of_mem_ways hq).trans hp)).2
  constructor
  · show ((route index r _).first p).bind (route index t goal).first = _
    rw [ways, find?_flatMap_eq_bind, hfirst.1, find?_congr hpred]
    cases hq : (r.ways p).find? fun q => (t.ways q).any fun q => goal.contains q.left with
    | none => rfl
    | some q =>
      exact (ht q ((rest_suffix_of_mem_ways (List.mem_of_find?_eq_some hq)).trans hp)).1
  · show (route index r _).starts.contains p.left = _
    rw [ways, List.any_flatMap, hfirst.2, any_congr hpred]

private theorem follows_alt (hr : (route index r goal).Follows s goal r.ways)
    (ht : (route index t goal).Follows s goal t.ways) :
    (route index (alt r t) goal).Follows s goal (alt r t).ways := by
  intro p hp
  obtain ⟨hr, hr'⟩ := hr p hp
  obtain ⟨ht, ht'⟩ := ht p hp
  constructor
  · show ((route index r goal).first p).orElse _ = _
    rw [ways, List.find?_append, hr, ht]
    cases (r.ways p).find? fun q => goal.contains q.left <;> rfl
  · show ((route index r goal).starts.union _).contains p.left = _
    rw [ways, List.any_append, PlaceSet.contains_union, hr', ht']

private theorem follows_star (greedy : Bool) (ih : ∀ A, (route index r A).Follows s A r.ways) :
    (route index (star greedy r) goal).Follows s goal (star greedy r).ways := by
  intro p hp
  have hreach : ∀ p : Place, p.rest <:+ s → _ :=
    fun p hp => contains_settle index goal greedy ih hp
  refine ⟨repeatFirst_eq hreach (fun p hp => ?_) p.left hp (Nat.le_refl _),
    hreach p hp⟩
  simp only [(ih _ p hp).1]
  exact find?_below (r.ways p) _ p.left

private theorem follows_group (n : Nat) (h : (route index r goal).Follows s goal r.ways) :
    (route index (group n r) goal).Follows s goal (group n r).ways := by
  intro p hp
  obtain ⟨h, h'⟩ := h p hp
  constructor
  · show ((route index r goal).first p).map _ = _
    rw [ways, List.find?_map, h]
    rfl
  · show (route index r goal).starts.contains p.left = _
    rw [ways, List.any_map, h']
    rfl

/-- The first way of a regular expression from a place and the places from which there is one are
right. -/
theorem follows_route (index : MemberIndex s) (hr : r.isRegular = true) (goal : PlaceSet) :
    (route index r goal).Follows s goal r.ways := by
  induction r generalizing goal with
  | empty => exact follows_empty
  | one set => exact follows_one set
  | seq r t ihr iht =>
    rw [isRegular, Bool.and_eq_true] at hr
    exact follows_seq (iht hr.2 goal) (ihr hr.1 _)
  | alt r t ihr iht =>
    rw [isRegular, Bool.and_eq_true] at hr
    exact follows_alt (ihr hr.1 goal) (iht hr.2 goal)
  | star greedy r ih => exact follows_star greedy (ih hr)
  | group n r ih => exact follows_group n (ih hr goal)
  | look | atomic | back => cases hr

/-- Searching a text finds the preferred match of a regular expression from each of its places. -/
theorem search_find? (hr : r.isRegular = true) {p : Place} (hp : p.rest <:+ s) :
    (r.search s).find? p = r.matchAt? p := by
  rw [search, Route.find?_eq_of_follows (follows_route _ hr _) hp,
    find?_congr (g := fun _ => true), matchAt?]
  · cases r.ways p <;> rfl
  · intro q hq
    rw [PlaceSet.contains_upTo, decide_eq_true_eq, q.left_eq]
    exact ((rest_suffix_of_mem_ways hq).trans hp).length_le

end Regex

end VerseSearch
