import VerseSearch.Regex.Ways

/-!
# Trying the ways to match, up to a limit

An expression that is not regular is matched by trying. Where there is more than one way on, the
later ones wait until the earlier one has failed, and taking one of them up costs a try. A search
that has no try left is given up: whether there is a match is then not known.

`Regex.explore` follows the expression with what comes behind it as a function. For expressions that
do not refer to groups, `agrees_explore_found` states that it comes to the preferred match, unless it
is given up.
-/

set_option autoImplicit false

namespace VerseSearch

/-- What becomes of trying to match, with the tries that are left. -/
inductive Attempt where
  | failed (tries : Nat)
  /-- A match that ends at the place. -/
  | found (stop : Place) (tries : Nat)
  /-- No try is left. -/
  | givenUp
deriving DecidableEq, Repr

namespace Attempt

/-- If it failed, the other way is taken up, which costs a try. -/
def orTry (a : Attempt) (other : Nat → Attempt) : Attempt :=
  match a with
  | .failed (n + 1) => other n
  | .failed 0 => .givenUp
  | a => a

/-- The attempt has come to this end, or is given up. -/
def Agrees : Attempt → Option Place → Prop
  | .failed _, stop => stop = none
  | .found q _, stop => stop = some q
  | .givenUp, _ => True

theorem Agrees.orTry {a : Attempt} {other : Nat → Attempt} {stop stop' : Option Place}
    (h : a.Agrees stop) (h' : ∀ tries, (other tries).Agrees stop') :
    (a.orTry other).Agrees (stop.or stop') := by
  cases a with
  | failed tries =>
    cases h
    cases tries with
    | zero => trivial
    | succ tries => exact h' tries
  | found q tries =>
    cases h
    rfl
  | givenUp => trivial

end Attempt

/-- The tries of a search. -/
def tryLimit : Nat := 1000000

namespace Regex

/-- Repeats a step while that makes the text shorter, at most `n` times, and goes on with `k`. -/
def exploreRepeat (step : (Place → Nat → Attempt) → Place → Nat → Attempt) (greedy : Bool)
    (k : Place → Nat → Attempt) : Nat → Place → Nat → Attempt
  | 0, p, tries => k p tries
  | n + 1, p, tries =>
    let more (tries : Nat) : Attempt :=
      step (fun q tries =>
        if q.left < p.left then exploreRepeat step greedy k n q tries else .failed tries) p tries
    if greedy then (more tries).orTry (k p) else (k p tries).orTry more

/-- Tries to match from the place on and to go on with `k` behind the match. -/
def explore : Regex → (Place → Nat → Attempt) → Place → Nat → Attempt
  | .empty, k, p, tries => k p tries
  | .one set, k, p, tries =>
    match p.advance? set with
    | none => .failed tries
    | some q => k q tries
  | .seq r s, k, p, tries => explore r (explore s k) p tries
  | .alt r s, k, p, tries => (explore r k p tries).orTry (explore s k p)
  | .star greedy r, k, p, tries => exploreRepeat (explore r) greedy k (p.left + 1) p tries
  | .group n r, k, p, tries => explore r (fun q => k (p.captured n q)) p tries
  | .look true r, k, p, tries =>
    match explore r .found p tries with
    | .found q tries => k { p with groups := q.groups } tries
    | a => a
  | .look false r, k, p, tries =>
    match explore r .found p tries with
    | .found _ tries => .failed tries
    | a => a.orTry (k p)
  | .atomic r, k, p, tries =>
    match explore r .found p tries with
    | .found q tries => k q tries
    | a => a
  | .back n, k, p, tries =>
    match (p.groups.lookup n).bind fun s => p.behind? s with
    | none => .failed tries
    | some q => k q tries

/-! ## Laws -/

variable {k : Place → Nat → Attempt} {greedy : Bool} {r s : Regex} {p q : Place} {n m : Nat}

/-- Longer repetitions than the text has characters do not exist. -/
private theorem exploreRepeat_fuel (step : (Place → Nat → Attempt) → Place → Nat → Attempt)
    {tries : Nat} (hn : p.left < n) (hm : p.left < m) :
    exploreRepeat step greedy k n p tries = exploreRepeat step greedy k m p tries := by
  induction n generalizing m p tries with
  | zero => omega
  | succ n ih =>
    cases m with
    | zero => omega
    | succ m =>
      have h : (fun (q : Place) (tries : Nat) =>
            if q.left < p.left then exploreRepeat step greedy k n q tries else .failed tries) =
          fun q tries =>
            if q.left < p.left then exploreRepeat step greedy k m q tries else .failed tries := by
        funext q tries
        by_cases hq : q.left < p.left
        · rw [if_pos hq, if_pos hq]
          exact ih (by omega) (by omega)
        · rw [if_neg hq, if_neg hq]
      simp only [exploreRepeat, h]

/-- A repetition is one more time and the repetition again, or nothing. -/
theorem explore_star (greedy : Bool) (r : Regex) (k : Place → Nat → Attempt) (p : Place)
    (tries : Nat) :
    explore (star greedy r) k p tries =
      let more (tries : Nat) : Attempt :=
        explore r (fun q tries =>
          if q.left < p.left then explore (star greedy r) k q tries else .failed tries) p tries
      if greedy then (more tries).orTry (k p) else (k p tries).orTry more := by
  have h : (fun (q : Place) (tries : Nat) =>
        if q.left < p.left then exploreRepeat (explore r) greedy k p.left q tries
        else .failed tries) =
      fun q tries =>
        if q.left < p.left then explore (star greedy r) k q tries else .failed tries := by
    funext q tries
    by_cases hq : q.left < p.left
    · rw [if_pos hq, if_pos hq]
      exact exploreRepeat_fuel _ hq (Nat.lt_succ_self _)
    · rw [if_neg hq, if_neg hq]
  rw [explore, exploreRepeat]
  simp only [h]

/-! ### What is found is found behind the match -/

/-- Whatever is found from the place on with some tries is found by `k` behind it. -/
private def Leads (k : Place → Nat → Attempt) (p : Place) (a : Attempt) : Prop :=
  ∀ e tries, a = .found e tries →
    ∃ q tries', q.rest <:+ p.rest ∧ k q tries' = .found e tries

private theorem Leads.orTry {a : Attempt} {other : Nat → Attempt} (h : Leads k p a)
    (h' : ∀ tries, Leads k p (other tries)) : Leads k p (a.orTry other) := by
  cases a with
  | failed tries =>
    cases tries with
    | zero => exact fun _ _ he => nomatch he
    | succ tries => exact h' tries
  | found => exact h
  | givenUp => exact h

private theorem leads_here (k : Place → Nat → Attempt) (p : Place) (tries : Nat) :
    Leads k p (k p tries) :=
  fun _ _ he => ⟨p, tries, List.suffix_refl _, he⟩

/-- Going on somewhere later in the text. -/
private theorem leads_at (k : Place → Nat → Attempt) (hq : q.rest <:+ p.rest) (tries : Nat) :
    Leads k p (k q tries) :=
  fun _ _ he => ⟨q, tries, hq, he⟩

private theorem leads_failed (k : Place → Nat → Attempt) (p : Place) (tries : Nat) :
    Leads k p (.failed tries) :=
  fun _ _ he => nomatch he

private theorem leads_star (greedy : Bool) (ih : ∀ (k : Place → Nat → Attempt) (p : Place)
    (tries : Nat), Leads k p (explore r k p tries)) (n : Nat) (k : Place → Nat → Attempt)
    (p : Place) (hn : p.left ≤ n) (tries : Nat) :
    Leads k p (explore (star greedy r) k p tries) := by
  induction n using Nat.strongRecOn generalizing p tries with
  | _ n hrec =>
    have hmore : ∀ tries, Leads k p (explore r (fun q tries =>
        if q.left < p.left then explore (star greedy r) k q tries else .failed tries) p tries) := by
      intro tries e left he
      obtain ⟨q, tries', hq, he⟩ := ih _ p tries e left he
      dsimp only at he
      split at he
      · rename_i hlt
        obtain ⟨u, tries'', hu, he⟩ := hrec q.left (by omega) q (Nat.le_refl _) tries' e left he
        exact ⟨u, tries'', hu.trans hq, he⟩
      · cases he
    rw [explore_star]
    cases greedy with
    | true => exact (hmore tries).orTry (leads_here k p)
    | false => exact (leads_here k p tries).orTry hmore

private theorem leads_explore (r : Regex) (k : Place → Nat → Attempt) (p : Place) (tries : Nat) :
    Leads k p (explore r k p tries) := by
  induction r generalizing k p tries with
  | empty => exact leads_here k p tries
  | one set =>
    rw [explore]
    cases h : p.advance? set with
    | none => exact leads_failed k p tries
    | some q => exact leads_at k (Place.rest_suffix_of_advance? h) tries
  | seq r s ihr ihs =>
    intro e left he
    obtain ⟨q, tries', hq, he⟩ := ihr _ p tries e left he
    obtain ⟨u, tries'', hu, he⟩ := ihs k q tries' e left he
    exact ⟨u, tries'', hu.trans hq, he⟩
  | alt r s ihr ihs => exact (ihr k p tries).orTry (ihs k p)
  | star greedy r ih => exact leads_star greedy ih p.left k p (Nat.le_refl _) tries
  | group n r ih =>
    intro e left he
    obtain ⟨q, tries', hq, he⟩ := ih _ p tries e left he
    exact ⟨p.captured n q, tries', hq, he⟩
  | look positive r ih =>
    cases positive with
    | true =>
      rw [explore]
      cases explore r .found p tries with
      | failed => exact leads_failed k p _
      | found q tries => exact leads_at k (List.suffix_refl _) tries
      | givenUp => exact fun _ _ he => nomatch he
    | false =>
      rw [explore]
      cases explore r .found p tries with
      | failed => exact (leads_failed k p _).orTry (leads_here k p)
      | found => exact leads_failed k p _
      | givenUp => exact fun _ _ he => nomatch he
  | atomic r ih =>
    rw [explore]
    cases h : explore r .found p tries with
    | failed => exact leads_failed k p _
    | found q tries' =>
      obtain ⟨u, _, hu, he⟩ := ih .found p tries q tries' h
      cases he
      exact leads_at k hu tries'
    | givenUp => exact fun _ _ he => nomatch he
  | back n =>
    rw [explore]
    cases h : (p.groups.lookup n).bind fun s => p.behind? s with
    | none => exact leads_failed k p tries
    | some q =>
      obtain ⟨s, _, hs⟩ := Option.bind_eq_some_iff.1 h
      exact leads_at k (Place.rest_suffix_of_behind? hs) tries

/-- What is found behind a match is found where the match ends. -/
theorem exists_of_explore {e : Place} {tries left : Nat}
    (h : explore r k p tries = .found e left) :
    ∃ q tries', q.rest <:+ p.rest ∧ k q tries' = .found e left :=
  leads_explore r k p tries e left h

/-- A match ends later in the text. -/
theorem rest_suffix_of_explore {e : Place} {tries left : Nat}
    (h : explore r .found p tries = .found e left) : e.rest <:+ p.rest := by
  obtain ⟨q, _, hq, he⟩ := exists_of_explore h
  cases he
  exact hq

/-! ### The first way is found -/

/-- Looking in lists that are made from the elements is looking in one list after the other. -/
private theorem findSome?_flatMap {α β γ : Type} (l : List α) (f : α → List β) (g : β → Option γ) :
    (l.flatMap f).findSome? g = l.findSome? fun a => (f a).findSome? g := by
  rw [← List.head?_filterMap, List.filterMap_flatMap, List.head?_flatMap]
  simp only [List.head?_filterMap]

/-- The expression is matched by the first way that what comes behind accepts, unless the search is
given up. -/
private def FindsFirst (r : Regex) : Prop :=
  ∀ ⦃k : Place → Nat → Attempt⦄ ⦃g : Place → Option Place⦄,
    (∀ q tries, (k q tries).Agrees (g q)) → ∀ (p : Place) (tries : Nat),
      (explore r k p tries).Agrees ((r.ways p).findSome? g)

/-- Alone it comes to the first way of all. -/
private theorem FindsFirst.agrees_head? (h : FindsFirst r) (p : Place) (tries : Nat) :
    (explore r .found p tries).Agrees (r.ways p).head? := by
  have hsome : (r.ways p).findSome? some = (r.ways p).head? := by cases r.ways p <;> rfl
  rw [← hsome]
  exact h (k := .found) (g := some) (fun _ _ => rfl) p tries

private theorem findsFirst_empty : FindsFirst empty := by
  intro k g hk p tries
  rw [explore, ways, List.findSome?_singleton]
  exact hk p tries

private theorem findsFirst_one (set : CharSet) : FindsFirst (one set) := by
  intro k g hk p tries
  rw [explore, ways]
  cases p.advance? set with
  | none => rfl
  | some q =>
    rw [Option.toList_some, List.findSome?_singleton]
    exact hk q tries

private theorem FindsFirst.seq (hr : FindsFirst r) (hs : FindsFirst s) : FindsFirst (seq r s) := by
  intro k g hk p tries
  rw [explore, ways, findSome?_flatMap]
  exact hr (fun q tries => hs hk q tries) p tries

private theorem FindsFirst.alt (hr : FindsFirst r) (hs : FindsFirst s) : FindsFirst (alt r s) := by
  intro k g hk p tries
  rw [explore, ways, List.findSome?_append]
  exact (hr hk p tries).orTry fun tries => hs hk p tries

private theorem FindsFirst.star (h : FindsFirst r) (greedy : Bool) : FindsFirst (star greedy r) := by
  intro k g hk p tries
  obtain ⟨n, hn⟩ : ∃ n, p.left = n := ⟨_, rfl⟩
  induction n using Nat.strongRecOn generalizing p tries with
  | _ n hrec =>
    have hmore : ∀ tries, (explore r (fun q tries =>
        if q.left < p.left then explore (Regex.star greedy r) k q tries else .failed tries) p
          tries).Agrees (((r.ways p).flatMap fun q =>
            if q.left < p.left then (Regex.star greedy r).ways q else []).findSome? g) := by
      intro tries
      rw [findSome?_flatMap]
      refine h (fun q tries => ?_) p tries
      split
      · rename_i hlt
        exact hrec q.left (hn ▸ hlt) q tries rfl
      · rfl
    have hhere : [p].findSome? g = g p := by
      rw [List.findSome?_cons]
      cases g p <;> rfl
    rw [explore_star, ways_star]
    cases greedy with
    | true =>
      simp only [if_true, List.findSome?_append, hhere]
      exact (hmore tries).orTry (hk p)
    | false =>
      simp only [Bool.false_eq_true, if_false]
      rw [← List.singleton_append, List.findSome?_append, hhere]
      exact (hk p tries).orTry hmore

private theorem FindsFirst.group (h : FindsFirst r) (n : Nat) : FindsFirst (group n r) := by
  intro k g hk p tries
  rw [explore, ways, List.findSome?_map]
  exact h (fun q tries => hk (p.captured n q) tries) p tries

private theorem FindsFirst.look_true (h : FindsFirst r) : FindsFirst (look true r) := by
  intro k g hk p tries
  have hbody := h.agrees_head? p tries
  rw [explore, ways]
  cases hexplored : explore r .found p tries with
  | failed tries =>
    rw [hexplored] at hbody
    rw [show (r.ways p).head? = none from hbody]
    rfl
  | found q tries =>
    rw [hexplored] at hbody
    rw [show (r.ways p).head? = some q from hbody]
    rw [Option.toList_some, List.map_singleton, List.findSome?_singleton]
    exact hk _ tries
  | givenUp => trivial

private theorem FindsFirst.look_false (h : FindsFirst r) : FindsFirst (look false r) := by
  intro k g hk p tries
  have hbody := h.agrees_head? p tries
  rw [explore, ways]
  cases hexplored : explore r .found p tries with
  | failed tries =>
    rw [hexplored] at hbody
    rw [List.isEmpty_iff.2 (List.head?_eq_none_iff.1 hbody), if_pos rfl, List.findSome?_singleton]
    have hfailed : (Attempt.failed tries).Agrees none := rfl
    exact hfailed.orTry (hk p)
  | found q tries =>
    rw [hexplored] at hbody
    obtain ⟨l, hl⟩ := List.head?_eq_some_iff.1 hbody
    rw [hl]
    rfl
  | givenUp => trivial

private theorem FindsFirst.atomic (h : FindsFirst r) : FindsFirst (atomic r) := by
  intro k g hk p tries
  have hbody := h.agrees_head? p tries
  rw [explore, ways]
  cases hexplored : explore r .found p tries with
  | failed tries =>
    rw [hexplored] at hbody
    rw [show (r.ways p).head? = none from hbody]
    rfl
  | found q tries =>
    rw [hexplored] at hbody
    rw [show (r.ways p).head? = some q from hbody]
    rw [Option.toList_some, List.findSome?_singleton]
    exact hk q tries
  | givenUp => trivial

private theorem findsFirst_of_not_refers (hr : r.refers = false) : FindsFirst r := by
  induction r with
  | empty => exact findsFirst_empty
  | one set => exact findsFirst_one set
  | seq r s ihr ihs =>
    rw [refers, Bool.or_eq_false_iff] at hr
    exact (ihr hr.1).seq (ihs hr.2)
  | alt r s ihr ihs =>
    rw [refers, Bool.or_eq_false_iff] at hr
    exact (ihr hr.1).alt (ihs hr.2)
  | star greedy r ih => exact (ih hr).star greedy
  | group n r ih => exact (ih hr).group n
  | look positive r ih =>
    cases positive with
    | true => exact (ih hr).look_true
    | false => exact (ih hr).look_false
  | atomic r ih => exact (ih hr).atomic
  | back n => cases hr

/-- Trying to match finds the preferred match, unless it is given up. -/
theorem agrees_explore_found (hr : r.refers = false) (p : Place) (tries : Nat) :
    (explore r .found p tries).Agrees (r.matchAt? p) :=
  (findsFirst_of_not_refers hr).agrees_head? p tries

end Regex

end VerseSearch
