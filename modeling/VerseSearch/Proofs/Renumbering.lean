import VerseSearch.Proofs.Grouping
import VerseSearch.Proofs.Spans

/-!
# Group numbers make no difference to a search

An expression and the same one with its groups renumbered are run side by side. At places with the
same text behind them they do the same: they try the same ways in the same order, spend the same tries
and enter the same states, and differ only in what they record for the groups. So they cut a text in
the same way, or are both given up (`Regex.map_bare_cut?_group`). This holds of expressions that do
not refer to groups; a reference does depend on the numbers.
-/

set_option autoImplicit false

namespace VerseSearch

/-! ## Places with the same text behind them -/

namespace Place

variable {p q : Place}

theorem left_eq_of_rest (h : p.rest = q.rest) : p.left = q.left := by
  rw [p.left_eq, q.left_eq, h]

/-- The next character is passed at both places, or at neither. -/
theorem advance?_of_rest (h : p.rest = q.rest) (set : CharSet) :
    (p.advance? set = none ∧ q.advance? set = none) ∨
      ∃ p' q', p.advance? set = some p' ∧ q.advance? set = some q' ∧ p'.rest = q'.rest := by
  have hfresh : p.fresh = q.fresh := ext_rest h rfl
  have hadvance : (p.advance? set).map fresh = (q.advance? set).map fresh := by
    rw [← advance?_fresh, ← advance?_fresh, hfresh]
  cases hp : p.advance? set with
  | none =>
    rw [hp, Option.map_none, eq_comm, Option.map_eq_none_iff] at hadvance
    exact .inl ⟨rfl, hadvance⟩
  | some p' =>
    rw [hp, Option.map_some, eq_comm, Option.map_eq_some_iff] at hadvance
    obtain ⟨q', hq, hq'⟩ := hadvance
    exact .inr ⟨p', q', rfl, hq, (congrArg rest hq').symm⟩

/-- The next character is there at both places, or at neither. -/
theorem next?_of_rest (h : p.rest = q.rest) :
    (p.next? = none ∧ q.next? = none) ∨
      ∃ c p' q', p.next? = some (c, p') ∧ q.next? = some (c, q') ∧ p'.rest = q'.rest := by
  cases hp : p.next? with
  | none => exact .inl ⟨rfl, next?_eq_none.2 (h ▸ next?_eq_none.1 hp)⟩
  | some cp =>
    obtain ⟨c, p'⟩ := cp
    let q' : Place := ⟨p'.rest, q.groups, p'.left, p'.left_eq⟩
    exact .inr ⟨c, p', q', rfl, next?_eq_some.2 ⟨h ▸ (next?_eq_some.1 hp).1, rfl⟩, rfl⟩

end Place

/-! ## The expressions -/

namespace Regex

@[simp] theorem isRegular_raise (r : Regex) : r.raise.isRegular = r.isRegular := by
  induction r <;> simp_all [raise, isRegular]

@[simp] theorem refers_raise (r : Regex) : r.raise.refers = r.refers := by
  induction r <;> simp_all [raise, refers]

@[simp] theorem mayIdle_raise (r : Regex) : r.raise.mayIdle = r.mayIdle := by
  induction r <;> simp_all [raise, mayIdle]

@[simp] theorem idles_raise (r : Regex) : r.raise.idles = r.idles := by
  induction r <;> simp_all [raise, idles]

@[simp] theorem states_raise (r : Regex) : r.raise.states = r.states := by
  induction r <;> simp_all [raise, states]

end Regex

/-! ## Trying -/

/-- Both attempts fail, or both find a match that leaves the same text, or both are given up; and
they have spent as many tries. -/
inductive Attempt.SameEnd : Attempt → Attempt → Prop
  | failed (tries : Nat) : SameEnd (.failed tries) (.failed tries)
  | found {p q : Place} (h : p.rest = q.rest) (tries : Nat) :
    SameEnd (.found p tries) (.found q tries)
  | givenUp : SameEnd .givenUp .givenUp

theorem Attempt.SameEnd.orTry {a b : Attempt} {other other' : Nat → Attempt} (h : a.SameEnd b)
    (h' : ∀ tries, (other tries).SameEnd (other' tries)) :
    (a.orTry other).SameEnd (b.orTry other') := by
  cases h with
  | failed tries =>
    cases tries with
    | zero => exact .givenUp
    | succ tries => exact h' tries
  | found h tries => exact .found h tries
  | givenUp => exact .givenUp

namespace Regex

open Attempt (SameEnd)

variable {k k' : Place → Nat → Attempt} {r : Regex}

private theorem sameEnd_star (greedy : Bool)
    (ih : ∀ {k k' : Place → Nat → Attempt},
      (∀ p q tries, p.rest = q.rest → (k p tries).SameEnd (k' q tries)) →
      ∀ {p q : Place} (tries : Nat), p.rest = q.rest →
        (explore r k p tries).SameEnd (explore r.raise k' q tries))
    (hk : ∀ p q tries, p.rest = q.rest → (k p tries).SameEnd (k' q tries)) (n : Nat) {p q : Place}
    (hn : p.left ≤ n) (tries : Nat) (h : p.rest = q.rest) :
    (explore (star greedy r) k p tries).SameEnd (explore (star greedy r.raise) k' q tries) := by
  induction n using Nat.strongRecOn generalizing p q tries with
  | _ n hrec =>
    have hmore : ∀ tries, SameEnd
        (explore r (fun u tries =>
          if u.left < p.left then explore (star greedy r) k u tries else .failed tries) p tries)
        (explore r.raise (fun u tries =>
          if u.left < q.left then explore (star greedy r.raise) k' u tries
          else .failed tries) q tries) := by
      intro tries
      refine ih (fun u v tries huv => ?_) tries h
      rw [← Place.left_eq_of_rest huv, ← Place.left_eq_of_rest h]
      by_cases hlt : u.left < p.left
      · rw [if_pos hlt, if_pos hlt]
        exact hrec u.left (by omega) (Nat.le_refl _) tries huv
      · rw [if_neg hlt, if_neg hlt]
        exact .failed tries
    rw [explore_star, explore_star]
    cases greedy with
    | true => exact (hmore tries).orTry fun tries => hk p q tries h
    | false => exact (hk p q tries h).orTry hmore

/-- With renumbered groups an expression is tried in the same way. -/
theorem sameEnd_explore_raise (hr : r.refers = false)
    (hk : ∀ p q tries, p.rest = q.rest → (k p tries).SameEnd (k' q tries)) {p q : Place}
    (tries : Nat) (h : p.rest = q.rest) :
    (explore r k p tries).SameEnd (explore r.raise k' q tries) := by
  induction r generalizing k k' p q tries with
  | empty => exact hk p q tries h
  | one set =>
    rw [raise, explore, explore]
    rcases Place.advance?_of_rest h set with ⟨hp, hq⟩ | ⟨p', q', hp, hq, h'⟩
    · rw [hp, hq]
      exact .failed tries
    · rw [hp, hq]
      exact hk p' q' tries h'
  | seq r t ihr iht =>
    rw [refers, Bool.or_eq_false_iff] at hr
    exact ihr hr.1 (fun p q tries h => iht hr.2 hk tries h) tries h
  | alt r t ihr iht =>
    rw [refers, Bool.or_eq_false_iff] at hr
    exact (ihr hr.1 hk tries h).orTry fun tries => iht hr.2 hk tries h
  | star greedy r ih =>
    exact sameEnd_star greedy (fun hk _ _ tries h => ih hr hk tries h) hk p.left (Nat.le_refl _) tries
      h
  | group n r ih =>
    exact ih hr (fun u v tries huv => hk (p.captured n u) (q.captured (n + 1) v) tries huv) tries h
  | look positive r ih =>
    have hbody : (explore r .found p tries).SameEnd (explore r.raise .found q tries) :=
      ih hr (fun _ _ tries h => .found h tries) tries h
    cases positive <;> rw [raise, explore, explore] <;>
      generalize explore r .found p tries = a, explore r.raise .found q tries = b at hbody
    · cases hbody with
      | failed tries => exact (SameEnd.failed tries).orTry fun tries => hk p q tries h
      | found _ tries => exact .failed tries
      | givenUp => exact .givenUp
    · cases hbody with
      | failed tries => exact .failed tries
      | found _ tries => exact hk _ _ tries h
      | givenUp => exact .givenUp
  | atomic r ih =>
    have hbody : (explore r .found p tries).SameEnd (explore r.raise .found q tries) :=
      ih hr (fun _ _ tries h => .found h tries) tries h
    rw [raise, explore, explore]
    generalize explore r .found p tries = a, explore r.raise .found q tries = b at hbody
    cases hbody with
    | failed tries => exact .failed tries
    | found h tries => exact hk _ _ tries h
    | givenUp => exact .givenUp
  | back n => cases hr

end Regex

/-! ## Running an automaton -/

/-- Both runs fail, or both come to a place with the same text behind it; and they have entered the
same states. -/
def Sweep.SameEnd (run run' : Sweep) : Prop :=
  ∀ trail, (run trail).1.map Place.rest = (run' trail).1.map Place.rest ∧
    (run trail).2 = (run' trail).2

namespace Sweep.SameEnd

variable {run run' other other' : Sweep} {p q : Place}

theorem orElse (h : run.SameEnd run') (h' : other.SameEnd other') :
    (run.orElse other).SameEnd (run'.orElse other') := by
  intro trail
  have hfirst := h trail
  unfold Sweep.orElse
  generalize run trail = a, run' trail = b at hfirst
  obtain ⟨stop, trail⟩ := a
  obtain ⟨stop', trail'⟩ := b
  obtain ⟨hend, rfl⟩ := hfirst
  cases stop <;> cases stop' <;> first | exact h' trail | exact ⟨hend, rfl⟩ | cases hend

theorem enter (state : Nat) (hpq : p.rest = q.rest) (h : run.SameEnd run') :
    (Sweep.enter state p run).SameEnd (Sweep.enter state q run') := by
  intro trail
  rw [Sweep.enter, Sweep.enter, ← Place.left_eq_of_rest hpq]
  split
  · exact ⟨rfl, rfl⟩
  · exact h _

theorem stuck : Sweep.SameEnd (fun trail => (none, trail)) (fun trail => (none, trail)) :=
  fun _ => ⟨rfl, rfl⟩

end Sweep.SameEnd

namespace Regex

open Sweep (SameEnd)

variable {k k' : Place → Sweep} {r : Regex}

private theorem sameEnd_sweepRepeat {step step' : (Place → Sweep) → Place → Sweep} (state : Nat)
    (greedy : Bool) (hk : ∀ p q, p.rest = q.rest → (k p).SameEnd (k' q))
    (hstep : ∀ k k' : Place → Sweep, (∀ p q, p.rest = q.rest → (k p).SameEnd (k' q)) →
      ∀ p q, p.rest = q.rest → (step k p).SameEnd (step' k' q)) (n : Nat) (p q : Place)
    (h : p.rest = q.rest) :
    (sweepRepeat step state greedy k n p).SameEnd (sweepRepeat step' state greedy k' n q) := by
  induction n generalizing p q with
  | zero => exact .stuck
  | succ n ih =>
    have hmore := hstep _ _ ih p q h
    refine .enter state h ?_
    cases greedy with
    | true => exact hmore.orElse (hk p q h)
    | false => exact (hk p q h).orElse hmore

/-- With renumbered groups an automaton runs in the same way. -/
theorem sameEnd_sweep_raise (r : Regex) (state : Nat)
    (hk : ∀ p q, p.rest = q.rest → (k p).SameEnd (k' q)) (p q : Place) (h : p.rest = q.rest) :
    (sweep r state k p).SameEnd (sweep r.raise state k' q) := by
  induction r generalizing state k k' p q with
  | empty => exact hk p q h
  | one set =>
    rw [raise, sweep, sweep]
    rcases Place.advance?_of_rest h set with ⟨hp, hq⟩ | ⟨p', q', hp, hq, h'⟩
    · rw [hp, hq]
      exact .stuck
    · rw [hp, hq]
      exact hk p' q' h'
  | seq r t ihr iht =>
    rw [raise, sweep, sweep, states_raise]
    exact ihr state (fun p q h => iht _ hk p q h) p q h
  | alt r t ihr iht =>
    rw [raise, sweep, sweep, states_raise]
    exact .enter state h ((ihr _ hk p q h).orElse (iht _ hk p q h))
  | star greedy r ih =>
    have hbody : ∀ k k' : Place → Sweep, (∀ p q, p.rest = q.rest → (k p).SameEnd (k' q)) →
        ∀ p q, p.rest = q.rest →
          (Sweep.enter (state + 1) p (sweep r (state + 3) k p)).SameEnd
            (Sweep.enter (state + 1) q (sweep r.raise (state + 3) k' q)) :=
      fun k k' hk p q h => .enter _ h (ih _ hk p q h)
    have hmore := hbody _ _ (sameEnd_sweepRepeat (state + 2) greedy hk hbody (p.left + 1)) p q h
    rw [raise, sweep, sweep, ← Place.left_eq_of_rest h]
    refine .enter state h ?_
    cases greedy with
    | true => exact hmore.orElse (hk p q h)
    | false => exact (hk p q h).orElse hmore
  | group n r ih =>
    exact ih state (fun u v huv => hk (p.captured n u) (q.captured (n + 1) v) huv) p q h
  | look | atomic | back => exact .stuck

/-- In a group of its own an automaton prefers the same match. -/
theorem map_rest_sweepAt?_group (r : Regex) {p q : Place} (h : p.rest = q.rest) :
    (r.sweepAt? p).map Place.rest = ((group 1 r.raise).sweepAt? q).map Place.rest := by
  have hstop : ∀ u v : Place, u.rest = v.rest →
      SameEnd (fun trail => (some u, trail)) (fun trail => (some (q.captured 1 v), trail)) :=
    fun u v huv _ => ⟨congrArg some huv, rfl⟩
  rw [sweepAt?, sweepAt?, states, states_raise]
  exact (sameEnd_sweep_raise r 0 hstop p q h _).1

end Regex

/-! ## Cutting a text -/

/-- Pieces in front of others. -/
private theorem map_bare_append (ps qs : List Piece) {o o' : Option (List Piece)}
    (hps : ps.map Piece.bare = qs.map Piece.bare)
    (h : o.map (List.map Piece.bare) = o'.map (List.map Piece.bare)) :
    (o.map (ps ++ ·)).map (List.map Piece.bare) =
      (o'.map (qs ++ ·)).map (List.map Piece.bare) := by
  cases o <;> cases o' <;> simp_all

/-- Attempts with the same end cut a text into the same pieces, the groups aside. -/
theorem map_bare_cutBy {attempt attempt' : Place → Nat → Attempt}
    (h : ∀ p q tries, p.rest = q.rest → (attempt p tries).SameEnd (attempt' q tries))
    (afterHit : Bool) (tries : Nat) {p q : Place} (hpq : p.rest = q.rest) :
    (cutBy attempt afterHit tries p).map (List.map Piece.bare) =
      (cutBy attempt' afterHit tries q).map (List.map Piece.bare) := by
  obtain ⟨n, hn⟩ : ∃ n, p.left = n := ⟨_, rfl⟩
  induction n using Nat.strongRecOn generalizing p q afterHit tries with
  | _ n ih =>
    subst hn
    have honward : ∀ tries, (cutOnward attempt tries p).map (List.map Piece.bare) =
        (cutOnward attempt' tries q).map (List.map Piece.bare) := by
      intro tries
      rw [cutOnward, cutOnward]
      rcases Place.next?_of_rest hpq with ⟨hp, hq⟩ | ⟨c, p', q', hp, hq, hrest⟩
      · rw [hp, hq]
      · have hlt : p'.left < p.left := Nat.lt_of_succ_le (Nat.le_of_eq (Place.left_of_next? hp).symm)
        have hbehind := ih p'.left hlt false tries hrest rfl
        rw [hp, hq]
        exact map_bare_append [.plain c] [.plain c] rfl hbehind
    have hsame := h p q tries hpq
    rw [cutBy_eq, cutBy_eq]
    generalize attempt p tries = a, attempt' q tries = b at hsame
    cases hsame with
    | failed tries =>
      cases tries with
      | zero => rfl
      | succ tries => exact honward tries
    | @found d e hde tries =>
      have hbetween : p.between d = q.between e := by
        rw [Place.between, Place.between, hpq, Place.left_eq_of_rest hpq, Place.left_eq_of_rest hde]
      simp only
      rw [← Place.left_eq_of_rest hpq, ← Place.left_eq_of_rest hde]
      split
      · rename_i hlt
        have hbehind := ih d.left hlt true tryLimit (p := d.fresh) (q := e.fresh) hde rfl
        exact map_bare_append [.hit (p.between d) d.groups] [.hit (q.between e) e.groups]
          (congrArg (fun s => [Piece.hit s []]) hbetween) hbehind
      · exact map_bare_append _ _ (by cases afterHit <;> rfl) (honward tryLimit)
    | givenUp => rfl

namespace Regex

/-- An expression cuts a text in the same way when its groups are renumbered and it stands in a group
itself, or neither way of cutting it comes to an end. -/
theorem map_bare_cut?_group {r : Regex} (hr : r.refers = false) (s : List Char) :
    ((group 1 r.raise).cut? s).map (List.map Piece.bare) =
      (r.cut? s).map (List.map Piece.bare) := by
  have hregular : (group 1 r.raise).isRegular = r.isRegular := isRegular_raise r
  have hidles : (group 1 r.raise).idles = r.idles := idles_raise r
  cases hr' : r.isRegular with
  | true =>
    rw [hr'] at hregular
    cases hi : r.idles with
    | true =>
      simp only [cut?, hregular, hidles, hr', hi, if_true]
      exact congrArg some (map_bare_piecesBy (fun p q h => (map_rest_sweepAt?_group r h.symm).symm)
        false rfl)
    | false =>
      rw [cut?_of_isRegular hr' hi, cut?_of_isRegular hregular (hidles.trans hi)]
      exact congrArg some (map_bare_pieces (fun p => (rests_group 1).trans (rests_raise r p))
        s)
  | false =>
    have hsame (p q : Place) (tries : Nat) (h : p.rest = q.rest) :
        (explore r .found p tries).SameEnd (explore (group 1 r.raise) .found q tries) := by
      have hstop (u v : Place) (tries : Nat) (huv : u.rest = v.rest) :
          Attempt.SameEnd (.found u tries) ((fun v => Attempt.found (q.captured 1 v)) v tries) :=
        .found (p := u) (q := q.captured 1 v) huv tries
      exact sameEnd_explore_raise hr hstop tries h
    simp only [cut?, hregular, hr', Bool.false_eq_true, if_false]
    exact (map_bare_cutBy hsame false tryLimit rfl).symm

end Regex

/-! ## Counting and emphasizing -/

namespace Pattern

variable {p : Pattern} {counting : Regex}

/-- A pattern whose second expression is the first one in a group counts and emphasizes the same
pieces of a text, or is given up both times. -/
theorem searched_or_givenUp (h : p.matchers = some ⟨counting, .group 1 counting.raise⟩)
    (hr : counting.refers = false) (text : String) :
    (p.givesUp text = true ∧ p.count text = .error .givenUp ∧
      ∀ m : Markers, m.emphasize (some p) text = .error .givenUp) ∨
    ∃ ps qs : List Piece, p.givesUp text = false ∧
      counting.cut? (p.kind.subject text.toList) = some ps ∧
      (Regex.group 1 counting.raise).cut? (p.kind.subject text.toList) = some qs ∧
      qs.map Piece.bare = ps.map Piece.bare ∧
      p.count text = .ok (ps.countP Piece.isHit) ∧
      ∀ m : Markers, m.emphasize (some p) text =
        .ok (String.ofList (Markers.restore p.kind (qs.flatMap fun
          | .plain c => [c]
          | .hit _ groups => m.replacement p.kind groups))) := by
  have hbare := Regex.map_bare_cut?_group hr (p.kind.subject text.toList)
  cases hcut : counting.cut? (p.kind.subject text.toList) with
  | none =>
    rw [hcut, Option.map_none, Option.map_eq_none_iff] at hbare
    refine .inl ⟨?_, ?_, fun m => ?_⟩
    · simp [givesUp, h, hcut]
    · simp [count, h, Regex.count?, hcut]
    · exact m.emphasize_of_cut?_eq_none h hbare
  | some ps =>
    rw [hcut, Option.map_some, Option.map_eq_some_iff] at hbare
    obtain ⟨qs, hqs, hbare⟩ := hbare
    refine .inr ⟨ps, qs, ?_, rfl, hqs, hbare, count_of_cut?_eq_some h hcut, fun m => ?_⟩
    · simp [givesUp, h, hcut]
    · exact m.emphasize_of_cut?_eq_some h hqs

end Pattern

end VerseSearch
