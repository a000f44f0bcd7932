import VerseSearch.Regex.PlaceSet
import VerseSearch.Regex.Syntax

/-!
# Repetitions of what may cover nothing

What an automaton prefers is not said by the ways to match alone when an expression repeats something
that may cover nothing. An automaton does not enter a state twice at one place of a text: what was
entered has failed, or is being tried just now, and in neither case is there anything to be gained. So
a repetition that has covered nothing is not repeated, but what comes behind it is still tried, and at
the place in the order of preference where it was reached.

`Regex.sweep` runs an expression in this manner. Its states are the places in the expression where
there is more than one way on, numbered from left to right. A repetition has three of them: where it
is entered or left out, where its body begins, and where it is repeated or left.
-/

set_option autoImplicit false

namespace VerseSearch

/-- The places at which each state was entered. -/
abbrev Trail := Array PlaceSet

/-- What a run comes to, and the states entered on the way. -/
abbrev Sweep := Trail → Option Place × Trail

namespace Sweep

/-- Goes on with a run that enters a state, unless the state was entered at the place before. -/
def enter (state : Nat) (p : Place) (run : Sweep) : Sweep := fun trail =>
  if (trail.getD state .empty).contains p.left then (none, trail)
  else run (trail.modify state (·.insert p.left))

/-- The first run, and if it fails the second one. -/
def orElse (run other : Sweep) : Sweep := fun trail =>
  match run trail with
  | (none, trail) => other trail
  | found => found

end Sweep

namespace Regex

/-- How many states an expression has. -/
def states : Regex → Nat
  | .empty | .one _ | .back _ => 0
  | .seq r s => r.states + s.states
  | .alt r s => r.states + s.states + 1
  | .star _ r => r.states + 3
  | .group _ r | .look _ r | .atomic r => r.states

/-- Repeats a step, or goes on with `k`. No place is come to twice, so the number `n` of repetitions
need be no larger than the number of places. -/
def sweepRepeat (step : (Place → Sweep) → Place → Sweep) (state : Nat) (greedy : Bool)
    (k : Place → Sweep) : Nat → Place → Sweep
  | 0, _ => fun trail => (none, trail)
  | n + 1, p =>
    let more : Sweep := step (sweepRepeat step state greedy k n) p
    .enter state p (if greedy then more.orElse (k p) else (k p).orElse more)

/-- Matches a regular expression, whose states are numbered from `state` on, and goes on with `k`. -/
def sweep : Regex → Nat → (Place → Sweep) → Place → Sweep
  | .empty, _, k, p => k p
  | .one set, _, k, p =>
    match p.advance? set with
    | none => fun trail => (none, trail)
    | some q => k q
  | .seq r s, state, k, p => sweep r state (sweep s (state + r.states) k) p
  | .alt r s, state, k, p =>
    .enter state p ((sweep r (state + 1) k p).orElse (sweep s (state + 1 + r.states) k p))
  | .star greedy r, state, k, p =>
    let body (k : Place → Sweep) (p : Place) : Sweep :=
      .enter (state + 1) p (sweep r (state + 3) k p)
    let more : Sweep := body (sweepRepeat body (state + 2) greedy k (p.left + 1)) p
    .enter state p (if greedy then more.orElse (k p) else (k p).orElse more)
  | .group n r, state, k, p => sweep r state (fun q => k (p.captured n q)) p
  | .look _ _, _, _, _ | .atomic _, _, _, _ | .back _, _, _, _ => fun trail => (none, trail)

/-- Where the match that an automaton prefers ends, if one begins at the place. -/
def sweepAt? (r : Regex) (p : Place) : Option Place :=
  (r.sweep 0 (fun q trail => (some q, trail)) p (.replicate r.states .empty)).1

/-! ## Laws -/

variable {k : Place → Sweep} {p q : Place} {run other : Sweep}

/-- Whatever the run comes to is what `k` comes to at a later place. -/
private def Comes (k : Place → Sweep) (p : Place) (run : Sweep) : Prop :=
  ∀ trail e, (run trail).1 = some e →
    ∃ (q : Place) (trail' : Trail), q.rest <:+ p.rest ∧ (k q trail').1 = some e

private theorem comes_here (k : Place → Sweep) (hq : q.rest <:+ p.rest) : Comes k p (k q) :=
  fun trail _ he => ⟨q, trail, hq, he⟩

private theorem comes_stuck (k : Place → Sweep) (p : Place) :
    Comes k p fun trail => (none, trail) :=
  fun _ _ he => nomatch he

private theorem Comes.enter (h : Comes k p run) (state : Nat) (q : Place) :
    Comes k p (.enter state q run) := by
  intro trail e he
  rw [Sweep.enter] at he
  split at he
  · cases he
  · exact h _ e he

private theorem Comes.orElse (h : Comes k p run) (h' : Comes k p other) :
    Comes k p (run.orElse other) := by
  intro trail e he
  rw [Sweep.orElse] at he
  split at he
  · exact h' _ e he
  · exact h trail e he

private theorem Comes.choose (h : Comes k p run) (h' : Comes k p other) (first : Bool) :
    Comes k p (if first then run.orElse other else other.orElse run) := by
  cases first with
  | true => exact h.orElse h'
  | false => exact h'.orElse h

/-- What is come to behind a later place is come to behind this one. -/
private theorem Comes.trans {k' : Place → Sweep} (h : Comes k' p run)
    (hk : ∀ q : Place, q.rest <:+ p.rest → Comes k q (k' q)) : Comes k p run := by
  intro trail e he
  obtain ⟨q, trail', hq, he⟩ := h trail e he
  obtain ⟨u, trail'', hu, he⟩ := hk q hq trail' e he
  exact ⟨u, trail'', hu.trans hq, he⟩

private theorem comes_sweepRepeat {step : (Place → Sweep) → Place → Sweep}
    (hstep : ∀ (k : Place → Sweep) (p : Place), Comes k p (step k p)) (state : Nat) (greedy : Bool)
    (k : Place → Sweep) (n : Nat) (p : Place) : Comes k p (sweepRepeat step state greedy k n p) := by
  induction n generalizing p with
  | zero => exact comes_stuck k p
  | succ n ih =>
    have hmore := (hstep (sweepRepeat step state greedy k n) p).trans fun q _ => ih q
    exact (hmore.choose (comes_here k (List.suffix_refl _)) greedy).enter state p

private theorem comes_sweep (r : Regex) (state : Nat) (k : Place → Sweep) (p : Place) :
    Comes k p (r.sweep state k p) := by
  induction r generalizing state k p with
  | empty => exact comes_here k (List.suffix_refl _)
  | one set =>
    rw [sweep]
    cases h : p.advance? set with
    | none => exact comes_stuck k p
    | some q => exact comes_here k (Place.rest_suffix_of_advance? h)
  | seq r s ihr ihs => exact (ihr state _ p).trans fun q _ => ihs _ k q
  | alt r s ihr ihs => exact ((ihr _ k p).orElse (ihs _ k p)).enter state p
  | star greedy r ih =>
    have hbody : ∀ (k : Place → Sweep) (p : Place),
        Comes k p (.enter (state + 1) p (r.sweep (state + 3) k p)) :=
      fun k p => (ih _ k p).enter _ p
    have hmore := (hbody _ p).trans fun q _ =>
      comes_sweepRepeat hbody (state + 2) greedy k (p.left + 1) q
    exact (hmore.choose (comes_here k (List.suffix_refl _)) greedy).enter state p
  | group n r ih =>
    intro trail e he
    obtain ⟨q, trail', hq, he⟩ := ih state _ p trail e he
    exact ⟨p.captured n q, trail', hq, he⟩
  | look | atomic | back => exact comes_stuck k p

/-- A match ends later in the text. -/
theorem rest_suffix_of_sweepAt? {r : Regex} {e : Place} (h : r.sweepAt? p = some e) :
    e.rest <:+ p.rest := by
  obtain ⟨q, _, hq, he⟩ := comes_sweep r 0 _ p _ e h
  cases he
  exact hq

/-- A group around an expression covers its match. -/
theorem exists_captured_of_sweepAt? {n : Nat} {r : Regex} {e : Place}
    (h : (group n r).sweepAt? p = some e) : ∃ q : Place, q.rest <:+ p.rest ∧ e = p.captured n q := by
  obtain ⟨q, _, hq, he⟩ := comes_sweep r 0 (fun q trail => (some (p.captured n q), trail)) p _ e h
  cases he
  exact ⟨q, hq, rfl⟩

end Regex

end VerseSearch
