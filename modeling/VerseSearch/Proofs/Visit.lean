import VerseSearch.Proofs.LastInput
import VerseSearch.Proofs.Transparency

/-!
# Visits

A visit is one session over a service that others use too. Its inputs are begun, computed by calls
to the service and committed, in any order; pages are turned; and between these steps anything else
may happen in the world: other sessions, searches, calls for results in parts, a forgotten table. A
visit keeps the text of the last input that was answered with a page.

An input that nothing comes between is `Service.input` (`Visit.input_eq_parts`).
-/

set_option autoImplicit false

namespace VerseSearch

/-- A typed text that is begun as an input and not committed. -/
structure Entry where
  raw : String
  pending : Pending
  /-- What was computed for it, if that is done. -/
  found : Option (Except Fault Results)

/-- A session in a world. -/
structure Visit where
  world : World
  session : Session := {}
  waiting : List Entry := []
  /-- The text of the last input that was answered with a page. -/
  answered : Option String := none

/-- What can happen during a visit. -/
inductive VisitEvent where
  /-- Something in the world that the visit has no part in. -/
  | elsewhere (a : Action)
  | enter (raw : String)
  /-- An action in the world that may answer the query of a waiting input. -/
  | compute (ticket : Nat) (a : Action)
  /-- The query of a waiting input could not be answered. -/
  | fail (ticket : Nat) (fault : Fault)
  | commit (ticket : Nat)
  | turn (page : Nat)

/-- What the visitor is answered. -/
inductive Reply where
  /-- What became of the input of a text. -/
  | input (raw : String) (outcome : Except Fault Outcome)
  /-- Another page of what is on display. -/
  | turned (page : Except Fault (Option Page))

namespace Reply

/-- The text of an input that is answered with a page. -/
def answered? : Reply → Option String
  | input raw (.ok (.page _)) => some raw
  | _ => none

end Reply

namespace Visit

/-- Notes with the chosen inputs that wait what was computed for them, unless something was noted
before. -/
def note (v : Visit) (chosen : Pending → Bool) (found : Except Fault Results) : Visit :=
  { v with
    waiting := v.waiting.map fun e =>
      if chosen e.pending ∧ e.found.isNone then { e with found := some found } else e }

/-- An action in the world. If it answers the query of the waiting input with the ticket, the answer
is noted. -/
def compute (v : Visit) (ticket : Nat) (a : Action) : Visit :=
  let moved : Visit := { v with world := (v.world.act a).2 }
  match (v.world.act a).1 with
  | none => moved
  | some (q, found) => moved.note (fun p => p = ⟨ticket, q⟩) found

/-- Begins an input. It waits, unless its query is that of the last accepted input. -/
def enter (v : Visit) (raw : String) : Option Reply × Visit :=
  match v.session.begin raw with
  | (none, session) => (some (.input raw (.ok .unchanged)), { v with session })
  | (some p, session) => (none, { v with session, waiting := ⟨raw, p, none⟩ :: v.waiting })

/-- Commits a waiting input with what was computed for it. -/
def commit (v : Visit) (raw : String) (p : Pending) (found : Except Fault Results) :
    Option Reply × Visit :=
  let committed := v.session.commit v.world.service.render p found
  (some (.input raw committed.1),
    { v with
      session := committed.2
      waiting := v.waiting.filter fun e => e.pending.ticket ≠ p.ticket })

/-- One event, but for the text that is kept. Committing an input that does not wait, or for which
nothing is computed, does nothing. -/
def step (v : Visit) : VisitEvent → Option Reply × Visit
  | .elsewhere a => (none, { v with world := (v.world.act a).2 })
  | .enter raw => v.enter raw
  | .compute ticket a => (none, v.compute ticket a)
  | .fail ticket fault => (none, v.note (fun p => p.ticket = ticket) (.error fault))
  | .commit ticket =>
    match v.waiting.find? fun e => e.pending.ticket = ticket with
    | some ⟨raw, p, some found⟩ => v.commit raw p found
    | _ => (none, v)
  | .turn page =>
    let turned := v.session.goTo v.world.service.render page
    (some (.turned turned.1), { v with session := turned.2 })

/-- The reply to an event if there is one, and the visit after the event. -/
def act (v : Visit) (e : VisitEvent) : Option Reply × Visit :=
  let stepped := v.step e
  (stepped.1, { stepped.2 with answered := (stepped.1.bind Reply.answered?).or v.answered })

/-- The visit after some events. -/
def run (v : Visit) (events : List VisitEvent) : Visit := events.foldl (fun v e => (v.act e).2) v

/-- The replies to some events, in order. -/
def replies : Visit → List VisitEvent → List Reply
  | _, [] => []
  | v, e :: events => (v.act e).1.toList ++ (v.act e).2.replies events

theorem answered_act (v : Visit) (e : VisitEvent) :
    (v.act e).2.answered = ((v.act e).1.bind Reply.answered?).or v.answered := rfl

/-- The text that is kept is the last one that was answered with a page. -/
theorem answered_run (v : Visit) (events : List VisitEvent) :
    (v.run events).answered =
      ((v.replies events).filterMap Reply.answered?).getLast?.or v.answered := by
  induction events generalizing v with
  | nil => rfl
  | cons e events ih =>
    have hfirst : ((v.act e).1.toList.filterMap Reply.answered?).getLast? =
        (v.act e).1.bind Reply.answered? := by
      cases (v.act e).1 with
      | none => rfl
      | some reply => cases h : reply.answered? <;> simp [h]
    have hrun : v.run (e :: events) = (v.act e).2.run events := rfl
    rw [hrun, ih, answered_act, replies, List.filterMap_append, List.getLast?_append, hfirst,
      Option.or_assoc]

/-- An input whose steps nothing comes between is an input in one piece, if the corpus it needs is
there in the end. -/
theorem input_eq_parts (v : Visit) (files : Files) (raw : String) {p : Pending} {begun : Session}
    (hbegin : v.session.begin raw = (some p, begun))
    (hready : (v.world.service.compute files p.query).2.isReadyFor p.query = true) :
    let events := [.enter raw, .compute p.ticket (.compute files p.query), .commit p.ticket]
    let whole := v.world.service.input files v.session raw
    v.replies events = [.input raw whole.1] ∧ (v.run events).world.service = whole.2.1 ∧
      (v.run events).session = whole.2.2 := by
  simp [replies, run, act, step, enter, hbegin, compute, note, World.act, hready, commit,
    Service.input, Service.finish]

/-- An input with the query of the last accepted one is not begun, in pieces or in one. -/
theorem input_eq_enter (v : Visit) (files : Files) (raw : String) {session : Session}
    (hbegin : v.session.begin raw = (none, session)) :
    let whole := v.world.service.input files v.session raw
    v.replies [.enter raw] = [.input raw whole.1] ∧
      (v.run [.enter raw]).world.service = whole.2.1 ∧ (v.run [.enter raw]).session = whole.2.2 := by
  simp [replies, run, act, step, enter, hbegin, Service.input]

end Visit

end VerseSearch
