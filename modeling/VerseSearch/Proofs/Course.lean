import VerseSearch.Service.Session

/-!
# The course of a session

A course is a session together with what has become of its inputs: those that are begun and still
wait for their results or for being committed, and those that are committed, with their answers.
Inputs are begun, computed and committed in any order, and pages are turned in between; the results
computed for an input are arbitrary, and so is the way pages are rendered.
-/

set_option autoImplicit false

namespace VerseSearch

/-- An input that is begun and not committed. -/
structure Waiting where
  pending : Pending
  /-- What was computed for it, if that is done. -/
  found : Option (Except Fault Results)
deriving Repr

/-- An input that is committed. -/
structure Committed where
  pending : Pending
  /-- What was computed for it. -/
  found : Except Fault Results
  /-- What it was answered. -/
  outcome : Except Fault Outcome
deriving Repr

namespace Committed

/-- The input was answered with a page. -/
def TookEffect (c : Committed) : Prop := ∃ p : Page, c.outcome = .ok (.page p)

instance (c : Committed) : Decidable c.TookEffect :=
  match h : c.outcome with
  | .ok (.page p) => .isTrue ⟨p, h⟩
  | .ok .unchanged => .isFalse fun ⟨_, hp⟩ => by rw [h] at hp; cases hp
  | .ok .superseded => .isFalse fun ⟨_, hp⟩ => by rw [h] at hp; cases hp
  | .error _ => .isFalse fun ⟨_, hp⟩ => by rw [h] at hp; cases hp

/-- The query of the input and its results; nothing for an invalid query. -/
def display (c : Committed) : Option (Query × Results) :=
  match c.found with
  | .ok r => if c.pending.query.isValid then some (c.pending.query, r) else none
  | .error _ => none

end Committed

/-- A session and what has become of its inputs. -/
structure Course where
  session : Session := {}
  waiting : List Waiting := []
  /-- The committed inputs, the one committed last in front. -/
  committed : List Committed := []

/-- What can happen in the course of a session. -/
inductive SessionEvent where
  | begin (raw : String)
  | compute (ticket : Nat) (found : Except Fault Results)
  | commit (ticket : Nat)
  | goTo (page : Nat)

namespace SessionEvent

/-- A page is turned. -/
def IsGoTo (e : SessionEvent) : Prop := ∃ page : Nat, e = .goTo page

end SessionEvent

namespace Course

/-- The tickets given out so far. -/
def tickets (x : Course) : List Nat :=
  x.waiting.map (·.pending.ticket) ++ x.committed.map (·.pending.ticket)

/-- Begins an input. It waits, unless its query is that of the last accepted input. -/
def begin (x : Course) (raw : String) : Option (Except Fault Outcome) × Course :=
  match x.session.begin raw with
  | (none, session) => (some (.ok .unchanged), { x with session })
  | (some p, session) => (none, { x with session, waiting := ⟨p, none⟩ :: x.waiting })

/-- The results of a waiting input are there, or could not be computed. -/
def compute (x : Course) (ticket : Nat) (found : Except Fault Results) : Course :=
  { x with
    waiting := x.waiting.map fun w =>
      if w.pending.ticket = ticket ∧ w.found.isNone then { w with found := some found } else w }

/-- Commits a waiting input whose results are there. -/
def commit (x : Course) (render : Renderer) (p : Pending) (found : Except Fault Results) :
    Except Fault Outcome × Course :=
  let committed := x.session.commit render p found
  (committed.1,
    { session := committed.2
      waiting := x.waiting.filter fun w => w.pending.ticket ≠ p.ticket
      committed := ⟨p, found, committed.1⟩ :: x.committed })

/-- The answer to an input if the event gives one, and the course after the event. Committing an input
that does not wait, or whose results are not there, does nothing. -/
def act (x : Course) (render : Renderer) : SessionEvent → Option (Except Fault Outcome) × Course
  | .begin raw => x.begin raw
  | .compute ticket found => (none, x.compute ticket found)
  | .commit ticket =>
    match x.waiting.find? fun w => w.pending.ticket = ticket with
    | some ⟨p, some found⟩ => (some (x.commit render p found).1, (x.commit render p found).2)
    | _ => (none, x)
  | .goTo page => (none, { x with session := (x.session.goTo render page).2 })

/-- The course after some events. -/
def run (x : Course) (render : Renderer) (events : List SessionEvent) : Course :=
  events.foldl (fun x e => (x.act render e).2) x

/-! ## What an event can do -/

variable {x : Course} {render : Renderer}

/-- An input that is not begun leaves everything as it is; one that is begun gets the next ticket. -/
theorem begin_cases (x : Course) (raw : String) :
    x.begin raw = (some (.ok .unchanged), x) ∨
      x.begin raw = (none,
        { session := { x.session with
            last := some (Query.ofInput raw), latest := x.session.latest + 1 }
          waiting := ⟨⟨x.session.latest + 1, Query.ofInput raw⟩, none⟩ :: x.waiting
          committed := x.committed }) := by
  unfold begin Session.begin
  by_cases h : x.session.last = some (Query.ofInput raw)
  · exact .inl (by simp [h])
  · exact .inr (by simp [h])

/-- Committing does nothing, or commits an input that waits with its results. -/
theorem act_commit_cases (x : Course) (render : Renderer) (ticket : Nat) :
    x.act render (.commit ticket) = (none, x) ∨
      ∃ (p : Pending) (found : Except Fault Results), p.ticket = ticket ∧
        ⟨p, some found⟩ ∈ x.waiting ∧
        x.act render (.commit ticket) =
          (some (x.commit render p found).1, (x.commit render p found).2) := by
  simp only [act]
  split
  · rename_i p found h
    refine .inr ⟨p, found, ?_, List.mem_of_find?_eq_some h, rfl⟩
    simpa using List.find?_some h
  · exact .inl rfl

/-- The results of an input change no ticket. -/
theorem map_ticket_compute (x : Course) (ticket : Nat) (found : Except Fault Results) :
    (x.compute ticket found).waiting.map (·.pending.ticket) =
      x.waiting.map (·.pending.ticket) := by
  simp only [compute, List.map_map]
  refine List.map_congr_left fun w _ => ?_
  simp only [Function.comp_apply]
  split <;> rfl

/-- An input that is committed stays so. -/
theorem mem_committed_act {c : Committed} (h : c ∈ x.committed) (e : SessionEvent) :
    c ∈ (x.act render e).2.committed := by
  cases e with
  | begin raw => rcases begin_cases x raw with hb | hb <;> simpa only [act, hb] using h
  | compute ticket found => exact h
  | commit ticket =>
    rcases act_commit_cases x render ticket with hc | ⟨p, found, _, _, hc⟩
    · rw [hc]
      exact h
    · rw [hc]
      exact List.mem_cons_of_mem _ h
  | goTo page => exact h

theorem mem_committed_run {c : Committed} (h : c ∈ x.committed) (events : List SessionEvent) :
    c ∈ (x.run render events).committed := by
  unfold run
  induction events generalizing x with
  | nil => exact h
  | cons e events ih =>
    rw [List.foldl_cons]
    exact ih (mem_committed_act h e)

end Course

end VerseSearch
