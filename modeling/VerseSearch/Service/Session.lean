import VerseSearch.Service.Basic

/-!
# Sessions

A session belongs to one client. Its inputs may overlap: an input is begun and gets a ticket, its
results are computed in the meantime, and then it is committed. Only the input with the latest
ticket takes effect when it is committed (`commit_of_superseded`); what is shown is always the last
input that took effect.

The steps of a session do not depend on how results are computed and pages are rendered; the
service's way to do both is `Service.compute` and `Service.render`.
-/

set_option autoImplicit false

namespace VerseSearch

/-- How a page of results is rendered. -/
abbrev Renderer := Query → Results → Nat → Except Fault Page

/-- What became of an input. -/
inductive Outcome where
  /-- The first page of the new query. -/
  | page (p : Page)
  /-- The query is the one of the input before; nothing was computed. -/
  | unchanged
  /-- A newer input came in the meantime. -/
  | superseded
deriving DecidableEq, Repr

/-- An input that is begun and not committed. -/
structure Pending where
  ticket : Nat
  query : Query
deriving DecidableEq, Repr

/-- What a session remembers. -/
structure Session where
  /-- The last ticket given out. -/
  latest : Nat := 0
  /-- The query of the last input accepted, whether or not its results are there. -/
  last : Option Query := none
  /-- The query on display and its results. -/
  shown : Option (Query × Results) := none
  /-- The number of the page on display; 0 before the first. -/
  page : Nat := 0
deriving DecidableEq, Repr

namespace Session

/-- Begins an input. The same query as that of the last accepted input is not begun again. -/
def begin (s : Session) (raw : String) : Option Pending × Session :=
  let query := Query.ofInput raw
  if s.last = some query then (none, s)
  else
    (some ⟨s.latest + 1, query⟩, { s with last := some query, latest := s.latest + 1 })

/-- Commits an input with the results computed for it. -/
def commit (s : Session) (render : Renderer) (p : Pending) (found : Except Fault Results) :
    Except Fault Outcome × Session :=
  if p.ticket ≠ s.latest then (.ok .superseded, s)
  else
    match found with
    | .error fault => (.error fault, { s with last := none })
    | .ok r =>
      match render p.query r 1 with
      | .error fault => (.error fault, s)
      | .ok page =>
        (.ok (.page page),
          { s with page := 1, shown := if p.query.isValid then some (p.query, r) else none })

/-- Shows another page of the query on display. -/
def goTo (s : Session) (render : Renderer) (page : Nat) : Except Fault (Option Page) × Session :=
  match s.shown with
  | none => (.ok none, s)
  | some (q, r) =>
    match render q r page with
    | .error fault => (.error fault, s)
    | .ok p => (.ok (some p), { s with page := p.number })

/-! ## Laws -/

/-- An input that is not the latest changes nothing. -/
theorem commit_of_superseded {s : Session} {p : Pending} (h : p.ticket ≠ s.latest)
    (render : Renderer) (found : Except Fault Results) :
    s.commit render p found = (.ok .superseded, s) := by
  simp [commit, h]

/-- An input that fails leaves the display as it is. -/
theorem shown_commit_of_error {s : Session} {p : Pending} {render : Renderer}
    {found : Except Fault Results} {fault : Fault}
    (h : (s.commit render p found).1 = .error fault) :
    (s.commit render p found).2.shown = s.shown ∧ (s.commit render p found).2.page = s.page := by
  unfold commit at h ⊢
  split
  · exact ⟨rfl, rfl⟩
  · rename_i hl
    rw [if_neg hl] at h
    split
    · exact ⟨rfl, rfl⟩
    · split
      · exact ⟨rfl, rfl⟩
      · simp_all

end Session

namespace Service

/-- The results of a query, whose corpus is loaded if it is not installed. -/
def compute (s : Service) (files : Files) (q : Query) : Except Fault Results × Service :=
  match q.layer? with
  | none => s.results q
  | some layer =>
    match s.load files layer with
    | (.error fault, s') => (.error fault, s')
    | (.ok _, s') => s'.results q

/-- Computes a begun input and commits it. -/
def finish (s : Service) (files : Files) (session : Session) (p : Pending) :
    Except Fault Outcome × Service × Session :=
  let computed := s.compute files p.query
  let committed := session.commit computed.2.render p computed.1
  (committed.1, computed.2, committed.2)

/-- Runs an input from beginning to end. -/
def input (s : Service) (files : Files) (session : Session) (raw : String) :
    Except Fault Outcome × Service × Session :=
  match session.begin raw with
  | (none, session) => (.ok .unchanged, s, session)
  | (some p, session) => s.finish files session p

/-- Whether a query can be computed without reading a file. -/
def isReadyFor (s : Service) (q : Query) : Bool :=
  match q.layer? with
  | none => true
  | some layer => (s.library.get? layer).isSome

/-- Begins several inputs of one session in order. Those that need no file are finished at once; the
others are left pending. -/
def beginAll (s : Service) (files : Files) (session : Session) :
    List String → List (Except Fault Outcome ⊕ Pending) × Service × Session
  | [] => ([], s, session)
  | raw :: raws =>
    match session.begin raw with
    | (none, session) =>
      let rest := s.beginAll files session raws
      (.inl (.ok .unchanged) :: rest.1, rest.2)
    | (some p, session) =>
      if s.isReadyFor p.query then
        let done := s.finish files session p
        let rest := done.2.1.beginAll files done.2.2 raws
        (.inl done.1 :: rest.1, rest.2)
      else
        let rest := s.beginAll files session raws
        (.inr p :: rest.1, rest.2)

/-- Finishes the inputs that are left pending, in order. -/
def finishAll (s : Service) (files : Files) (session : Session) :
    List (Except Fault Outcome ⊕ Pending) → List (Except Fault Outcome) × Service × Session
  | [] => ([], s, session)
  | .inl outcome :: more =>
    let rest := s.finishAll files session more
    (outcome :: rest.1, rest.2)
  | .inr p :: more =>
    let done := s.finish files session p
    let rest := done.2.1.finishAll files done.2.2 more
    (done.1 :: rest.1, rest.2)

/-- Runs several inputs of one session at once: no file is read until all are begun. -/
def race (s : Service) (files : Files) (session : Session) (raws : List String) :
    List (Except Fault Outcome) × Service × Session :=
  let begun := s.beginAll files session raws
  begun.2.1.finishAll files begun.2.2 begun.1

end Service

end VerseSearch
