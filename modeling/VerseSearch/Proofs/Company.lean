import VerseSearch.Proofs.Complete
import VerseSearch.Proofs.Visit

/-!
# Clients in company

Several clients have a session each over one service. Their steps come in any order, and between them
comes anything else that the service is asked for. All that the clients share is the service, and all
that its answers could give away is the table of recent results.

Main statement: where the library is complete, a client is answered as if it were alone with a
service that has just been started (`Company.replies_alone`). Two runs are compared, one in company
and one alone. What holds of them all the time is that both worlds are sound over the same corpora,
whatever their tables hold, and that the client is in the same state in both
(`Company.Alike`).
-/

set_option autoImplicit false

namespace VerseSearch

/-! ## Steps of a session -/

/-- A step of a client's session. -/
inductive SessionStep where
  | begin (raw : String)
  /-- The query of the waiting input with the ticket is answered by the service. -/
  | compute (ticket : Nat) (files : Files)
  | commit (ticket : Nat)
  | goTo (page : Nat)

/-- The reply to a step of a session, if there is one, and the visit after the step. Computing an
input that does not wait does nothing. -/
def Visit.own (v : Visit) : SessionStep → Option Reply × Visit
  | .begin raw => v.step (.enter raw)
  | .compute ticket files =>
    match v.waiting.find? fun e => e.pending.ticket = ticket with
    | some e => v.step (.compute ticket (.compute files e.pending.query))
    | none => (none, v)
  | .commit ticket => v.step (.commit ticket)
  | .goTo page => v.step (.turn page)

/-- What a client has: its session, and its inputs that are begun and not committed. -/
structure Seat where
  session : Session := {}
  waiting : List Entry := []

/-- A world and the clients in it. -/
structure Company where
  world : World
  seats : Nat → Seat

/-- What can happen in company. -/
inductive CompanyEvent where
  /-- Something in the world that is no client's step. -/
  | elsewhere (a : Action)
  | step (client : Nat) (e : SessionStep)

/-- Whether the event is a step of the client. -/
def CompanyEvent.isOf (client : Nat) : CompanyEvent → Bool
  | .elsewhere _ => false
  | .step i _ => i = client

namespace Company

/-- New clients in a world. -/
def gather (w : World) : Company := ⟨w, fun _ => {}⟩

/-- The company as a client sees it. -/
def visit (c : Company) (client : Nat) : Visit :=
  { world := c.world, session := (c.seats client).session, waiting := (c.seats client).waiting }

/-- The company after a client's step. -/
def seat (c : Company) (client : Nat) (v : Visit) : Company :=
  ⟨v.world, fun i => if i = client then ⟨v.session, v.waiting⟩ else c.seats i⟩

/-- The company after an event. -/
def act (c : Company) : CompanyEvent → Company
  | .elsewhere a => { c with world := (c.world.act a).2 }
  | .step client e => c.seat client ((c.visit client).own e).2

/-- What a client is told about an event: for a step of its own, the reply, and the number of the page
that its session is on then. -/
def told (c : Company) (client : Nat) : CompanyEvent → Option (Option Reply × Nat)
  | .elsewhere _ => none
  | .step i e =>
    if i = client then
      let stepped := (c.visit client).own e
      some (stepped.1, stepped.2.session.page)
    else none

/-- What a client is told about some events, in order. -/
def replies (c : Company) (client : Nat) : List CompanyEvent → List (Option Reply × Nat)
  | [] => []
  | e :: events => (c.told client e).toList ++ (c.act e).replies client events

end Company

/-! ## Services over the same corpora -/

namespace Service

/-- A truthful service over a complete library answers the computation of a query with what the query
finds. -/
theorem Truthful.compute_of_isComplete {s : Service} (h : s.Truthful)
    (hcomplete : s.library.IsComplete) (files : Files) (q : Query) :
    (s.compute files q).2.isReadyFor q = true ∧ (s.compute files q).1 = s.find q := by
  have hgrows := growsTo_compute s files q
  have hready : (s.compute files q).2.isReadyFor q = true := by
    unfold isReadyFor
    split
    · rfl
    · exact hcomplete.of_growsTo hgrows.library _
  refine ⟨hready, ((h.compute files q).2 hready).trans ?_⟩
  rw [find, find, hgrows.settings_eq]
  exact Library.find_congr (hcomplete.get?_of_growsTo hgrows.library) _ q

end Service

namespace World

/-- Two sound worlds with the same settings and the same corpora, one for each layer. The tables of
recent results may differ. -/
structure Alike (w w' : World) : Prop where
  sound : w.Sound
  sound' : w'.Sound
  complete : w.service.library.IsComplete
  settings_eq : w'.service.settings = w.service.settings
  get?_eq : ∀ layer, w'.service.library.get? layer = w.service.library.get? layer

variable {w w' : World}

theorem Alike.symm (h : w.Alike w') : w'.Alike w where
  sound := h.sound'
  sound' := h.sound
  complete := fun layer => (congrArg Option.isSome (h.get?_eq layer)).trans (h.complete layer)
  settings_eq := h.settings_eq.symm
  get?_eq := fun layer => (h.get?_eq layer).symm

/-- Nothing that happens in one of two worlds makes it different from the other. -/
theorem Alike.act (h : w.Alike w') (a : Action) : (w.act a).2.Alike w' where
  sound := h.sound.act a
  sound' := h.sound'
  complete := h.complete.of_growsTo (growsTo_act w a).library
  settings_eq := h.settings_eq.trans (growsTo_act w a).settings_eq.symm
  get?_eq := fun layer =>
    (h.get?_eq layer).trans (h.complete.get?_of_growsTo (growsTo_act w a).library layer).symm

/-- Pages are rendered alike. -/
theorem Alike.render_eq (h : w.Alike w') : w'.service.render = w.service.render := by
  funext q r page
  simp only [Service.render, Service.render, h.settings_eq]

/-- A computed query is answered alike. -/
theorem Alike.answer_eq (h : w.Alike w') (files : Files) (q : Query) :
    (w'.act (.compute files q)).1 = (w.act (.compute files q)).1 := by
  obtain ⟨hready, hfound⟩ := h.sound.entries.compute_of_isComplete h.complete files q
  obtain ⟨hready', hfound'⟩ := h.sound'.entries.compute_of_isComplete h.symm.complete files q
  have hfind : w'.service.find q = w.service.find q := by
    rw [Service.find, Service.find, h.settings_eq]
    exact Library.find_congr h.get?_eq _ q
  simp only [World.act, hready, hready', if_true, hfound, hfound', hfind]

end World

/-! ## A client in company and alone -/

namespace Visit

variable {v v' : Visit}

/-- A step of a session moves the world by one action at most. -/
theorem world_own (v : Visit) (e : SessionStep) :
    (v.own e).2.world = v.world ∨ ∃ a, (v.own e).2.world = (v.world.act a).2 := by
  cases e with
  | begin raw =>
    left
    show (v.enter raw).2.world = v.world
    unfold enter
    split <;> rfl
  | compute ticket files =>
    simp only [own]
    split
    · rename_i e _
      right
      refine ⟨.compute files e.pending.query, ?_⟩
      show (v.compute ticket _).world = _
      unfold compute
      split <;> rfl
    · exact .inl rfl
  | commit ticket =>
    left
    simp only [own, step]
    split <;> rfl
  | goTo page => exact .inl rfl

/-- A step of a session does the same to the same session in both of two like worlds. -/
theorem own_congr (h : v.world.Alike v'.world) (hsession : v'.session = v.session)
    (hwaiting : v'.waiting = v.waiting) (e : SessionStep) :
    (v'.own e).1 = (v.own e).1 ∧ (v'.own e).2.session = (v.own e).2.session ∧
      (v'.own e).2.waiting = (v.own e).2.waiting := by
  cases e with
  | begin raw =>
    show (v'.enter raw).1 = (v.enter raw).1 ∧ (v'.enter raw).2.session = (v.enter raw).2.session ∧
      (v'.enter raw).2.waiting = (v.enter raw).2.waiting
    unfold enter
    rw [hsession]
    split
    · exact ⟨rfl, rfl, hwaiting⟩
    · exact ⟨rfl, rfl, by rw [hwaiting]⟩
  | compute ticket files =>
    simp only [own, hwaiting]
    split
    · rename_i e _
      simp only [step, compute, h.answer_eq, true_and]
      split
      · exact ⟨hsession, hwaiting⟩
      · simp only [note, hsession, hwaiting, and_self]
    · exact ⟨rfl, hsession, hwaiting⟩
  | commit ticket =>
    simp only [own, step, hwaiting]
    split
    · simp only [commit, hsession, hwaiting, h.render_eq, and_self]
    · exact ⟨rfl, hsession, hwaiting⟩
  | goTo page => simp only [own, step, hsession, hwaiting, h.render_eq, and_self]

end Visit

namespace Company

variable {c c' : Company} {client : Nat}

/-- Two companies in like worlds, in which the client has the same. -/
structure Alike (client : Nat) (c c' : Company) : Prop where
  world : c.world.Alike c'.world
  seat_eq : c'.seats client = c.seats client

/-- What happens in the first world only makes no difference to the client. -/
theorem Alike.withWorld (h : c.Alike client c') {w : World}
    (hw : w = c.world ∨ ∃ a, w = (c.world.act a).2) : w.Alike c'.world := by
  rcases hw with rfl | ⟨a, rfl⟩
  · exact h.world
  · exact h.world.act a

/-- The client is told nothing about other events, and they make no difference to it. -/
theorem Alike.act_of_not_isOf (h : c.Alike client c') {e : CompanyEvent}
    (he : e.isOf client = false) : (c.act e).Alike client c' ∧ c.told client e = none := by
  cases e with
  | elsewhere a => exact ⟨⟨h.world.act a, h.seat_eq⟩, rfl⟩
  | step i e =>
    have hne : i ≠ client := of_decide_eq_false he
    refine ⟨⟨h.withWorld ((c.visit i).world_own e), ?_⟩, by rw [told, if_neg hne]⟩
    exact h.seat_eq.trans (if_neg hne.symm).symm

/-- The client is told the same about a step of its own, and it has the same afterwards. -/
theorem Alike.act_of_isOf (h : c.Alike client c') {e : CompanyEvent} (he : e.isOf client = true) :
    (c.act e).Alike client (c'.act e) ∧ c'.told client e = c.told client e := by
  cases e with
  | elsewhere a => cases he
  | step i e =>
    obtain rfl : i = client := of_decide_eq_true he
    have hvisits : (c.visit i).world.Alike (c'.visit i).world := h.world
    obtain ⟨hreply, hsession, hwaiting⟩ := Visit.own_congr hvisits
      (congrArg Seat.session h.seat_eq) (congrArg Seat.waiting h.seat_eq) e
    have hleft : ((c.visit i).own e).2.world.Alike c'.world := h.withWorld ((c.visit i).world_own e)
    refine ⟨⟨?_, ?_⟩, ?_⟩
    · show ((c.visit i).own e).2.world.Alike ((c'.visit i).own e).2.world
      rcases (c'.visit i).world_own e with hworld | ⟨a, hworld⟩
      · rw [hworld]
        exact hleft
      · rw [hworld]
        exact (hleft.symm.act a).symm
    · simp only [act, seat, if_true, hsession, hwaiting]
    · simp only [told, if_true, hreply, hsession]

/-- The replies to a client in company are the replies to its own steps alone. -/
theorem Alike.replies_eq (h : c.Alike client c') (events : List CompanyEvent) :
    c.replies client events = c'.replies client (events.filter (CompanyEvent.isOf client)) := by
  induction events generalizing c c' with
  | nil => rfl
  | cons e events ih =>
    cases he : e.isOf client with
    | false =>
      obtain ⟨hact, htold⟩ := h.act_of_not_isOf he
      rw [List.filter_cons_of_neg (by simp [he]), replies, htold]
      exact ih hact
    | true =>
      obtain ⟨hact, htold⟩ := h.act_of_isOf he
      rw [List.filter_cons_of_pos he, replies, replies, htold, ih hact]

/-- Sessions over one service do not influence one another. Once the library is complete, however
that came about and whatever the table of recent results holds, each of several clients is told
exactly what it would be told about its own steps alone, in a service with the same settings and
corpora that has just been started: the outcomes of its inputs, the pages it turns to, the faults,
and the page it is on. The steps of the clients come in any order, with anything else that the
service is asked for between them. -/
theorem replies_alone (settings : Settings) (library : Library) (before : List Action)
    (hcomplete : ((World.start settings library).run before).service.library.IsComplete)
    (events : List CompanyEvent) (client : Nat) :
    let w := (World.start settings library).run before
    let fresh := World.start w.service.settings w.service.library
    (gather w).replies client events =
      (gather fresh).replies client (events.filter (CompanyEvent.isOf client)) := by
  intro w fresh
  have hworld : w.Alike fresh :=
    { sound := (World.sound_start settings library).run before
      sound' := World.sound_start w.service.settings w.service.library
      complete := hcomplete
      settings_eq := rfl
      get?_eq := fun _ => rfl }
  have halike : (gather w).Alike client (gather fresh) := ⟨hworld, rfl⟩
  exact halike.replies_eq events

/-- Two clients over one service, whose table was forgotten while they were computing. The first one
is answered as if the other had not been there. -/
theorem replies_to_first_of_two :
    let verse : Verse :=
      ⟨"\u0642\u064F\u0644\u0652", 1, 112, "\u0627\u0644\u0625\u062E\u0644\u0627\u0635"⟩
    let library : Library :=
      { directory := "data", letters := some ⟨.letters, [verse]⟩, marks := some ⟨.marks, [verse]⟩ }
    let w := (World.start (.usual "data") library).run [.search "\u0642\u0644" 1]
    let noFiles : Files := fun _ => none
    w.service.library.IsComplete ∧ (gather w).replies 0
        [.step 0 (.begin "\u0642\u0644"), .step 1 (.begin "\u0642\u0644"),
          .step 1 (.compute 1 noFiles), .elsewhere .forget, .step 0 (.compute 1 noFiles),
          .step 1 (.commit 1), .step 0 (.commit 1), .step 1 (.begin "112"), .step 0 (.goTo 2)] =
      (gather (World.start (.usual "data") library)).replies 0
        [.step 0 (.begin "\u0642\u0644"), .step 0 (.compute 1 noFiles), .step 0 (.commit 1),
          .step 0 (.goTo 2)] := by
  intro verse library w noFiles
  have hgrows := World.growsTo_run (World.start (.usual "data") library) [.search "\u0642\u0644" 1]
  have hcomplete : w.service.library.IsComplete :=
    Library.IsComplete.of_growsTo (l := library) (fun layer => by cases layer <;> rfl)
      hgrows.library
  have hsettings : w.service.settings = .usual "data" := hgrows.settings_eq
  have hlibrary : w.service.library = library :=
    (congrArg Service.library (Service.search_snd _ _ 1)).trans (Service.library_results _ _)
  refine ⟨hcomplete, ?_⟩
  rw [← hsettings, ← hlibrary]
  exact replies_alone (.usual "data") library [.search "\u0642\u0644" 1] hcomplete _ 0

end Company

end VerseSearch
