import VerseSearch.Proofs.Finding
import VerseSearch.Proofs.LastInput
import VerseSearch.Proofs.Transparency
import VerseSearch.Proofs.Tries

/-!
# What an unchanged input repeats

An input with the query of the last accepted one is answered as unchanged, before anything is
computed for it. The session remembers that query from the moment it is accepted, and forgets it if
its computation fails. The invariant is `Course.Remembers`: as long as a query is remembered, it is
that of the input with the highest ticket, which waits or had its results rendered.

Committing has a second exit with a fault, for a page that cannot be rendered, and there the query
stays remembered. So the invariant says of a committed input no more than that its answer is what
rendering gave. Where that is a fault, the same text is not computed again when it is entered again,
but answered as unchanged (`Course.unchanged_repeats_display`).
-/

set_option autoImplicit false

namespace VerseSearch

/-- A commit of the latest input forgets the query if its computation failed. If not, the answer is
what rendering the first page gives, and the query stays remembered. -/
theorem Session.commit_of_latest {s : Session} {p : Pending} (h : p.ticket = s.latest)
    (render : Renderer) (found : Except Fault Results) :
    (∃ fault : Fault, found = .error fault ∧
        s.commit render p found = (.error fault, { s with last := none })) ∨
      ∃ r : Results, found = .ok r ∧
        (s.commit render p found).1 = (render p.query r 1).map .page ∧
        (s.commit render p found).2.last = s.last := by
  cases found with
  | error fault => exact .inl ⟨fault, rfl, by simp [commit, h]⟩
  | ok r =>
    refine .inr ⟨r, rfl, ?_⟩
    cases hr : render p.query r 1 with
    | error fault => simp [commit, h, hr, Except.map]
    | ok page => simp [commit, h, hr, Except.map]

/-- The results of the input were found, and it was answered with their first page, or with the
fault that rendering it gave. -/
def Committed.IsRendered (c : Committed) (render : Renderer) : Prop :=
  ∃ r : Results, c.found = .ok r ∧ c.outcome = (render c.pending.query r 1).map .page

/-- The results of the input were found, and rendering their first page failed. -/
def Committed.IsUnrendered (c : Committed) (render : Renderer) : Prop :=
  ∃ (r : Results) (fault : Fault), c.found = .ok r ∧ render c.pending.query r 1 = .error fault ∧
    c.outcome = .error fault

/-- An input whose results were rendered took effect, or its page could not be rendered. -/
theorem Committed.IsRendered.tookEffect_or {c : Committed} {render : Renderer}
    (h : c.IsRendered render) : c.TookEffect ∨ c.IsUnrendered render := by
  obtain ⟨r, hfound, houtcome⟩ := h
  cases hr : render c.pending.query r 1 with
  | ok page => exact .inl ⟨page, by rw [houtcome, hr]; rfl⟩
  | error fault => exact .inr ⟨r, fault, hfound, hr, by rw [houtcome, hr]; rfl⟩

/-- An input is begun. -/
def SessionEvent.IsBegin (e : SessionEvent) : Prop := ∃ raw : String, e = .begin raw

namespace Course

/-- The query that is remembered is that of the input with the latest ticket, which waits or had its
results rendered. -/
structure Remembers (x : Course) (render : Renderer) : Prop where
  orderly : x.Orderly
  begun : x.session.last ≠ none → x.session.latest ≠ 0
  waiting : ∀ w ∈ x.waiting, w.pending.ticket = x.session.latest →
    x.session.last = some w.pending.query
  committed : ∀ c ∈ x.committed, c.pending.ticket = x.session.latest →
    ∀ q : Query, x.session.last = some q → c.pending.query = q ∧ c.IsRendered render

theorem remembers_start (render : Renderer) : ({} : Course).Remembers render where
  orderly := orderly_start
  begun := fun h => absurd rfl h
  waiting := fun _ h => by cases h
  committed := fun _ h => by cases h

variable {x : Course} {render : Renderer}

theorem Remembers.begin (h : x.Remembers render) (raw : String) :
    (x.begin raw).2.Remembers render := by
  have horderly := h.orderly.begin raw
  rcases begin_cases x raw with hb | hb
  · rw [hb]
    exact h
  · rw [hb] at horderly ⊢
    -- every other input has a lower ticket than the new one
    have hne : ∀ t ∈ x.tickets, t ≠ x.session.latest + 1 :=
      fun t ht => Nat.ne_of_lt (Nat.lt_succ_of_le (h.orderly.le_latest t ht))
    refine ⟨horderly, fun _ => Nat.succ_ne_zero _, ?_, ?_⟩
    · intro w hw hticket
      rcases List.mem_cons.1 hw with rfl | hw
      · rfl
      · exact absurd hticket (hne _ (mem_tickets.2 (.inl ⟨w, hw, rfl⟩)))
    · intro c hc hticket
      exact absurd hticket (hne _ (mem_tickets.2 (.inr ⟨c, hc, rfl⟩)))

theorem Remembers.compute (h : x.Remembers render) (ticket : Nat) (found : Except Fault Results) :
    (x.compute ticket found).Remembers render := by
  refine ⟨h.orderly.compute ticket found, h.begun, ?_, h.committed⟩
  intro w hw hticket
  obtain ⟨v, hv, rfl⟩ := List.mem_map.1 hw
  have hpending : (if v.pending.ticket = ticket ∧ v.found.isNone then
      { v with found := some found } else v).pending = v.pending := by
    split <;> rfl
  rw [hpending] at hticket ⊢
  exact h.waiting v hv hticket

/-- An input that comes too late leaves the session as it is. -/
theorem Remembers.commit_of_superseded (h : x.Remembers render) {p : Pending}
    {found : Except Fault Results} (hp : ⟨p, some found⟩ ∈ x.waiting)
    (hticket : p.ticket ≠ x.session.latest) : (x.commit render p found).2.Remembers render := by
  have hsession : (x.commit render p found).2.session = x.session :=
    congrArg Prod.snd (Session.commit_of_superseded hticket render found)
  refine ⟨h.orderly.commit hp, ?_, ?_, ?_⟩
  · rw [hsession]
    exact h.begun
  · intro w hw
    rw [hsession]
    exact h.waiting w (List.mem_filter.1 hw).1
  · intro c hc hlatest
    rw [hsession] at hlatest ⊢
    rcases List.mem_cons.1 hc with rfl | hc
    · exact absurd hlatest hticket
    · exact h.committed c hc hlatest

/-- The latest input is forgotten, or had its results rendered. Nothing that still waits has its
ticket. -/
theorem Remembers.commit_of_latest (h : x.Remembers render) {p : Pending}
    {found : Except Fault Results} (hp : ⟨p, some found⟩ ∈ x.waiting)
    (hticket : p.ticket = x.session.latest) : (x.commit render p found).2.Remembers render := by
  have horderly : (x.commit render p found).2.Orderly := h.orderly.commit hp
  have hlatest : (x.commit render p found).2.session.latest = x.session.latest :=
    Session.latest_commit x.session render p found
  have hwaiting : ∀ w ∈ (x.commit render p found).2.waiting,
      w.pending.ticket ≠ (x.commit render p found).2.session.latest := by
    intro w hw
    rw [hlatest, ← hticket]
    simpa using (List.mem_filter.1 hw).2
  rcases Session.commit_of_latest hticket render found with
    ⟨fault, rfl, hc⟩ | ⟨r, rfl, hanswer, hlast⟩
  · have hnone : (x.commit render p (.error fault)).2.session.last = none :=
      congrArg (fun c => c.2.last) hc
    refine ⟨horderly, fun hsome => absurd hnone hsome, ?_, ?_⟩
    · intro w hw hw'
      exact absurd hw' (hwaiting w hw)
    · intro c _ _ q hq
      rw [hnone] at hq
      cases hq
  · refine ⟨horderly, ?_, ?_, ?_⟩
    · intro hsome
      rw [hlatest]
      exact h.begun fun hnone => hsome (hlast.trans hnone)
    · intro w hw hw'
      exact absurd hw' (hwaiting w hw)
    · intro c hc hc' q hq
      have hq' : x.session.last = some q := hlast.symm.trans hq
      rcases List.mem_cons.1 hc with rfl | hc
      · have hquery := h.waiting _ hp hticket
        rw [hq'] at hquery
        exact ⟨(Option.some.inj hquery).symm, r, rfl, hanswer⟩
      · exact h.committed c hc (hc'.trans hlatest) q hq'

/-- Every event keeps what is remembered. -/
theorem Remembers.act (h : x.Remembers render) (e : SessionEvent) :
    (x.act render e).2.Remembers render := by
  cases e with
  | begin raw => exact h.begin raw
  | compute ticket found => exact h.compute ticket found
  | commit ticket =>
    rcases act_commit_cases x render ticket with hc | ⟨p, found, _, hp, hc⟩
    · rw [hc]
      exact h
    · rw [hc]
      by_cases hticket : p.ticket = x.session.latest
      · exact h.commit_of_latest hp hticket
      · exact h.commit_of_superseded hp hticket
  | goTo page =>
    have horderly : (x.act render (.goTo page)).2.Orderly := h.orderly.act (.goTo page)
    obtain ⟨number, hg⟩ := x.session.goTo_snd render page
    simp only [Course.act, hg] at horderly ⊢
    exact ⟨horderly, h.begun, h.waiting, h.committed⟩

theorem Remembers.run (h : x.Remembers render) (events : List SessionEvent) :
    (x.run render events).Remembers render := by
  unfold Course.run
  induction events generalizing x with
  | nil => exact h
  | cons e events ih =>
    rw [List.foldl_cons]
    exact ih (h.act e)

/-! ## What an unchanged input repeats -/

/-- An input is unchanged exactly if its query is remembered. -/
theorem begin_eq_unchanged_iff (x : Course) (raw : String) :
    (x.begin raw).1 = some (.ok .unchanged) ↔ x.session.last = some (Query.ofInput raw) := by
  unfold begin Session.begin
  by_cases h : x.session.last = some (Query.ofInput raw) <;> simp [h]

/-- As long as a query is remembered there is an input with the highest ticket. -/
theorem Remembers.exists_highest (h : x.Remembers render) {q : Query}
    (hq : x.session.last = some q) : ∃ t ∈ x.tickets, ∀ t' ∈ x.tickets, t' ≤ t := by
  have hbegun : x.session.latest ≠ 0 := h.begun (by rw [hq]; exact Option.some_ne_none q)
  rcases h.orderly.latest_mem with hzero | hmem
  · exact absurd hzero hbegun
  · exact ⟨x.session.latest, hmem, h.orderly.le_latest⟩

/-- The highest ticket of all is the latest one. -/
theorem Orderly.eq_latest (h : x.Orderly) {t : Nat} (ht : t ∈ x.tickets)
    (hmax : ∀ t' ∈ x.tickets, t' ≤ t) : t = x.session.latest := by
  have hlatest : x.session.latest ≤ t := by
    rcases h.latest_mem with hzero | hmem
    · rw [hzero]
      exact Nat.zero_le t
    · exact hmax _ hmem
  exact Nat.le_antisymm (h.le_latest t ht) hlatest

/-- If nothing waits and the input with the latest ticket took effect, its query is on display. -/
theorem Remembers.shown (h : x.Remembers render) {q : Query} (hq : x.session.last = some q)
    (hdone : x.waiting = []) (heffect : ∀ c ∈ x.committed,
      c.pending.ticket = x.session.latest → c.TookEffect) :
    x.session.shown.map Prod.fst = if q.isValid then some q else none := by
  obtain ⟨t, ht, hmax⟩ := h.exists_highest hq
  have hlatest := h.orderly.eq_latest ht hmax
  rcases mem_tickets.1 ht with ⟨w, hw, _⟩ | ⟨c, hc, rfl⟩
  · rw [hdone] at hw
    cases hw
  · obtain ⟨rfl, r, hr, _⟩ := h.committed c hc hlatest q hq
    have hshown := h.orderly.shown_eq_display hc (heffect c hc hlatest) fun d hd _ =>
      hmax _ (mem_tickets.2 (.inr ⟨d, hd, rfl⟩))
    simp only [hshown, Committed.display, hr]
    split <;> rfl

/-! ## What is forgotten -/

/-- A query that is forgotten stays so until an input is begun. -/
theorem last_run_eq_none (hlast : x.session.last = none) {events : List SessionEvent}
    (hevents : ∀ e ∈ events, ¬ e.IsBegin) : (x.run render events).session.last = none := by
  unfold run
  induction events generalizing x with
  | nil => exact hlast
  | cons e events ih =>
    rw [List.foldl_cons]
    refine ih ?_ fun e' he' => hevents e' (List.mem_cons_of_mem e he')
    cases e with
    | begin raw => exact absurd ⟨raw, rfl⟩ (hevents _ List.mem_cons_self)
    | compute ticket found => exact hlast
    | commit ticket =>
      rcases act_commit_cases x render ticket with hc | ⟨p, found, _, _, hc⟩
      · rw [hc]
        exact hlast
      · rw [hc]
        show (x.session.commit render p found).2.last = none
        by_cases hticket : p.ticket = x.session.latest
        · rcases Session.commit_of_latest hticket render found with ⟨_, _, h⟩ | ⟨_, _, _, h⟩
          · rw [h]
          · rw [h, hlast]
        · rw [Session.commit_of_superseded hticket]
          exact hlast
    | goTo page =>
      obtain ⟨number, hg⟩ := x.session.goTo_snd render page
      simp only [act, hg]
      exact hlast

/-- A query that is remembered, with nothing waiting that has the latest ticket, stays so until an
input is begun. -/
theorem last_run_eq_some {q : Query} (hlast : x.session.last = some q)
    (hwaiting : ∀ w ∈ x.waiting, w.pending.ticket ≠ x.session.latest) {events : List SessionEvent}
    (hevents : ∀ e ∈ events, ¬ e.IsBegin) : (x.run render events).session.last = some q := by
  unfold run
  induction events generalizing x with
  | nil => exact hlast
  | cons e events ih =>
    rw [List.foldl_cons]
    have hmore := fun e' he' => hevents e' (List.mem_cons_of_mem e he')
    cases e with
    | begin raw => exact absurd ⟨raw, rfl⟩ (hevents _ List.mem_cons_self)
    | compute ticket found =>
      refine ih hlast (fun w hw => ?_) hmore
      have hticket : w.pending.ticket ∈ (x.compute ticket found).waiting.map (·.pending.ticket) :=
        List.mem_map_of_mem hw
      rw [map_ticket_compute] at hticket
      obtain ⟨v, hv, hvw⟩ := List.mem_map.1 hticket
      exact hvw ▸ hwaiting v hv
    | commit ticket =>
      rcases act_commit_cases x render ticket with hc | ⟨p, found, _, hp, hc⟩
      · rw [hc]
        exact ih hlast hwaiting hmore
      · rw [hc]
        have hsession : (x.commit render p found).2.session = x.session :=
          congrArg Prod.snd (Session.commit_of_superseded (hwaiting _ hp) render found)
        refine ih (by rw [hsession, hlast]) (fun w hw => ?_) hmore
        rw [hsession]
        exact hwaiting w (List.mem_filter.1 hw).1
    | goTo page =>
      obtain ⟨number, hg⟩ := x.session.goTo_snd render page
      simp only [act, hg]
      exact ih hlast hwaiting hmore

/-- A commit is answered with a fault because the computation failed, and then the query is
forgotten, or because the page could not be rendered, and then it stays remembered. -/
theorem Remembers.act_commit_eq_fault (h : x.Remembers render) {ticket : Nat} {fault : Fault}
    (hfault : (x.act render (.commit ticket)).1 = some (.error fault)) :
    ∃ (p : Pending) (found : Except Fault Results), p.ticket = ticket ∧
      ⟨p, some found⟩ ∈ x.waiting ∧
      ((found = .error fault ∧ (x.act render (.commit ticket)).2.session.last = none) ∨
        ∃ r : Results, found = .ok r ∧ render p.query r 1 = .error fault ∧
          (x.act render (.commit ticket)).2.session.last = some p.query ∧
          ∀ w ∈ (x.act render (.commit ticket)).2.waiting,
            w.pending.ticket ≠ (x.act render (.commit ticket)).2.session.latest) := by
  rcases act_commit_cases x render ticket with hc | ⟨p, found, hpt, hp, hc⟩
  · rw [hc] at hfault
    cases hfault
  · rw [hc] at hfault ⊢
    have hanswer : (x.session.commit render p found).1 = .error fault := Option.some.inj hfault
    refine ⟨p, found, hpt, hp, ?_⟩
    by_cases hticket : p.ticket = x.session.latest
    · rcases Session.commit_of_latest hticket render found with
        ⟨fault', rfl, hcommit⟩ | ⟨r, rfl, hrendered, hlast⟩
      · rw [hcommit] at hanswer
        cases hanswer
        exact .inl ⟨rfl, congrArg (fun c => c.2.last) hcommit⟩
      · refine .inr ⟨r, rfl, ?_, hlast.trans (h.waiting _ hp hticket), fun w hw => ?_⟩
        · rw [hrendered] at hanswer
          cases hr : render p.query r 1 with
          | ok page =>
            rw [hr] at hanswer
            cases hanswer
          | error fault' =>
            rw [hr] at hanswer
            cases hanswer
            rfl
        · have hlatest : (x.commit render p (.ok r)).2.session.latest = x.session.latest :=
            Session.latest_commit x.session render p (.ok r)
          rw [hlatest, ← hticket]
          simpa using (List.mem_filter.1 hw).2
    · rw [Session.commit_of_superseded hticket] at hanswer
      cases hanswer

/-- What is forgotten is begun anew, with a ticket above all others. -/
theorem Orderly.begin_of_forgotten (h : x.Orderly) (hlast : x.session.last = none) (raw : String) :
    (x.begin raw).1 = none ∧ ∃ w ∈ (x.begin raw).2.waiting,
      w.pending.query = Query.ofInput raw ∧ w.found = none ∧
        ∀ t ∈ x.tickets, t < w.pending.ticket := by
  rcases begin_cases x raw with hb | hb
  · have hunchanged := (begin_eq_unchanged_iff x raw).1 (congrArg Prod.fst hb)
    rw [hlast] at hunchanged
    cases hunchanged
  · rw [hb]
    exact ⟨rfl, _, List.mem_cons_self, rfl, rfl,
      fun t ht => Nat.lt_succ_of_le (h.le_latest t ht)⟩

/-! ## Every course -/

/-- In every course of a session, however its results are computed and its pages are rendered, an
input that is answered as unchanged repeats the query of the input with the highest ticket, which
still waits, or was answered with a page, or could not be rendered. If nothing waits and it was
answered with a page, the query is on display, or it is invalid and nothing is.

After an input was answered with a fault it depends on the fault. If the computation failed, whatever
is entered next is begun and computed. If the page could not be rendered, the same query is answered
as unchanged until another one is begun. -/
theorem unchanged_repeats_display (render : Renderer) (events : List SessionEvent) (raw : String) :
    let x := ({} : Course).run render events
    let q := Query.ofInput raw
    ((x.begin raw).1 = some (.ok .unchanged) →
      (∃ t ∈ x.tickets, ∀ t' ∈ x.tickets, t' ≤ t) ∧
      (∀ w ∈ x.waiting, (∀ t ∈ x.tickets, t ≤ w.pending.ticket) → w.pending.query = q) ∧
      (∀ c ∈ x.committed, (∀ t ∈ x.tickets, t ≤ c.pending.ticket) →
        c.pending.query = q ∧ (c.TookEffect ∨ c.IsUnrendered render)) ∧
      (x.waiting = [] → (∀ c ∈ x.committed, ¬ c.IsUnrendered render) →
        x.session.shown.map Prod.fst = if q.isValid then some q else none)) ∧
      ∀ (ticket : Nat) (fault : Fault),
        (x.act render (.commit ticket)).1 = some (.error fault) →
        ∃ (p : Pending) (found : Except Fault Results), p.ticket = ticket ∧
          ⟨p, some found⟩ ∈ x.waiting ∧
          ∀ more : List SessionEvent, (∀ e ∈ more, ¬ e.IsBegin) →
            let y := (x.act render (.commit ticket)).2.run render more
            (found = .error fault ∧ (y.begin raw).1 = none ∧ ∃ w ∈ (y.begin raw).2.waiting,
              w.pending.query = q ∧ w.found = none ∧ ∀ t ∈ y.tickets, t < w.pending.ticket) ∨
            ∃ r : Results, found = .ok r ∧ render p.query r 1 = .error fault ∧
              ((y.begin raw).1 = some (.ok .unchanged) ↔ q = p.query) := by
  intro x q
  have hx : x.Remembers render := (remembers_start render).run events
  constructor
  · intro hunchanged
    have hlast : x.session.last = some q := (begin_eq_unchanged_iff x raw).1 hunchanged
    have hanswered : ∀ c ∈ x.committed, c.pending.ticket = x.session.latest →
        c.pending.query = q ∧ (c.TookEffect ∨ c.IsUnrendered render) := by
      intro c hc hticket
      obtain ⟨hquery, hrendered⟩ := hx.committed c hc hticket q hlast
      exact ⟨hquery, hrendered.tookEffect_or⟩
    refine ⟨hx.exists_highest hlast, ?_, ?_, ?_⟩
    · intro w hw hmax
      have hticket := hx.orderly.eq_latest (mem_tickets.2 (.inl ⟨w, hw, rfl⟩)) hmax
      exact Option.some.inj ((hx.waiting w hw hticket).symm.trans hlast)
    · intro c hc hmax
      exact hanswered c hc (hx.orderly.eq_latest (mem_tickets.2 (.inr ⟨c, hc, rfl⟩)) hmax)
    · intro hdone hrendered
      exact hx.shown hlast hdone fun c hc hticket =>
        (hanswered c hc hticket).2.resolve_right (hrendered c hc)
  · intro ticket fault hfault
    obtain ⟨p, found, hticket, hp, hcases⟩ := hx.act_commit_eq_fault hfault
    refine ⟨p, found, hticket, hp, fun more hmore => ?_⟩
    rcases hcases with ⟨hfound, hforgotten⟩ | ⟨r, hfound, hrender, hlast, hwaiting⟩
    · have hy := ((hx.act (.commit ticket)).run more).orderly
      exact .inl ⟨hfound, hy.begin_of_forgotten (last_run_eq_none hforgotten hmore) raw⟩
    · refine .inr ⟨r, hfound, hrender, ?_⟩
      rw [begin_eq_unchanged_iff, last_run_eq_some hlast hwaiting hmore, Option.some.injEq]
      exact eq_comm

end Course

/-! ## A page that cannot be rendered -/

namespace Unrendered

/-- A lam, nothing, and after anything the second group once more. For emphasis the groups have the
next numbers, and the reference asks for a second lam. -/
def wildcard : String := "(\u0644)()(?:.|.)*?\\2"

/-- A qaf with the wildcard behind it, where `n` groups are numbered before. -/
def expression (n : Nat) : Regex :=
  .concat [.letter '\u0642', .group (n + 1) (.letter '\u0644'), .group (n + 2) .empty,
    .star false (.alt (.one .notNewline) (.one .notNewline)), .back 2]

/-- The pattern of a qaf. -/
def pattern : Pattern :=
  ⟨.letters, "\u0642" ++ wildcard, some ⟨expression 0, .group 1 (expression 1)⟩⟩

def query : Query := .content .letters "\u0642"

/-- The letters behind the lam, none of which is a second one. -/
def after : List Char := List.replicate 20 '\u0628'

/-- A verse that begins with a qaf and a lam. -/
def verse : Verse := ⟨String.ofList ('\u0642' :: '\u0644' :: after), 1, 1, "\u0633"⟩

def service : Service :=
  .ofLibrary { dataDirectory := "data", wildcard }
    { directory := "data", letters := some ⟨.letters, [verse]⟩ }

/-- The verse is counted: the reference to nothing is there at once. -/
theorem count_eq : ∃ n, pattern.count verse.text = .ok (n + 1) := by
  have hfound : (expression 0).explore .found (.start verse.text.toList) tryLimit =
      .found ⟨after, [(2, []), (1, ['\u0644'])], after.length, rfl⟩ tryLimit := by decide +kernel
  have hbehind : (cutBy ((expression 0).explore .found) true tryLimit (.start after)).isSome =
      true := by
    refine isSome_cutBy (affords_length fun p hp => ?_)
      (fun _ _ _ _ => Regex.rest_suffix_of_explore) (by decide) true (List.suffix_refl _) (by decide)
    have hnone : p.advance? (.only '\u0642') = none := by
      refine Place.advance?_eq_none fun c hc => ?_
      rw [List.eq_of_mem_replicate (hp.subset (List.mem_of_mem_head? hc))]
      decide
    rw [expression, Regex.explore_concat_cons, Regex.letter, Regex.explore_one_of_none hnone]
    exact endsWithin_failed
  obtain ⟨ps, hps⟩ := Option.isSome_iff_exists.1 hbehind
  have hcut : (expression 0).cut? verse.text.toList =
      some (.hit ['\u0642', '\u0644'] [(2, []), (1, ['\u0644'])] :: ps) := by
    rw [Regex.cut?, if_neg (by decide), cutBy_eq, hfound]
    exact congrArg (Option.map _) hps
  exact ⟨ps.countP Piece.isHit, (Pattern.count_of_cut?_eq_some (p := pattern) rfl hcut).trans
    (congrArg Except.ok (List.countP_cons_of_pos rfl))⟩

/-- The verse is not emphasized: a second lam is looked for in too many ways. -/
theorem emphasize_eq (m : Markers) :
    m.emphasize (some pattern) verse.text = .error .givenUp := by
  let q : Place := ⟨after, [(3, []), (2, ['\u0644'])], after.length, rfl⟩
  have hstart : (Regex.group 1 (expression 1)).explore .found (.start verse.text.toList) =
      (Regex.star false (.alt (.one .notNewline) (.one .notNewline))).explore
        ((Regex.back 2).explore fun u => .found ((Place.start verse.text.toList).captured 1 u)) q := by
    funext tries
    rfl
  have hfails : FailsAfter ((Regex.group 1 (expression 1)).explore .found
      (.start verse.text.toList)) (Regex.twiceTries 20) := by
    rw [hstart]
    have hline : ∀ c ∈ after, (CharSet.notNewline).contains c = true := by
      intro c hc
      rw [List.eq_of_mem_replicate hc]
      decide
    refine Regex.failsAfter_lazyTwice hline (fun u hu hgroups => ?_) rfl
    have hnone : u.advance? (.only '\u0644') = none := by
      refine Place.advance?_eq_none fun c hc => ?_
      rw [List.eq_of_mem_replicate (hu.subset (List.mem_of_mem_head? hc))]
      decide
    have hlookup : u.groups.lookup 2 = some ['\u0644'] := by rw [hgroups]; rfl
    intro tries
    rw [Regex.explore, hlookup, Option.bind_some, Place.behind?, hnone]
    exact failsAfter_failed tries
  have hcut : (Regex.group 1 (expression 1)).cut? verse.text.toList = none := by
    rw [Regex.cut?, if_neg (by decide)]
    exact cutBy_eq_none hfails false (by decide)
  exact m.emphasize_of_cut?_eq_none (p := pattern) rfl hcut

/-- What the qaf finds, and that its page cannot be rendered. -/
theorem exists_unrendered : ∃ r, service.find query = .ok r ∧
    service.render query r 1 = .error .givenUp := by
  obtain ⟨n, hn⟩ := count_eq
  have hcompile : Pattern.compile wildcard .letters "\u0642" = .ok pattern := rfl
  have hcounted : ∀ v ∈ [verse], pattern.givesUp v.text = false := by
    intro v hv
    rw [List.mem_singleton.1 hv]
    exact Pattern.givesUp_eq_false_iff.2 ⟨n + 1, hn⟩
  refine ⟨.ofContent ⟨.letters, [verse]⟩ pattern,
    Library.find_content_eq_ok_iff.2 ⟨_, pattern, rfl, hcompile, hcounted, rfl⟩, ?_⟩
  have hhits : (Results.ofContent ⟨.letters, [verse]⟩ pattern).hits = [⟨0, n + 1⟩] := by
    have hpositive : pattern.positiveCount? verse = some (n + 1) :=
      Pattern.positiveCount?_eq_some_iff.2 ⟨hn, Nat.succ_pos n⟩
    simp [Results.ofContent, hitsBy, hpositive]
  have hrow : VerseView.ofRow service.settings.markers (some pattern) ⟨verse, n + 1⟩ =
      .error .givenUp := by
    rw [VerseView.ofRow, emphasize_eq]
    rfl
  have hsize : (Results.ofContent ⟨.letters, [verse]⟩ pattern).size = 1 := by
    rw [Results.size, hhits]
    rfl
  have hstart : (Page.pager 1 service.settings.perPage 1).start = 0 := by decide
  have hstop : (Page.pager 1 service.settings.perPage 1).stop = 10 := by decide
  have hrowsOn : Page.rowsOn service.settings.perPage (.ofContent ⟨.letters, [verse]⟩ pattern) 1 =
      [⟨verse, n + 1⟩] := by
    simp only [Page.rowsOn, hsize, hstart, hstop, Results.slice, hhits]
    rfl
  have hrows : [Row.mk verse (n + 1)].mapM
      (VerseView.ofRow service.settings.markers (some pattern)) = .error .givenUp := by
    rw [List.mapM_cons, hrow]
    rfl
  have hvalid : query.isValid = true := rfl
  rw [Service.render, Page.render, if_pos hvalid, hrowsOn]
  exact congrArg (Except.map _) hrows

/-- The qaf is typed twice. The first time the answer is a fault, since the page cannot be rendered;
the second time it is that nothing has changed, though nothing is on display. -/
theorem unchanged_after_fault :
    let files : Files := fun _ => none
    let first := service.input files {} "\u0642"
    let again := first.2.1.input files first.2.2 "\u0642"
    first.1 = .error .givenUp ∧ again.1 = .ok .unchanged ∧ again.2.2.shown = none := by
  intro files first again
  obtain ⟨r, hr, hrender⟩ := exists_unrendered
  have htruthful : service.Truthful := Service.truthful_ofLibrary _ _
  have hcomputed : (service.compute files query).1 = .ok r :=
    (htruthful.results query).1.trans hr
  -- the first page is rendered with the settings, which stay as they are
  have hsettings : (service.compute files query).2.settings = service.settings :=
    Service.settings_results service query
  have hrendered : (service.compute files query).2.render query r 1 = .error .givenUp := by
    rw [Service.render, hsettings]
    exact hrender
  let begun : Session := { latest := 1, last := some query }
  have hcommitted : begun.commit (service.compute files query).2.render ⟨1, query⟩
      (service.compute files query).1 = (.error .givenUp, begun) := by
    rw [hcomputed]
    simp [Session.commit, begun, hrendered]
  have hfirst : first = (.error .givenUp, (service.compute files query).2, begun) := by
    show service.finish files begun ⟨1, query⟩ = _
    rw [Service.finish]
    simp only [hcommitted]
  have hagain : begun.begin "\u0642" = (none, begun) := rfl
  have hsecond : again = (.ok .unchanged, first.2.1, begun) := by
    show first.2.1.input files first.2.2 "\u0642" = _
    rw [hfirst]
    simp only [Service.input, hagain]
  exact ⟨by rw [hfirst], by rw [hsecond], by rw [hsecond]⟩

end Unrendered

end VerseSearch
