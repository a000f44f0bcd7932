import VerseSearch.Proofs.Unchanged
import VerseSearch.Proofs.Visit

/-!
# A session shows what searches show

A session keeps the results on display and turns their pages; a search without a session gets its
results from the service each time. Both show the same pages (`Visit.replies_are_searches`): what is
on display was found by the query of the last input that was answered with a page, and what a query
finds it finds for good.
-/

set_option autoImplicit false

namespace VerseSearch

namespace Service

/-- A truthful service answers a search with a page of what the query finds. -/
theorem Truthful.search {s : Service} (h : s.Truthful) {raw : String} {r : Results}
    (hr : s.find (Query.ofInput raw) = .ok r) (page : Nat) :
    (s.search raw page).1 = s.render (Query.ofInput raw) r page := by
  have hresults : (s.results (Query.ofInput raw)).1 = .ok r := (h.results _).1.trans hr
  unfold Service.search
  cases hs : s.results (Query.ofInput raw) with
  | mk found s' =>
    rw [hs] at hresults
    simp only at hresults
    simp [hs, hresults]

/-- Pages are rendered alike while a service grows. -/
theorem render_of_growsTo {s s' : Service} (h : s.GrowsTo s') : s'.render = s.render := by
  funext q r page
  rw [render, render, h.settings_eq]

/-- A page that is shown is one of the pages of its query, or page 1. -/
theorem number_mem {s : Service} {q : Query} (hq : q.isValid = true) {r : Results} {n : Nat}
    {first page : Page} (hfirst : s.render q r 1 = .ok first) (hpage : s.render q r n = .ok page) :
    1 ≤ page.number ∧ page.number ≤ max 1 first.totalPages := by
  let p := Pager.ofState 1 r.size s.settings.perPage
  have hpages : first.totalPages = p.totalPages := by
    obtain ⟨views, _, rfl⟩ := (Page.render_eq_ok_iff hq).1 hfirst
    rfl
  have hnumber : page.number = p.clamp n := Page.number_render hq hpage
  rw [hnumber, hpages, Nat.max_comm]
  exact p.clamp_mem n

/-- The first page is page 1, whatever the query. -/
theorem number_first {s : Service} {q : Query} {r : Results} {page : Page}
    (hpage : s.render q r 1 = .ok page) : page.number = 1 := by
  by_cases hq : q.isValid = true
  · rw [Page.number_render hq hpage, Pager.clamp]
    omega
  · rw [render, Page.render, if_neg hq] at hpage
    cases hpage
    rfl

end Service

/-- An input is answered with the first page of what was computed for it. -/
theorem Session.commit_eq_page {x : Session} {s : Service} {p : Pending}
    {found : Except Fault Results} {page : Page}
    (h : (x.commit s.render p found).1 = .ok (.page page)) :
    ∃ r : Results, found = .ok r ∧ s.render p.query r 1 = .ok page ∧
      (x.commit s.render p found).2.page = 1 := by
  rcases x.commit_display s.render p found with ⟨hno, _⟩ | ⟨_, r, page', rfl, hrendered, hcommit⟩
  · exact absurd h (hno page)
  · rw [hcommit] at h ⊢
    cases h
    exact ⟨r, rfl, hrendered, rfl⟩

namespace Visit

/-- The display of a session after the text was answered with a page, or before any was: nothing, if
the text is an invalid query; otherwise what its query finds, on one of the pages of it. -/
inductive Shows (s : Service) : Option String → Session → Prop where
  | before {x : Session} : x.shown = none → Shows s none x
  | invalid {raw : String} {x : Session} : (Query.ofInput raw).isValid = false → x.shown = none →
      Shows s (some raw) x
  | results {raw : String} {x : Session} {r : Results} {first : Page} :
      (Query.ofInput raw).isValid = true → s.find (Query.ofInput raw) = .ok r →
      s.render (Query.ofInput raw) r 1 = .ok first → x.shown = some (Query.ofInput raw, r) →
      1 ≤ x.page → x.page ≤ max 1 first.totalPages → Shows s (some raw) x

variable {s s' : Service} {answered : Option String} {x x' : Session} {v : Visit}

theorem Shows.of_growsTo (h : Shows s answered x) (hs : s.GrowsTo s') : Shows s' answered x := by
  cases h with
  | before hshown => exact .before hshown
  | invalid hq hshown => exact .invalid hq hshown
  | results hq hr hrendered hshown hfirst hlast =>
    refine .results hq (Service.find_of_growsTo hs hr) ?_ hshown hfirst hlast
    rwa [Service.render_of_growsTo hs]

/-- Only what is on display counts. -/
theorem Shows.congr (h : Shows s answered x) (hshown : x'.shown = x.shown)
    (hpage : x'.page = x.page) : Shows s answered x' := by
  cases h with
  | before hnone => exact .before (hshown.trans hnone)
  | invalid hq hnone => exact .invalid hq (hshown.trans hnone)
  | results hq hr hrendered hsome hfirst hlast =>
    exact .results hq hr hrendered (hshown.trans hsome) (hpage ▸ hfirst) (hpage ▸ hlast)

/-- What waits was typed and found, and what is on display was found. -/
structure Faithful (v : Visit) : Prop where
  sound : v.world.Sound
  queries : ∀ e ∈ v.waiting, e.pending.query = Query.ofInput e.raw
  found : ∀ e ∈ v.waiting, ∀ r : Results, e.found = some (.ok r) →
    v.world.service.find e.pending.query = .ok r
  shows : Shows v.world.service v.answered v.session

/-- A new session in a sound world is faithful. -/
theorem faithful_start {w : World} (h : w.Sound) : ({ world := w } : Visit).Faithful where
  sound := h
  queries := fun _ he => nomatch he
  found := fun _ he => nomatch he
  shows := .before rfl

/-- The world may go on. -/
theorem Faithful.withWorld (h : v.Faithful) {w : World} (hw : w.Sound)
    (hgrows : v.world.service.GrowsTo w.service) : ({ v with world := w } : Visit).Faithful where
  sound := hw
  queries := h.queries
  found := fun e he r hr => Service.find_of_growsTo hgrows (h.found e he r hr)
  shows := h.shows.of_growsTo hgrows

theorem Faithful.elsewhere (h : v.Faithful) (a : Action) :
    ({ v with world := (v.world.act a).2 } : Visit).Faithful :=
  h.withWorld (h.sound.act a) (World.growsTo_act v.world a)

/-- What is noted with an input must be what its query finds. -/
theorem Faithful.note (h : v.Faithful) {chosen : Pending → Bool} {found : Except Fault Results}
    (hfound : ∀ (p : Pending) (r : Results), chosen p = true → found = .ok r →
      v.world.service.find p.query = .ok r) : (v.note chosen found).Faithful where
  sound := h.sound
  queries := by
    intro e he
    obtain ⟨e', he', rfl⟩ := List.mem_map.1 he
    split <;> exact h.queries e' he'
  found := by
    intro e he r hr
    obtain ⟨e', he', rfl⟩ := List.mem_map.1 he
    split at hr
    · rename_i hchosen
      rw [if_pos hchosen]
      exact hfound e'.pending r hchosen.1 (Option.some.inj hr)
    · rename_i hchosen
      rw [if_neg hchosen]
      exact h.found e' he' r hr
  shows := h.shows

theorem Faithful.compute (h : v.Faithful) (ticket : Nat) (a : Action) :
    (v.compute ticket a).Faithful := by
  have hmoved := h.elsewhere a
  unfold Visit.compute
  cases hanswer : (v.world.act a).1 with
  | none => exact hmoved
  | some answer =>
    obtain ⟨q, found⟩ := answer
    refine hmoved.note fun p r hp hr => ?_
    obtain rfl : p = ⟨ticket, q⟩ := of_decide_eq_true hp
    exact (h.sound.answer hanswer).symm.trans hr

/-- A new input waits with the query it was typed as, and the display stays. -/
theorem Faithful.enter (h : v.Faithful) (raw : String) : (v.enter raw).2.Faithful := by
  unfold Visit.enter Session.begin
  by_cases hlast : v.session.last = some (Query.ofInput raw)
  · rw [if_pos hlast]
    exact h
  · rw [if_neg hlast]
    refine ⟨h.sound, List.forall_mem_cons.2 ⟨rfl, h.queries⟩, ?_, h.shows.congr rfl rfl⟩
    refine List.forall_mem_cons.2 ⟨?_, h.found⟩
    intro r hr
    cases hr

theorem answered?_input_page (raw : String) (page : Page) :
    (Reply.input raw (.ok (.page page))).answered? = some raw := rfl

theorem answered?_input_of_ne {raw : String} {outcome : Except Fault Outcome}
    (h : ∀ page, outcome ≠ .ok (.page page)) : (Reply.input raw outcome).answered? = none := by
  unfold Reply.answered?
  split
  · rename_i page heq
    cases heq
    exact absurd rfl (h page)
  · rfl

/-- A committed input that is answered with a page is on display, and any other leaves the
display. -/
theorem Faithful.shows_commit (h : v.Faithful) {raw : String} {p : Pending}
    {found : Except Fault Results} (hmem : ⟨raw, p, some found⟩ ∈ v.waiting) :
    let committed := v.session.commit v.world.service.render p found
    Shows v.world.service ((Reply.input raw committed.1).answered?.or v.answered) committed.2 := by
  intro committed
  rcases v.session.commit_display v.world.service.render p found with
    ⟨hno, hshown, hpage⟩ | ⟨_, r, page, rfl, hrendered, hcommit⟩
  · rw [answered?_input_of_ne hno, Option.none_or]
    exact h.shows.congr hshown hpage
  · have hquery : p.query = Query.ofInput raw := h.queries _ hmem
    have hfound : v.world.service.find p.query = .ok r := h.found _ hmem r rfl
    have hcommitted : committed = _ := hcommit
    rw [hcommitted, answered?_input_page, Option.some_or]
    rw [hquery] at hfound hrendered ⊢
    by_cases hvalid : (Query.ofInput raw).isValid = true
    · exact .results hvalid hfound hrendered (if_pos hvalid) (Nat.le_refl 1) (Nat.le_max_left 1 _)
    · exact .invalid (by simpa using hvalid) (if_neg hvalid)

/-- Another page of the display is a page of the same results. -/
theorem Shows.goTo (h : Shows s answered x) (n : Nat) : Shows s answered (x.goTo s.render n).2 := by
  cases h with
  | before hshown =>
    have hgoTo : x.goTo s.render n = (.ok none, x) := by rw [Session.goTo, hshown]
    rw [hgoTo]
    exact .before hshown
  | invalid hq hshown =>
    have hgoTo : x.goTo s.render n = (.ok none, x) := by rw [Session.goTo, hshown]
    rw [hgoTo]
    exact .invalid hq hshown
  | @results raw x r first hq hr hrendered hshown hfirst hlast =>
    cases hturned : s.render (Query.ofInput raw) r n with
    | error fault =>
      have hgoTo : (x.goTo s.render n).2 = x := by simp only [Session.goTo, hshown, hturned]
      rw [hgoTo]
      exact .results hq hr hrendered hshown hfirst hlast
    | ok page =>
      have hgoTo : (x.goTo s.render n).2 = { x with page := page.number } := by
        simp only [Session.goTo, hshown, hturned]
      obtain ⟨hfirst', hlast'⟩ := Service.number_mem hq hrendered hturned
      rw [hgoTo]
      exact .results hq hr hrendered hshown hfirst' hlast'

/-- An event without a page for an input leaves the kept text. -/
theorem Faithful.act_of_step {e : VisitEvent} (h : (v.step e).2.Faithful)
    (hsame : (v.step e).2.answered = v.answered)
    (hno : (v.step e).1.bind Reply.answered? = none) : (v.act e).2.Faithful := by
  have hact : (v.act e).2 = (v.step e).2 := by
    rw [Visit.act, hno, Option.none_or, ← hsame]
  rw [hact]
  exact h

/-- Committing does nothing, or commits an input that waits with what was computed for it. -/
theorem step_commit_cases (v : Visit) (ticket : Nat) :
    v.step (.commit ticket) = (none, v) ∨
      ∃ (raw : String) (p : Pending) (found : Except Fault Results),
        ⟨raw, p, some found⟩ ∈ v.waiting ∧ v.step (.commit ticket) = v.commit raw p found := by
  simp only [step]
  split
  · rename_i raw p found h
    exact .inr ⟨raw, p, found, List.mem_of_find?_eq_some h, rfl⟩
  · exact .inl rfl

/-- Every event keeps a visit faithful. -/
theorem Faithful.act (h : v.Faithful) (e : VisitEvent) : (v.act e).2.Faithful := by
  cases e with
  | elsewhere a => exact .act_of_step (h.elsewhere a) rfl rfl
  | enter raw =>
    refine .act_of_step (h.enter raw) ?_ ?_
    · show (v.enter raw).2.answered = _
      unfold Visit.enter
      split <;> rfl
    · show (v.enter raw).1.bind _ = _
      unfold Visit.enter
      split <;> rfl
  | compute ticket a =>
    refine .act_of_step (h.compute ticket a) ?_ rfl
    show (v.compute ticket a).answered = _
    unfold Visit.compute
    split <;> rfl
  | fail ticket fault =>
    have hnote : (v.note (fun p => p.ticket = ticket) (.error fault)).Faithful :=
      h.note fun p r _ hr => by cases hr
    exact .act_of_step hnote rfl rfl
  | commit ticket =>
    rcases v.step_commit_cases ticket with hstep | ⟨raw, p, found, hmem, hstep⟩
    · exact .act_of_step (hstep ▸ h) (by rw [hstep]) (by rw [hstep]; rfl)
    · rw [Visit.act, hstep]
      exact ⟨h.sound, fun e he => h.queries e (List.mem_filter.1 he).1,
        fun e he => h.found e (List.mem_filter.1 he).1, h.shows_commit hmem⟩
  | turn page =>
    exact .act_of_step ⟨h.sound, h.queries, h.found, h.shows.goTo page⟩ rfl rfl

/-- A faithful visit stays faithful. -/
theorem Faithful.run (h : v.Faithful) (events : List VisitEvent) : (v.run events).Faithful := by
  unfold Visit.run
  induction events generalizing v with
  | nil => exact h
  | cons e events ih =>
    rw [List.foldl_cons]
    exact ih (h.act e)

/-! ## Replies -/

/-- Only committing an input that waits answers it with a page. -/
theorem step_eq_commit {e : VisitEvent} {raw : String} {page : Page}
    (hreply : (v.step e).1 = some (.input raw (.ok (.page page)))) :
    ∃ (p : Pending) (found : Except Fault Results), ⟨raw, p, some found⟩ ∈ v.waiting ∧
      v.step e = v.commit raw p found ∧
      (v.session.commit v.world.service.render p found).1 = .ok (.page page) := by
  cases e with
  | elsewhere a => cases hreply
  | enter raw' =>
    have hno : (v.enter raw').1 ≠ some (.input raw (.ok (.page page))) := by
      unfold Visit.enter
      split <;> simp
    exact absurd hreply hno
  | compute ticket a => cases hreply
  | fail ticket fault => cases hreply
  | turn n => cases hreply
  | commit ticket =>
    rcases v.step_commit_cases ticket with hstep | ⟨raw', p, found, hmem, hstep⟩
    · rw [hstep] at hreply
      cases hreply
    · rw [hstep] at hreply
      obtain ⟨rfl, houtcome⟩ : raw' = raw ∧
          (v.session.commit v.world.service.render p found).1 = .ok (.page page) := by
        simpa [Visit.commit] using hreply
      exact ⟨p, found, hmem, hstep, houtcome⟩

/-- An input that is answered with a page is answered as a search for its text. -/
theorem Faithful.input_reply (h : v.Faithful) {e : VisitEvent} {raw : String} {page : Page}
    (hreply : (v.act e).1 = some (.input raw (.ok (.page page)))) :
    ((v.act e).2.world.service.search raw 1).1 = .ok page ∧ (v.act e).2.answered = some raw ∧
      (v.act e).2.session.page = page.number := by
  obtain ⟨p, found, hmem, hstep, houtcome⟩ := step_eq_commit hreply
  obtain ⟨r, rfl, hrendered, hpage⟩ := Session.commit_eq_page houtcome
  have hquery : p.query = Query.ofInput raw := h.queries _ hmem
  have hfound : v.world.service.find p.query = .ok r := h.found _ hmem r rfl
  have hanswered : (v.act e).2.answered = some raw := by
    rw [answered_act, hreply]
    rfl
  have hworld : (v.act e).2.world = v.world := congrArg (fun stepped => stepped.2.world) hstep
  have hsession : (v.act e).2.session.page = 1 :=
    (congrArg (fun stepped => stepped.2.session.page) hstep).trans hpage
  rw [hquery] at hfound hrendered
  rw [hworld, hsession]
  exact ⟨(h.sound.entries.search hfound 1).trans hrendered, hanswered,
    (Service.number_first hrendered).symm⟩

/-- Turning a page is answered with nothing if nothing is on display, and otherwise as a search for
the kept text. -/
theorem Faithful.turn_reply (h : v.Faithful) (n : Nat) :
    ((v.answered = none ∨ ∃ raw, v.answered = some raw ∧ (Query.ofInput raw).isValid = false) ∧
        (v.act (.turn n)).1 = some (.turned (.ok none))) ∨
      ∃ raw, v.answered = some raw ∧ (Query.ofInput raw).isValid = true ∧
        (v.act (.turn n)).1 =
          some (.turned (((v.act (.turn n)).2.world.service.search raw n).1.map some)) ∧
        ∀ page, ((v.act (.turn n)).2.world.service.search raw n).1 = .ok page →
          (v.act (.turn n)).2.session.page = page.number := by
  have hreply : (v.act (.turn n)).1 =
      some (.turned (v.session.goTo v.world.service.render n).1) := rfl
  have hsession : (v.act (.turn n)).2.session = (v.session.goTo v.world.service.render n).2 := rfl
  have hworld : (v.act (.turn n)).2.world = v.world := rfl
  rw [hreply, hsession, hworld]
  have hshows := h.shows
  generalize v.answered = answered at hshows
  cases hshows with
  | before hshown => exact .inl ⟨.inl rfl, by rw [Session.goTo, hshown]⟩
  | @invalid raw _ hq hshown => exact .inl ⟨.inr ⟨raw, rfl, hq⟩, by rw [Session.goTo, hshown]⟩
  | @results raw _ r _ hq hr _ hshown _ _ =>
    have hsearch := h.sound.entries.search hr n
    refine .inr ⟨raw, rfl, hq, ?_, fun page hpage => ?_⟩
    · rw [hsearch]
      cases hturned : v.world.service.render (Query.ofInput raw) r n <;>
        simp only [Session.goTo, hshown, hturned, Except.map]
    · have hturned := hsearch.symm.trans hpage
      simp only [Session.goTo, hshown, hturned]

/-- A session shows what searches show. In every visit, whatever else happens in the world, the kept
text is that of the last input that was answered with a page. An input that is answered with a page
is answered as a search for its text is at that moment. Turning to a page is answered with nothing
exactly if no input was answered with a page, or the last one was invalid, and otherwise as a search
for the text of that input. When either is answered with a page, the session is on this page, and
while a query is on display it is on one of the pages of the query. -/
theorem replies_are_searches (settings : Settings) (library : Library) (before : List Action)
    (events : List VisitEvent) :
    let start : Visit := { world := (World.start settings library).run before }
    let v := start.run events
    v.answered = ((start.replies events).filterMap Reply.answered?).getLast? ∧
    (∀ (e : VisitEvent) (raw : String) (page : Page), let v' := (v.act e).2
      (v.act e).1 = some (.input raw (.ok (.page page))) →
      (v'.world.service.search raw 1).1 = .ok page ∧ v'.answered = some raw ∧
        v'.session.page = page.number) ∧
    (∀ n : Nat, let v' := (v.act (.turn n)).2
      ((v.answered = none ∨ ∃ raw, v.answered = some raw ∧ (Query.ofInput raw).isValid = false) ∧
        (v.act (.turn n)).1 = some (.turned (.ok none))) ∨
      ∃ raw, v.answered = some raw ∧ (Query.ofInput raw).isValid = true ∧
        (v.act (.turn n)).1 = some (.turned ((v'.world.service.search raw n).1.map some)) ∧
        ∀ page, (v'.world.service.search raw n).1 = .ok page → v'.session.page = page.number) ∧
    ∀ raw : String, v.answered = some raw → (Query.ofInput raw).isValid = true →
      ∃ page, (v.world.service.search raw 1).1 = .ok page ∧
        1 ≤ v.session.page ∧ v.session.page ≤ max 1 page.totalPages := by
  intro start v
  have hv : v.Faithful :=
    (faithful_start ((World.sound_start settings library).run before)).run events
  have hanswered : v.answered = ((start.replies events).filterMap Reply.answered?).getLast? :=
    (start.answered_run events).trans Option.or_none
  refine ⟨hanswered, fun e raw page hreply => hv.input_reply hreply, fun n => hv.turn_reply n, ?_⟩
  intro raw hraw hvalid
  have hshows := hv.shows
  rw [hraw] at hshows
  cases hshows with
  | invalid hq _ => exact absurd (hq.symm.trans hvalid) Bool.false_ne_true
  | results _ hr hrendered _ hfirst hlast =>
    exact ⟨_, (hv.sound.entries.search hr 1).trans hrendered, hfirst, hlast⟩

end Visit

end VerseSearch
