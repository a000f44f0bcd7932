import VerseSearch.Proofs.Course

/-!
# The last input wins

In whatever order the inputs of a session are computed and committed, what is shown belongs to the
input with the highest ticket among those answered with a page. The invariant is `Course.Orderly`:
the latest ticket bounds all others, the inputs that took effect did so in the order of their
tickets, and the display is that of the one that did so last.
-/

set_option autoImplicit false

namespace VerseSearch

/-- A commit comes too late, or its computation failed, or its page cannot be rendered, or it takes
effect. -/
theorem Session.commit_cases (s : Session) (render : Renderer) (p : Pending)
    (found : Except Fault Results) :
    (p.ticket ≠ s.latest ∧ s.commit render p found = (.ok .superseded, s)) ∨
      (p.ticket = s.latest ∧ ∃ fault : Fault, found = .error fault ∧
        s.commit render p found = (.error fault, { s with last := none })) ∨
      (p.ticket = s.latest ∧ ∃ fault : Fault, s.commit render p found = (.error fault, s)) ∨
      (p.ticket = s.latest ∧ ∃ (r : Results) (page : Page), found = .ok r ∧
        render p.query r 1 = .ok page ∧ s.commit render p found = (.ok (.page page),
          { s with
            page := 1
            shown := if p.query.isValid then some (p.query, r) else none })) := by
  by_cases hp : p.ticket = s.latest
  · cases found with
    | error fault => exact .inr (.inl ⟨hp, fault, rfl, by simp [commit, hp]⟩)
    | ok r =>
      cases hr : render p.query r 1 with
      | error fault => exact .inr (.inr (.inl ⟨hp, fault, by simp [commit, hp, hr]⟩))
      | ok page => exact .inr (.inr (.inr ⟨hp, r, page, rfl, hr, by simp [commit, hp, hr]⟩))
  · exact .inl ⟨hp, commit_of_superseded hp render found⟩

/-- A commit that is answered with a page takes effect, and any other leaves the display and its
page. -/
theorem Session.commit_display (s : Session) (render : Renderer) (p : Pending)
    (found : Except Fault Results) :
    ((∀ page, (s.commit render p found).1 ≠ .ok (.page page)) ∧
        (s.commit render p found).2.shown = s.shown ∧ (s.commit render p found).2.page = s.page) ∨
      (p.ticket = s.latest ∧ ∃ (r : Results) (page : Page), found = .ok r ∧
        render p.query r 1 = .ok page ∧ s.commit render p found = (.ok (.page page),
          { s with
            page := 1
            shown := if p.query.isValid then some (p.query, r) else none })) := by
  rcases s.commit_cases render p found with ⟨_, h⟩ | ⟨_, _, _, h⟩ | ⟨_, _, h⟩ | heffect
  · rw [h]
    exact .inl ⟨by simp, rfl, rfl⟩
  · rw [h]
    exact .inl ⟨by simp, rfl, rfl⟩
  · rw [h]
    exact .inl ⟨by simp, rfl, rfl⟩
  · exact .inr heffect

/-- A commit gives out no ticket. -/
theorem Session.latest_commit (s : Session) (render : Renderer) (p : Pending)
    (found : Except Fault Results) : (s.commit render p found).2.latest = s.latest := by
  rcases s.commit_cases render p found with ⟨_, h⟩ | ⟨_, _, _, h⟩ | ⟨_, _, h⟩ | ⟨_, _, _, _, _, h⟩ <;>
    rw [h]

/-- Turning a page changes the number of the page and nothing else. -/
theorem Session.goTo_snd (s : Session) (render : Renderer) (page : Nat) :
    ∃ number : Nat, (s.goTo render page).2 = { s with page := number } := by
  unfold goTo
  split
  · exact ⟨s.page, rfl⟩
  · split
    · exact ⟨s.page, rfl⟩
    · exact ⟨_, rfl⟩

namespace Course

/-- What holds after every event. -/
structure Orderly (x : Course) : Prop where
  le_latest : ∀ t ∈ x.tickets, t ≤ x.session.latest
  latest_mem : x.session.latest = 0 ∨ x.session.latest ∈ x.tickets
  /-- No ticket of a waiting input is committed. -/
  fresh : ∀ w ∈ x.waiting, ∀ c ∈ x.committed, c.pending.ticket ≠ w.pending.ticket
  /-- Inputs take effect in the order of their tickets. -/
  effects : (x.committed.filter fun c => c.TookEffect).Pairwise
    fun c d => d.pending.ticket < c.pending.ticket
  shown : x.session.shown = (x.committed.find? fun c => c.TookEffect).bind Committed.display

theorem orderly_start : ({} : Course).Orderly where
  le_latest := fun _ h => by cases h
  latest_mem := .inl rfl
  fresh := fun _ h => by cases h
  effects := .nil
  shown := rfl

variable {x : Course} {render : Renderer}

theorem mem_tickets {t : Nat} : t ∈ x.tickets ↔
    (∃ w ∈ x.waiting, w.pending.ticket = t) ∨ ∃ c ∈ x.committed, c.pending.ticket = t := by
  simp only [tickets, List.mem_append, List.mem_map]

theorem Orderly.begin (h : x.Orderly) (raw : String) : (x.begin raw).2.Orderly := by
  rcases begin_cases x raw with hb | hb
  · rw [hb]
    exact h
  · rw [hb]
    have hlt : ∀ t ∈ x.tickets, t < x.session.latest + 1 :=
      fun t ht => Nat.lt_succ_of_le (h.le_latest t ht)
    refine ⟨?_, .inr (List.mem_append_left _ List.mem_cons_self), ?_, h.effects, h.shown⟩
    · intro t ht
      rcases List.mem_cons.1 ht with rfl | ht
      · exact Nat.le_refl _
      · exact Nat.le_of_lt (hlt t ht)
    · intro w hw c hc
      rcases List.mem_cons.1 hw with rfl | hw
      · exact Nat.ne_of_lt (hlt _ (mem_tickets.2 (.inr ⟨c, hc, rfl⟩)))
      · exact h.fresh w hw c hc

theorem Orderly.compute (h : x.Orderly) (ticket : Nat) (found : Except Fault Results) :
    (x.compute ticket found).Orderly := by
  have htickets : (x.compute ticket found).tickets = x.tickets :=
    congrArg (· ++ _) (map_ticket_compute x ticket found)
  refine ⟨fun t ht => h.le_latest t (htickets ▸ ht), ?_, ?_, h.effects, h.shown⟩
  · rw [htickets]
    exact h.latest_mem
  · intro w hw c hc
    have hmem : w.pending.ticket ∈ x.waiting.map (·.pending.ticket) := by
      rw [← map_ticket_compute x ticket found]
      exact List.mem_map_of_mem hw
    obtain ⟨v, hv, hvw⟩ := List.mem_map.1 hmem
    rw [← hvw]
    exact h.fresh v hv c hc

/-- Committing a waiting input neither adds nor drops a ticket. -/
theorem mem_tickets_commit {p : Pending} {found : Except Fault Results}
    (hp : ⟨p, some found⟩ ∈ x.waiting) {t : Nat} :
    t ∈ (x.commit render p found).2.tickets ↔ t ∈ x.tickets := by
  simp only [mem_tickets, commit, List.mem_filter, List.mem_cons, decide_eq_true_eq]
  constructor
  · rintro (⟨w, ⟨hw, _⟩, rfl⟩ | ⟨c, rfl | hc, rfl⟩)
    · exact .inl ⟨w, hw, rfl⟩
    · exact .inl ⟨_, hp, rfl⟩
    · exact .inr ⟨c, hc, rfl⟩
  · rintro (⟨w, hw, rfl⟩ | ⟨c, hc, rfl⟩)
    · by_cases he : w.pending.ticket = p.ticket
      · exact .inr ⟨_, .inl rfl, he.symm⟩
      · exact .inl ⟨w, ⟨hw, he⟩, rfl⟩
    · exact .inr ⟨c, .inr hc, rfl⟩

/-- What is shown, and which inputs took effect, after a commit. The ticket of an input that takes
effect is above those of all that are committed before. -/
theorem Orderly.shown_commit (h : x.Orderly) (render : Renderer) {p : Pending}
    {found : Except Fault Results} (hp : ⟨p, some found⟩ ∈ x.waiting) :
    let y := (x.commit render p found).2
    (y.committed.filter fun c => c.TookEffect).Pairwise
        (fun c d => d.pending.ticket < c.pending.ticket) ∧
      y.session.shown = (y.committed.find? fun c => c.TookEffect).bind Committed.display := by
  -- no ticket is above the latest, and that of a waiting input is not committed yet
  have hbelow : p.ticket = x.session.latest →
      ∀ c ∈ x.committed.filter (fun c => c.TookEffect), c.pending.ticket < p.ticket := by
    intro hlatest c hc
    have hmem := (List.mem_filter.1 hc).1
    have hle := h.le_latest _ (mem_tickets.2 (.inr ⟨c, hmem, rfl⟩))
    have hne := h.fresh _ hp c hmem
    exact Nat.lt_of_le_of_ne (hlatest ▸ hle) hne
  simp only [Course.commit]
  rcases x.session.commit_display render p found with
    ⟨hno, hshown, _⟩ | ⟨hlatest, r, page, hr, _, hc⟩
  · have hnone : ¬ (Committed.mk p found (x.session.commit render p found).1).TookEffect := by
      rintro ⟨page, hpage⟩
      exact hno page hpage
    rw [List.filter_cons_of_neg (by simpa using hnone),
      List.find?_cons_of_neg (by simpa using hnone), hshown]
    exact ⟨h.effects, h.shown⟩
  · have hsome : (Committed.mk p found (.ok (.page page))).TookEffect := ⟨page, rfl⟩
    rw [hc, List.filter_cons_of_pos (by simpa using hsome),
      List.find?_cons_of_pos (by simpa using hsome)]
    refine ⟨List.pairwise_cons.2 ⟨hbelow hlatest, h.effects⟩, ?_⟩
    simp [Committed.display, hr]

theorem Orderly.commit (h : x.Orderly) {p : Pending} {found : Except Fault Results}
    (hp : ⟨p, some found⟩ ∈ x.waiting) : (x.commit render p found).2.Orderly := by
  have hlatest : (x.commit render p found).2.session.latest = x.session.latest :=
    Session.latest_commit x.session render p found
  obtain ⟨heffects, hshown⟩ := h.shown_commit render hp
  refine ⟨fun t ht => ?_, ?_, ?_, heffects, hshown⟩
  · rw [hlatest]
    exact h.le_latest t ((mem_tickets_commit hp).1 ht)
  · rw [hlatest]
    exact h.latest_mem.imp_right (mem_tickets_commit hp).2
  · intro w hw c hc
    obtain ⟨hw, hne⟩ := List.mem_filter.1 hw
    rcases List.mem_cons.1 hc with rfl | hc
    · exact Ne.symm (by simpa using hne)
    · exact h.fresh w hw c hc

/-- Every event keeps a course orderly. -/
theorem Orderly.act (h : x.Orderly) (e : SessionEvent) : (x.act render e).2.Orderly := by
  cases e with
  | begin raw => exact h.begin raw
  | compute ticket found => exact h.compute ticket found
  | commit ticket =>
    rcases act_commit_cases x render ticket with hc | ⟨p, found, _, hp, hc⟩
    · rw [hc]
      exact h
    · rw [hc]
      exact h.commit hp
  | goTo page =>
    obtain ⟨number, hg⟩ := x.session.goTo_snd render page
    simp only [Course.act, hg]
    exact ⟨h.le_latest, h.latest_mem, h.fresh, h.effects, h.shown⟩

theorem Orderly.run (h : x.Orderly) (events : List SessionEvent) :
    (x.run render events).Orderly := by
  unfold Course.run
  induction events generalizing x with
  | nil => exact h
  | cons e events ih =>
    rw [List.foldl_cons]
    exact ih (h.act e)

/-! ## What follows for every course -/

/-- A waiting input comes too late exactly if a higher ticket is given out. -/
theorem Orderly.superseded_iff (h : x.Orderly) {w : Waiting} (hw : w ∈ x.waiting)
    (found : Except Fault Results) :
    (x.session.commit render w.pending found).1 = .ok .superseded ↔
      ∃ t ∈ x.tickets, w.pending.ticket < t := by
  have hle := h.le_latest _ (mem_tickets.2 (.inl ⟨w, hw, rfl⟩))
  constructor
  · intro hc
    have hne : w.pending.ticket ≠ x.session.latest := by
      intro heq
      rcases x.session.commit_cases render w.pending found with
        ⟨hne, _⟩ | ⟨_, _, _, h'⟩ | ⟨_, _, h'⟩ | ⟨_, _, _, _, _, h'⟩
      · exact hne heq
      all_goals
        rw [h'] at hc
        cases hc
    have hlt := Nat.lt_of_le_of_ne hle hne
    rcases h.latest_mem with hzero | hmem
    · omega
    · exact ⟨x.session.latest, hmem, hlt⟩
  · rintro ⟨t, ht, hlt⟩
    have hne : w.pending.ticket ≠ x.session.latest :=
      Nat.ne_of_lt (Nat.lt_of_lt_of_le hlt (h.le_latest t ht))
    rw [Session.commit_of_superseded hne]

/-- What is shown belongs to the input with the highest ticket among those that took effect. -/
theorem Orderly.shown_eq_display (h : x.Orderly) {c : Committed} (hc : c ∈ x.committed)
    (heffect : c.TookEffect)
    (hmax : ∀ d ∈ x.committed, d.TookEffect → d.pending.ticket ≤ c.pending.ticket) :
    x.session.shown = c.display := by
  have hmem : c ∈ x.committed.filter fun c => c.TookEffect :=
    List.mem_filter.2 ⟨hc, by simpa using heffect⟩
  rw [h.shown, ← List.head?_filter]
  have heffects := h.effects
  cases hl : x.committed.filter fun c => c.TookEffect with
  | nil =>
    rw [hl] at hmem
    cases hmem
  | cons d ds =>
    rw [hl] at hmem heffects
    rcases List.mem_cons.1 hmem with rfl | hmem
    · rfl
    · have hlt := (List.pairwise_cons.1 heffects).1 c hmem
      have hd : d ∈ x.committed.filter fun c => c.TookEffect := hl ▸ List.mem_cons_self
      obtain ⟨hd, hd'⟩ := List.mem_filter.1 hd
      exact absurd (hmax d hd (by simpa using hd')) (Nat.not_le_of_lt hlt)

/-- Nothing is shown as long as no input took effect. -/
theorem Orderly.shown_eq_none (h : x.Orderly) (hno : ∀ c ∈ x.committed, ¬ c.TookEffect) :
    x.session.shown = none := by
  have hfind : (x.committed.find? fun c => c.TookEffect) = none :=
    List.find?_eq_none.2 fun c hc => by simpa using hno c hc
  rw [h.shown, hfind]
  rfl

/-- The first page stays until a page is turned. -/
theorem page_run (hpage : x.session.page = 1) {events : List SessionEvent}
    (hevents : ∀ e ∈ events, ¬ e.IsGoTo) : (x.run render events).session.page = 1 := by
  unfold run
  induction events generalizing x with
  | nil => exact hpage
  | cons e events ih =>
    rw [List.foldl_cons]
    refine ih ?_ fun e' he' => hevents e' (List.mem_cons_of_mem e he')
    cases e with
    | begin raw => rcases begin_cases x raw with hb | hb <;> simpa only [act, hb] using hpage
    | compute ticket found => exact hpage
    | commit ticket =>
      rcases act_commit_cases x render ticket with hc | ⟨p, found, _, _, hc⟩
      · rw [hc]
        exact hpage
      · rw [hc]
        show (x.session.commit render p found).2.page = 1
        rcases x.session.commit_display render p found with ⟨_, _, h⟩ | ⟨_, _, _, _, _, h⟩
        · rw [h]
          exact hpage
        · rw [h]
    | goTo page => exact absurd ⟨page, rfl⟩ (hevents _ List.mem_cons_self)

/-- An input that is answered with a page is committed, took effect, and shows page 1. -/
theorem committed_of_act_eq_page {ticket : Nat} {page : Page}
    (h : (x.act render (.commit ticket)).1 = some (.ok (.page page))) :
    (∃ c ∈ (x.act render (.commit ticket)).2.committed,
        c.pending.ticket = ticket ∧ c.outcome = .ok (.page page)) ∧
      (x.act render (.commit ticket)).2.session.page = 1 := by
  rcases act_commit_cases x render ticket with hc | ⟨p, found, hp, _, hc⟩
  · rw [hc] at h
    cases h
  · rw [hc] at h ⊢
    have hanswer : (x.session.commit render p found).1 = .ok (.page page) := Option.some.inj h
    refine ⟨⟨_, List.mem_cons_self, hp, hanswer⟩, ?_⟩
    show (x.session.commit render p found).2.page = 1
    rcases x.session.commit_display render p found with ⟨hno, _⟩ | ⟨_, _, _, _, _, h'⟩
    · exact absurd hanswer (hno page)
    · rw [h']

/-- An input that is answered with a page and turns out to have the highest ticket of all is the one
on display at the end. -/
theorem Orderly.display_of_highest (h : x.Orderly) {ticket : Nat} {page : Page}
    (hcommit : (x.act render (.commit ticket)).1 = some (.ok (.page page)))
    {more : List SessionEvent}
    (hmax : ∀ t ∈ ((x.act render (.commit ticket)).2.run render more).tickets, t ≤ ticket) :
    let y := (x.act render (.commit ticket)).2.run render more
    (∃ c ∈ y.committed, c.pending.ticket = ticket ∧ c.outcome = .ok (.page page) ∧
        y.session.shown = c.display) ∧
      ((∀ e ∈ more, ¬ e.IsGoTo) → y.session.page = 1) := by
  intro y
  obtain ⟨⟨c, hc, hticket, houtcome⟩, hpage⟩ := committed_of_act_eq_page hcommit
  have hy : y.Orderly := (h.act (.commit ticket)).run more
  have hcy : c ∈ y.committed := mem_committed_run hc more
  refine ⟨⟨c, hcy, hticket, houtcome, ?_⟩, page_run hpage⟩
  refine hy.shown_eq_display hcy ⟨page, houtcome⟩ fun d hd _ => ?_
  rw [hticket]
  exact hmax _ (mem_tickets.2 (.inr ⟨d, hd, rfl⟩))

/-- The last input wins, in every course of a session. A waiting input that is committed is
superseded exactly if a higher ticket is given out, and then changes nothing; if it is answered with a
fault, the display and its page stay. Inputs take effect in the order of their tickets, and what is
shown belongs to the last of them. If the input with the highest ticket of all took effect, it is
shown at the end, and its first page is unless a page was turned. -/
theorem last_input_wins (render : Renderer) (events : List SessionEvent) :
    let x := ({} : Course).run render events
    (∀ w ∈ x.waiting, ∀ found : Except Fault Results,
      let committed := x.session.commit render w.pending found
      (committed.1 = .ok .superseded ↔ ∃ t ∈ x.tickets, w.pending.ticket < t) ∧
        (committed.1 = .ok .superseded → committed.2 = x.session) ∧
        ∀ fault : Fault, committed.1 = .error fault →
          committed.2.shown = x.session.shown ∧ committed.2.page = x.session.page) ∧
      (∀ c ∈ x.committed, c.TookEffect →
        (∀ d ∈ x.committed, d.TookEffect → d.pending.ticket ≤ c.pending.ticket) →
        x.session.shown = c.display) ∧
      ((∀ c ∈ x.committed, ¬ c.TookEffect) → x.session.shown = none) ∧
      (x.committed.filter fun c => c.TookEffect).Pairwise
        (fun c d => d.pending.ticket < c.pending.ticket) ∧
      ∀ (ticket : Nat) (page : Page),
        (x.act render (.commit ticket)).1 = some (.ok (.page page)) →
        ∀ more : List SessionEvent,
          let y := (x.act render (.commit ticket)).2.run render more
          (∀ t ∈ y.tickets, t ≤ ticket) →
          (∃ c ∈ y.committed, c.pending.ticket = ticket ∧ c.outcome = .ok (.page page) ∧
            y.session.shown = c.display) ∧
          ((∀ e ∈ more, ¬ e.IsGoTo) → y.session.page = 1) := by
  intro x
  have hx : x.Orderly := orderly_start.run events
  refine ⟨fun w hw found => ?_, fun c hc heffect hmax => hx.shown_eq_display hc heffect hmax,
    hx.shown_eq_none, hx.effects, fun ticket page hcommit more => hx.display_of_highest hcommit⟩
  intro committed
  refine ⟨hx.superseded_iff hw found, fun hsuperseded => ?_, fun fault hfault =>
    Session.shown_commit_of_error hfault⟩
  obtain ⟨t, ht, hlt⟩ := (hx.superseded_iff hw found).1 hsuperseded
  have hne : w.pending.ticket ≠ x.session.latest :=
    Nat.ne_of_lt (Nat.lt_of_lt_of_le hlt (hx.le_latest t ht))
  exact congrArg Prod.snd (Session.commit_of_superseded hne render found)

end Course

end VerseSearch
