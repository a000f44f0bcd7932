import VerseSearch.Proofs.Growth

/-!
# Recent results are never stale

Several clients use one service at the same time. A call for the results of a query comes in two
halves: the query is looked up in the table of recent results, and if it is missing, its results
are computed and stored. Between the halves the table is free, so two calls may miss the same query,
and corpora may be installed, results forgotten or pushed out in the meantime.

What carries the proof is that every entry of the table, and every result on its way into the table,
is what the query finds in the library now (`World.Sound`). It stays so because a library only
grows. Main statement: every call is answered with what the query finds at that moment, and a query
that has once succeeded has the same results for ever.
-/

set_option autoImplicit false

namespace VerseSearch

/-! ## Entries of the table -/

namespace Recent

variable {κ ν : Type} [DecidableEq κ]

theorem mem_entries_of_peek? {t : Recent κ ν} {k : κ} {v : ν} (h : t.peek? k = some v) :
    (k, v) ∈ t.entries := by
  obtain ⟨before, after, he, _⟩ := List.lookup_eq_some_iff.1 h
  rw [he]
  simp

theorem mem_of_mem_without {k : κ} {entries : List (κ × ν)} {e : κ × ν}
    (h : e ∈ without k entries) : e ∈ entries := (List.mem_filter.1 h).1

/-- Looking a key up brings no entry in. -/
theorem mem_entries_of_get {t : Recent κ ν} {k : κ} {e : κ × ν}
    (h : e ∈ (t.get k).2.entries) : e ∈ t.entries := by
  unfold get at h
  split at h
  · exact h
  · rename_i v hv
    rcases List.mem_cons.1 h with rfl | h
    · exact mem_entries_of_peek? hv
    · exact mem_of_mem_without h

/-- Storing a value brings in one entry at most. -/
theorem mem_entries_of_put {t : Recent κ ν} {k : κ} {v : ν} {e : κ × ν}
    (h : e ∈ (t.put k v).entries) : e = (k, v) ∨ e ∈ t.entries := by
  rcases List.mem_cons.1 (List.mem_of_mem_take h) with rfl | h
  · exact .inl rfl
  · exact .inr (mem_of_mem_without h)

theorem mem_entries_of_get_eq_some {t t' : Recent κ ν} {k : κ} {v : ν}
    (h : t.get k = (some v, t')) : (k, v) ∈ t.entries := by
  unfold get at h
  split at h
  · cases h
  · rename_i v' hv
    cases h
    exact mem_entries_of_peek? hv

end Recent

namespace Service

/-- Every entry of the table is what its query finds in the library now. -/
def Truthful (s : Service) : Prop :=
  ∀ (q : Query) (r : Results), (q, r) ∈ s.recent.entries → s.find q = .ok r

theorem truthful_ofLibrary (settings : Settings) (library : Library) :
    (ofLibrary settings library).Truthful := by
  intro q r h
  cases h

/-- A service stays truthful when it grows and no entry is brought in. -/
theorem Truthful.of_growsTo {s s' : Service} (h : s.Truthful) (hs : s.GrowsTo s')
    (he : ∀ e ∈ s'.recent.entries, e ∈ s.recent.entries) : s'.Truthful :=
  fun q r hr => find_of_growsTo hs (h q r (he (q, r) hr))

theorem Truthful.get {s : Service} (h : s.Truthful) (q : Query) :
    ({ s with recent := (s.recent.get q).2 } : Service).Truthful :=
  h.of_growsTo ⟨rfl, Library.GrowsTo.refl s.library⟩ fun _ he => Recent.mem_entries_of_get he

theorem Truthful.put {s : Service} (h : s.Truthful) {q : Query} {r : Results}
    (hr : s.find q = .ok r) : ({ s with recent := s.recent.put q r } : Service).Truthful := by
  intro q' r' hm
  show s.find q' = .ok r'
  rcases Recent.mem_entries_of_put hm with he | he
  · cases he
    exact hr
  · exact h q' r' he

/-- A truthful service answers a call with what the query finds, and stays truthful. -/
theorem Truthful.results {s : Service} (h : s.Truthful) (q : Query) :
    (s.results q).1 = s.find q ∧ (s.results q).2.Truthful := by
  unfold Service.results
  by_cases hq : q.isValid = true
  · rw [if_pos hq]
    have hget := h.get q
    unfold Recent.getOrCompute
    cases hg : s.recent.get q with
    | mk found recent =>
      rw [hg] at hget
      cases found with
      | some r => exact ⟨(h q r (Recent.mem_entries_of_get_eq_some hg)).symm, hget⟩
      | none =>
        cases hf : s.find q with
        | error fault => exact ⟨rfl, hget⟩
        | ok r => exact ⟨rfl, hget.put ((find_congr (s := s) rfl rfl q).trans hf)⟩
  · rw [if_neg hq]
    have hinvalid : q = .invalid := by simpa [Query.isValid] using hq
    subst hinvalid
    exact ⟨rfl, h⟩

theorem Truthful.load {s : Service} (h : s.Truthful) (files : Files) (layer : Layer) :
    (s.load files layer).2.Truthful :=
  h.of_growsTo (growsTo_load s files layer) fun _ he => he

/-- A load that fails changes nothing, and the corpus is missing. -/
theorem load_of_error {s : Service} {files : Files} {layer : Layer} {fault : Fault}
    (h : (s.load files layer).1 = .error fault) :
    (s.load files layer).2 = s ∧ s.library.get? layer = none := by
  simp only [load, Library.load] at h ⊢
  cases hl : s.library.get? layer with
  | some c => simp [hl] at h
  | none =>
    rw [hl] at h
    cases hr : s.library.read files layer with
    | error e => exact ⟨rfl, rfl⟩
    | ok c => simp [hr] at h

/-- Computing a query is a failed load, or a call for its results after a growth. -/
theorem compute_cases (s : Service) (files : Files) (q : Query) :
    ((s.compute files q).2 = s ∧ s.isReadyFor q = false) ∨
      ∃ s' : Service, s.GrowsTo s' ∧ s'.recent = s.recent ∧ s.compute files q = s'.results q := by
  simp only [compute, isReadyFor]
  cases q.layer? with
  | none => exact .inr ⟨s, GrowsTo.refl s, rfl, rfl⟩
  | some layer =>
    have hgrows := growsTo_load s files layer
    have hrecent : (s.load files layer).2.recent = s.recent := rfl
    have herror : ∀ fault : Fault, (s.load files layer).1 = .error fault →
        (s.load files layer).2 = s ∧ s.library.get? layer = none := fun _ => load_of_error
    simp only
    cases hl : s.load files layer with
    | mk loaded s' =>
      rw [hl] at hgrows hrecent herror
      cases loaded with
      | error fault =>
        obtain ⟨hs, hnone⟩ := herror fault rfl
        exact .inl ⟨hs, by rw [hnone]; rfl⟩
      | ok c => exact .inr ⟨s', hgrows, hrecent, rfl⟩

theorem growsTo_compute (s : Service) (files : Files) (q : Query) :
    s.GrowsTo (s.compute files q).2 := by
  rcases compute_cases s files q with ⟨hs, _⟩ | ⟨s', hgrows, _, heq⟩
  · rw [hs]
    exact GrowsTo.refl s
  · rw [heq]
    exact hgrows.trans (growsTo_results s' q)

/-- A truthful service stays so when a query is computed, and what it answers is what the query finds
afterwards, unless the corpus is missing even then. -/
theorem Truthful.compute {s : Service} (h : s.Truthful) (files : Files) (q : Query) :
    (s.compute files q).2.Truthful ∧
      ((s.compute files q).2.isReadyFor q = true →
        (s.compute files q).1 = (s.compute files q).2.find q) := by
  rcases compute_cases s files q with ⟨hs, hready⟩ | ⟨s', hgrows, hrecent, heq⟩
  · rw [hs, hready]
    exact ⟨h, fun hfalse => by cases hfalse⟩
  · have hs' : s'.Truthful := h.of_growsTo hgrows fun e he => hrecent ▸ he
    obtain ⟨hanswer, htrue⟩ := hs'.results q
    rw [heq]
    refine ⟨htrue, fun _ => ?_⟩
    rw [hanswer, find_congr (settings_results s' q) (library_results s' q)]

end Service

/-! ## Worlds -/

/-- How far a caller is that asks for the results of a query. -/
inductive Call where
  /-- It asks for nothing. -/
  | idle
  /-- The query was not in the table; its results are not computed yet. -/
  | missed (q : Query)
  /-- The results are computed and not stored yet. -/
  | computed (q : Query) (r : Results)
deriving DecidableEq, Repr

/-- A service, the sessions over it, and the callers that are between the halves of a call. -/
structure World where
  service : Service
  sessions : Nat → Session
  calls : Nat → Call

/-- What can happen in a world. The last three are the parts of a call for results. -/
inductive Action where
  | search (raw : String) (page : Nat)
  | results (q : Query)
  | render (q : Query) (r : Results) (page : Nat)
  | forget
  | insert (c : Corpus)
  | load (files : Files) (layer : Layer)
  | loadAll (files : Files)
  | begin (client : Nat) (raw : String)
  | compute (files : Files) (q : Query)
  | commit (client : Nat) (p : Pending) (found : Except Fault Results)
  | goTo (client : Nat) (page : Nat)
  | lookUp (caller : Nat) (q : Query)
  | find (caller : Nat)
  | store (caller : Nat)

/-- The answer to a call for the results of a query. -/
abbrev Answer := Query × Except Fault Results

namespace World

/-- A service over a library, new sessions, and no call under way. -/
def start (settings : Settings) (library : Library) : World :=
  ⟨.ofLibrary settings library, fun _ => {}, fun _ => .idle⟩

/-- The world with another session for a client. -/
def withSession (w : World) (client : Nat) (session : Session) : World :=
  { w with sessions := fun i => if i = client then session else w.sessions i }

/-- The world with a caller somewhere else in its call. -/
def withCall (w : World) (caller : Nat) (call : Call) : World :=
  { w with calls := fun i => if i = caller then call else w.calls i }

/-- The first half of a call: the query is looked up, and a hit is answered. An invalid query is
answered without looking it up. -/
def lookUp (w : World) (caller : Nat) (q : Query) : Option Answer × World :=
  if q.isValid then
    match w.service.recent.get q with
    | (some r, recent) => (some (q, .ok r), { w with service := { w.service with recent } })
    | (none, recent) =>
      (none, { w with service := { w.service with recent } }.withCall caller (.missed q))
  else (some (q, .ok .empty), w)

/-- A call that missed: the results are computed, and a fault is answered. -/
def find (w : World) (caller : Nat) (q : Query) : Option Answer × World :=
  match w.service.find q with
  | .error fault => (some (q, .error fault), w.withCall caller .idle)
  | .ok r => (none, w.withCall caller (.computed q r))

/-- The second half of a call: the results are stored and answered. -/
def store (w : World) (caller : Nat) (q : Query) (r : Results) : Option Answer × World :=
  (some (q, .ok r),
    { w with
      service := { w.service with recent := w.service.recent.put q r } }.withCall caller .idle)

/-- What is answered if the action is a call for results or ends one, and the world after the action.
A part of a call that is not due does nothing. -/
def act (w : World) : Action → Option Answer × World
  | .search raw page =>
    (some (Query.ofInput raw, (w.service.results (Query.ofInput raw)).1),
      { w with service := (w.service.search raw page).2 })
  | .results q =>
    (some (q, (w.service.results q).1), { w with service := (w.service.results q).2 })
  | .render _ _ _ => (none, w)
  | .forget => (none, { w with service := w.service.forget })
  | .insert c => (none, { w with service := (w.service.insert c).2 })
  | .load files layer => (none, { w with service := (w.service.load files layer).2 })
  | .loadAll files => (none, { w with service := (w.service.loadAll files).2 })
  | .begin client raw => (none, w.withSession client ((w.sessions client).begin raw).2)
  | .compute files q =>
    let computed := w.service.compute files q
    (if computed.2.isReadyFor q then some (q, computed.1) else none,
      { w with service := computed.2 })
  | .commit client p found =>
    (none, w.withSession client ((w.sessions client).commit w.service.render p found).2)
  | .goTo client page =>
    (none, w.withSession client ((w.sessions client).goTo w.service.render page).2)
  | .lookUp caller q =>
    match w.calls caller with
    | .idle => w.lookUp caller q
    | _ => (none, w)
  | .find caller =>
    match w.calls caller with
    | .missed q => w.find caller q
    | _ => (none, w)
  | .store caller =>
    match w.calls caller with
    | .computed q r => w.store caller q r
    | _ => (none, w)

/-- The world after some actions. -/
def run (w : World) (actions : List Action) : World := actions.foldl (fun w a => (w.act a).2) w

/-- The answers that some actions give, in order. -/
def answers : World → List Action → List Answer
  | _, [] => []
  | w, a :: actions => (w.act a).1.toList ++ (w.act a).2.answers actions

/-- A call whose parts nothing comes between changes the table and is answered as a call in one
step. -/
theorem results_eq_parts {w : World} {caller : Nat} (h : w.calls caller = .idle) (q : Query) :
    (w.run [.lookUp caller q, .find caller, .store caller]).service = (w.service.results q).2 ∧
      w.answers [.lookUp caller q, .find caller, .store caller] =
        [(q, (w.service.results q).1)] := by
  by_cases hq : q.isValid = true
  · cases hg : w.service.recent.get q with
    | mk found recent =>
      cases found with
      | some r => simp [run, answers, act, lookUp, Service.results, Recent.getOrCompute, h, hq, hg]
      | none =>
        have hsame (s : Service) (hs : s = { w.service with recent }) : s.find q = w.service.find q :=
          Service.find_congr (by rw [hs]) (by rw [hs]) q
        cases hf : w.service.find q with
        | error fault =>
          simp [run, answers, act, lookUp, World.find, withCall, Service.results,
            Recent.getOrCompute, h, hq, hg, hf, hsame _ rfl]
        | ok r =>
          simp [run, answers, act, lookUp, World.find, store, withCall, Service.results,
            Recent.getOrCompute, h, hq, hg, hf, hsame _ rfl]
  · have hinvalid : q = .invalid := by simpa [Query.isValid] using hq
    subst hinvalid
    simp [run, answers, act, lookUp, h, Query.isValid]

/-! ## What every action keeps -/

/-- Every entry of the table, and every result that is still to be stored, is what its query finds in
the library now. -/
structure Sound (w : World) : Prop where
  entries : w.service.Truthful
  computed : ∀ (caller : Nat) (q : Query) (r : Results),
    w.calls caller = .computed q r → w.service.find q = .ok r

theorem sound_start (settings : Settings) (library : Library) : (start settings library).Sound :=
  ⟨Service.truthful_ofLibrary settings library, fun _ _ _ h => by cases h⟩

/-- A world in which only the service has changed, and the service has grown, stays sound. -/
theorem Sound.withService {w : World} (h : w.Sound) {s : Service} (hs : w.service.GrowsTo s)
    (htrue : s.Truthful) : ({ w with service := s } : World).Sound :=
  ⟨htrue, fun caller q r hc => Service.find_of_growsTo hs (h.computed caller q r hc)⟩

theorem Sound.withSession {w : World} (h : w.Sound) (client : Nat) (session : Session) :
    (w.withSession client session).Sound :=
  ⟨h.entries, h.computed⟩

/-- A caller may go on to any part of its call, if a result it brings is what its query finds. -/
theorem Sound.withCall {w : World} (h : w.Sound) (caller : Nat) {call : Call}
    (hcall : ∀ (q : Query) (r : Results), call = .computed q r → w.service.find q = .ok r) :
    (w.withCall caller call).Sound := by
  refine ⟨h.entries, fun i q r hi => ?_⟩
  simp only [World.withCall] at hi
  split at hi
  · exact hcall q r hi
  · exact h.computed i q r hi

/-- The table may be changed, as long as it stays truthful. -/
theorem Sound.withRecent {w : World} (h : w.Sound) {recent : Recent Query Results}
    (htrue : ({ w.service with recent } : Service).Truthful) :
    ({ w with service := { w.service with recent } } : World).Sound :=
  h.withService ⟨rfl, Library.GrowsTo.refl w.service.library⟩ htrue

theorem Sound.lookUp {w : World} (h : w.Sound) (caller : Nat) (q : Query) :
    (w.lookUp caller q).2.Sound := by
  unfold World.lookUp
  by_cases hq : q.isValid = true
  · rw [if_pos hq]
    have hget := h.entries.get q
    cases hg : w.service.recent.get q with
    | mk found recent =>
      rw [hg] at hget
      have hw := h.withRecent hget
      cases found with
      | some r => exact hw
      | none => exact hw.withCall caller fun _ _ hc => by cases hc
  · rw [if_neg hq]
    exact h

theorem Sound.find {w : World} (h : w.Sound) (caller : Nat) (q : Query) :
    (w.find caller q).2.Sound := by
  unfold World.find
  cases hf : w.service.find q with
  | error fault => exact h.withCall caller fun _ _ hc => by cases hc
  | ok r =>
    refine h.withCall caller fun q' r' hc => ?_
    cases hc
    exact hf

theorem Sound.store {w : World} (h : w.Sound) (caller : Nat) {q : Query} {r : Results}
    (hr : w.service.find q = .ok r) : (w.store caller q r).2.Sound :=
  (h.withRecent (h.entries.put hr)).withCall caller fun _ _ hc => by cases hc

/-- Every action keeps a world sound. -/
theorem Sound.act {w : World} (h : w.Sound) (a : Action) : (w.act a).2.Sound := by
  cases a with
  | search raw page =>
    refine h.withService ?_ ?_
    · rw [Service.search_snd]
      exact Service.growsTo_results w.service (Query.ofInput raw)
    · rw [Service.search_snd]
      exact (h.entries.results (Query.ofInput raw)).2
  | results q => exact h.withService (Service.growsTo_results w.service q) (h.entries.results q).2
  | render q r page => exact h
  | forget =>
    refine h.withService (Service.growsTo_forget w.service) fun q r hm => ?_
    cases hm
  | insert c =>
    refine h.withService (Service.growsTo_insert w.service c) ?_
    refine h.entries.of_growsTo (Service.growsTo_insert w.service c) fun e he => ?_
    unfold Service.insert at he
    split at he <;> exact he
  | load files layer =>
    exact h.withService (Service.growsTo_load w.service files layer) (h.entries.load files layer)
  | loadAll files =>
    refine h.withService (Service.growsTo_loadAll w.service files) ?_
    exact h.entries.of_growsTo (Service.growsTo_loadAll w.service files) fun _ he => he
  | begin client raw => exact h.withSession client _
  | compute files q =>
    exact h.withService (Service.growsTo_compute w.service files q) (h.entries.compute files q).1
  | commit client p found => exact h.withSession client _
  | goTo client page => exact h.withSession client _
  | lookUp caller q =>
    simp only [World.act]
    split
    · exact h.lookUp caller q
    · exact h
  | find caller =>
    simp only [World.act]
    split
    · exact h.find caller _
    · exact h
  | store caller =>
    simp only [World.act]
    split
    · rename_i q r hc
      exact h.store caller (h.computed caller q r hc)
    · exact h

theorem Sound.run {w : World} (h : w.Sound) (actions : List Action) : (w.run actions).Sound := by
  unfold World.run
  induction actions generalizing w with
  | nil => exact h
  | cons a actions ih =>
    rw [List.foldl_cons]
    exact ih (h.act a)

theorem growsTo_lookUp (w : World) (caller : Nat) (q : Query) :
    w.service.GrowsTo (w.lookUp caller q).2.service := by
  unfold World.lookUp
  split
  · split <;> exact ⟨rfl, Library.GrowsTo.refl w.service.library⟩
  · exact Service.GrowsTo.refl w.service

theorem growsTo_find (w : World) (caller : Nat) (q : Query) :
    w.service.GrowsTo (w.find caller q).2.service := by
  unfold World.find
  split <;> exact Service.GrowsTo.refl w.service

theorem growsTo_store (w : World) (caller : Nat) (q : Query) (r : Results) :
    w.service.GrowsTo (w.store caller q r).2.service :=
  ⟨rfl, Library.GrowsTo.refl w.service.library⟩

/-- No action takes a corpus out of the library or changes the settings. -/
theorem growsTo_act (w : World) (a : Action) : w.service.GrowsTo (w.act a).2.service := by
  cases a with
  | search raw page =>
    show w.service.GrowsTo (w.service.search raw page).2
    rw [Service.search_snd]
    exact Service.growsTo_results w.service (Query.ofInput raw)
  | results q => exact Service.growsTo_results w.service q
  | render q r page => exact Service.GrowsTo.refl w.service
  | forget => exact Service.growsTo_forget w.service
  | insert c => exact Service.growsTo_insert w.service c
  | load files layer => exact Service.growsTo_load w.service files layer
  | loadAll files => exact Service.growsTo_loadAll w.service files
  | begin client raw => exact Service.GrowsTo.refl w.service
  | compute files q => exact Service.growsTo_compute w.service files q
  | commit client p found => exact Service.GrowsTo.refl w.service
  | goTo client page => exact Service.GrowsTo.refl w.service
  | lookUp caller q =>
    simp only [act]
    split
    · exact growsTo_lookUp w caller q
    · exact Service.GrowsTo.refl w.service
  | find caller =>
    simp only [act]
    split
    · exact growsTo_find w caller _
    · exact Service.GrowsTo.refl w.service
  | store caller =>
    simp only [act]
    split
    · exact growsTo_store w caller _ _
    · exact Service.GrowsTo.refl w.service

theorem growsTo_run (w : World) (actions : List Action) :
    w.service.GrowsTo (w.run actions).service := by
  unfold run
  induction actions generalizing w with
  | nil => exact Service.GrowsTo.refl w.service
  | cons a actions ih =>
    rw [List.foldl_cons]
    exact (growsTo_act w a).trans (ih (w.act a).2)

/-! ## What calls are answered -/

/-- A call in one step is answered with what the query finds. -/
theorem Sound.results {w : World} (h : w.Sound) (q : Query) :
    (w.service.results q).1 = (w.service.results q).2.find q := by
  rw [(h.entries.results q).1]
  exact (Service.find_congr (Service.settings_results _ q) (Service.library_results _ q) q).symm

theorem Sound.answer_lookUp {w : World} (h : w.Sound) {caller : Nat} {q q' : Query}
    {found : Except Fault Results} (ha : (w.lookUp caller q).1 = some (q', found)) :
    found = (w.lookUp caller q).2.service.find q' := by
  unfold World.lookUp at ha ⊢
  by_cases hq : q.isValid = true
  · rw [if_pos hq] at ha ⊢
    cases hg : w.service.recent.get q with
    | mk hit recent =>
      rw [hg] at ha
      cases hit with
      | none => cases ha
      | some r =>
        cases ha
        exact (h.entries q r (Recent.mem_entries_of_get_eq_some hg)).symm
  · rw [if_neg hq] at ha ⊢
    have hinvalid : q = .invalid := by simpa [Query.isValid] using hq
    subst hinvalid
    cases ha
    rfl

theorem answer_find {w : World} {caller : Nat} {q q' : Query}
    {found : Except Fault Results} (ha : (w.find caller q).1 = some (q', found)) :
    found = (w.find caller q).2.service.find q' := by
  unfold World.find at ha ⊢
  cases hf : w.service.find q with
  | ok r =>
    rw [hf] at ha
    cases ha
  | error fault =>
    rw [hf] at ha
    cases ha
    exact hf.symm

/-- In a sound world every call is answered with what the query finds at that moment. -/
theorem Sound.answer {w : World} (h : w.Sound) {a : Action} {q : Query}
    {found : Except Fault Results} (ha : (w.act a).1 = some (q, found)) :
    found = (w.act a).2.service.find q := by
  cases a with
  | search raw page =>
    cases ha
    show _ = (w.service.search raw page).2.find (Query.ofInput raw)
    rw [Service.search_snd]
    exact h.results (Query.ofInput raw)
  | results q' =>
    cases ha
    exact h.results q
  | compute files q' =>
    simp only [World.act] at ha ⊢
    split at ha
    · rename_i hready
      cases ha
      exact (h.entries.compute files q).2 hready
    · cases ha
  | lookUp caller q' =>
    simp only [World.act] at ha ⊢
    split at ha
    · exact h.answer_lookUp ha
    · cases ha
  | find caller =>
    simp only [World.act] at ha ⊢
    split at ha
    · exact answer_find ha
    · cases ha
  | store caller =>
    simp only [World.act] at ha ⊢
    split at ha
    · rename_i q' r hc
      cases ha
      exact (h.computed caller q r hc).symm
    · cases ha
  | _ => cases ha

/-- Whatever clients have done and however their calls overlap, a call for results is answered with
what the query finds in the library at that moment, and once it is answered with results it has
these results after all that may still be done. -/
theorem results_eq_find_of_run (settings : Settings) (library : Library)
    (actions : List Action) :
    let w := (start settings library).run actions
    (∀ q : Query, (w.service.results q).1 = w.service.find q) ∧
      (∀ (a : Action) (q : Query) (found : Except Fault Results),
        (w.act a).1 = some (q, found) → found = (w.act a).2.service.find q) ∧
      ∀ (a : Action) (q : Query) (r : Results), (w.act a).1 = some (q, .ok r) →
        ∀ more : List Action, (((w.act a).2.run more).service.results q).1 = .ok r := by
  intro w
  have hw : w.Sound := (sound_start settings library).run actions
  refine ⟨fun q => (hw.entries.results q).1, fun a q found ha => hw.answer ha, ?_⟩
  intro a q r ha more
  have hlater : ((w.act a).2.run more).Sound := (hw.act a).run more
  rw [(hlater.entries.results q).1]
  exact Service.find_of_growsTo (growsTo_run (w.act a).2 more) (hw.answer ha).symm

end World

end VerseSearch
