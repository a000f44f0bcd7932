import VerseSearch.Proofs.Availability
import VerseSearch.Proofs.Complete
import VerseSearch.Web.Requests

/-!
# What a library holds

A corpus gets into a library by being inserted or by being read from the file of its layer, and only
into a place that is empty (`World.get?_act`). So every corpus is held for its own layer, and one
that was read from a file has numbered verses only. Files may change between any two steps: a load
depends on the file of its layer at that moment, and on nothing that was read before.
-/

set_option autoImplicit false

namespace VerseSearch

/-! ## Single steps -/

namespace Library

variable {l : Library} {files : Files} {layer : Layer} {c held : Corpus}

/-- A corpus that is read from the file of a layer is of that layer, and its verses are numbered. -/
theorem isNumbered_of_read (h : l.read files layer = .ok c) :
    c.layer = layer ∧ ∀ v ∈ c.verses, v.IsNumbered := by
  unfold read at h
  split at h
  · cases h
  · split at h
    · cases h
    · split at h
      · cases h
      · rename_i hread
        cases h
        exact Corpus.isNumbered_of_ofJson hread

/-- A file that holds the text of a corpus can be read. -/
theorem read_of_ofJson {text : String} (h : Corpus.ofJson layer text = .ok c) :
    l.read (fun _ => some text.toUTF8) layer = .ok c := by
  have hvalid : text.toUTF8.IsValidUTF8 := text.isValidUTF8
  have htext : String.fromUTF8? text.toUTF8 = some text := by
    rw [String.fromUTF8?, dif_pos hvalid]
    rfl
  rw [read]
  simp only [htext, h]

theorem load_of_held (h : l.get? layer = some c) (files : Files) :
    l.load files layer = (.ok c, l) := by
  rw [load, h]

theorem load_of_read (hnone : l.get? layer = none) (hread : l.read files layer = .ok c) :
    l.load files layer = (.ok c, l.set layer c) := by
  rw [load, hnone, hread]

theorem load_of_unreadable {fault : LoadFault} (hnone : l.get? layer = none)
    (hread : l.read files layer = .error fault) :
    l.load files layer = (.error (.load fault), l) := by
  rw [load, hnone, hread]

/-- A load finds the corpus in its place, or fails, or fills the place from the file. -/
theorem load_cases (l : Library) (files : Files) (layer : Layer) :
    (∃ c, l.get? layer = some c ∧ l.load files layer = (.ok c, l)) ∨
      (∃ fault, l.get? layer = none ∧ l.load files layer = (.error (.load fault), l)) ∨
      ∃ c, l.get? layer = none ∧ l.read files layer = .ok c ∧
        l.load files layer = (.ok c, l.set layer c) := by
  cases hheld : l.get? layer with
  | some c => exact .inl ⟨c, rfl, load_of_held hheld files⟩
  | none =>
    cases hread : l.read files layer with
    | error fault => exact .inr (.inl ⟨fault, rfl, load_of_unreadable hheld hread⟩)
    | ok c => exact .inr (.inr ⟨c, rfl, rfl, load_of_read hheld hread⟩)

@[simp] theorem directory_set (l : Library) (layer : Layer) (c : Corpus) :
    (l.set layer c).directory = l.directory := by
  cases layer <;> rfl

theorem directory_load (l : Library) (files : Files) (layer : Layer) :
    (l.load files layer).2.directory = l.directory := by
  rcases l.load_cases files layer with ⟨c, _, h⟩ | ⟨fault, _, h⟩ | ⟨c, _, _, h⟩
  · rw [h]
  · rw [h]
  · rw [h, directory_set]

/-- Which file is read depends on the directory only. -/
theorem read_congr {l' : Library} (h : l'.directory = l.directory) (files : Files)
    (layer : Layer) : l'.read files layer = l.read files layer := by
  rw [read, read, path, path, h]

theorem directory_insert {l' : Library} (h : l.insert c = .ok l') : l'.directory = l.directory := by
  unfold insert at h
  split at h
  · cases h
  · cases h
    exact directory_set l c.layer c

theorem insert_of_held (h : l.get? c.layer = some held) :
    l.insert c = .error (.alreadyLoaded c.layer) := by
  rw [insert, h]

/-- Inserting brings in the inserted corpus only, in the place of its layer. -/
theorem get?_of_insert {l' : Library} {other : Corpus} (h : l.insert other = .ok l')
    (hheld : l'.get? layer = some c) : l.get? layer = some c ∨ (other = c ∧ c.layer = layer) := by
  unfold insert at h
  split at h
  · cases h
  · cases h
    rw [get?_set] at hheld
    split at hheld
    · rename_i heq
      cases hheld
      exact .inr ⟨rfl, heq.symm⟩
    · exact .inl hheld

/-- A load brings in a corpus from the file of its layer, if any. -/
theorem get?_of_load {other : Layer} (h : (l.load files other).2.get? layer = some c) :
    l.get? layer = some c ∨ l.read files layer = .ok c := by
  rcases l.load_cases files other with ⟨_, _, hload⟩ | ⟨_, _, hload⟩ | ⟨read, _, hread, hload⟩
  · rw [hload] at h
    exact .inl h
  · rw [hload] at h
    exact .inl h
  · rw [hload, get?_set] at h
    split at h
    · rename_i heq
      cases h
      exact .inr (heq ▸ hread)
    · exact .inl h

theorem directory_loadEach (l : Library) (files : Files) (layers : List Layer) :
    (l.loadEach files layers).2.directory = l.directory := by
  induction layers generalizing l with
  | nil => rfl
  | cons layer layers ih => exact (ih (l.load files layer).2).trans (directory_load l files layer)

/-- Loading several layers brings in corpora from their files, if any. -/
theorem get?_of_loadEach {layers : List Layer}
    (h : (l.loadEach files layers).2.get? layer = some c) :
    l.get? layer = some c ∨ l.read files layer = .ok c := by
  induction layers generalizing l with
  | nil => exact .inl h
  | cons other layers ih =>
    rcases ih h with hheld | hread
    · exact get?_of_load hheld
    · exact .inr ((read_congr (directory_load l files other) files layer).symm.trans hread)

theorem get?_load_of_ne {other : Layer} (h : layer ≠ other) :
    (l.load files other).2.get? layer = l.get? layer := by
  rcases l.load_cases files other with ⟨_, _, hload⟩ | ⟨_, _, hload⟩ | ⟨c, _, _, hload⟩
  · rw [hload]
  · rw [hload]
  · rw [hload, get?_set, if_neg h]

theorem get?_loadEach_of_not_mem {layers : List Layer} (h : layer ∉ layers) :
    (l.loadEach files layers).2.get? layer = l.get? layer := by
  induction layers generalizing l with
  | nil => rfl
  | cons other layers ih =>
    rw [List.mem_cons, not_or] at h
    exact (ih h.2).trans (get?_load_of_ne h.1)

/-- A load succeeds exactly if the place is filled afterwards. -/
theorem isOk_load (l : Library) (files : Files) (layer : Layer) :
    (l.load files layer).1.isOk = ((l.load files layer).2.get? layer).isSome := by
  rcases l.load_cases files layer with ⟨c, hheld, hload⟩ | ⟨fault, hnone, hload⟩ |
    ⟨c, _, _, hload⟩
  · rw [hload, hheld]
    rfl
  · rw [hload, hnone]
    rfl
  · rw [hload, get?_set, if_pos rfl]
    rfl

/-- The loads of different layers that succeed are as many as the places of these layers that are
filled afterwards. -/
theorem loadEach_fst (l : Library) (files : Files) {layers : List Layer} (h : layers.Nodup) :
    (l.loadEach files layers).1 =
      layers.countP fun layer => ((l.loadEach files layers).2.get? layer).isSome := by
  induction layers generalizing l with
  | nil => rfl
  | cons layer layers ih =>
    obtain ⟨hfresh, hnodup⟩ := List.nodup_cons.1 h
    have hplace : ((l.loadEach files (layer :: layers)).2.get? layer).isSome =
        (l.load files layer).1.isOk := by
      rw [isOk_load]
      exact congrArg Option.isSome (get?_loadEach_of_not_mem hfresh)
    rw [List.countP_cons, hplace, Nat.add_comm]
    exact congrArg _ (ih (l.load files layer).2 hnodup)

end Library

/-- The files that an action may read. -/
def Action.files? : Action → Option Files
  | .load files _ => some files
  | .loadAll files => some files
  | .compute files _ => some files
  | _ => none

theorem Service.library_compute (s : Service) (files : Files) (q : Query) :
    (s.compute files q).2.library = (s.library.loadEach files q.layer?.toList).2 := by
  unfold compute
  cases q.layer? with
  | none => exact library_results s q
  | some layer =>
    simp only [load, Option.toList_some, Library.loadEach]
    cases hload : s.library.load files layer with
    | mk loaded library =>
      cases loaded with
      | error fault => rfl
      | ok c => exact library_results _ q

namespace World

theorem library_lookUp (w : World) (caller : Nat) (q : Query) :
    (w.lookUp caller q).2.service.library = w.service.library := by
  unfold lookUp
  split
  · split <;> rfl
  · rfl

theorem library_find (w : World) (caller : Nat) (q : Query) :
    (w.find caller q).2.service.library = w.service.library := by
  unfold find
  split <;> rfl

/-- An action leaves the library, or inserts a corpus, or loads some layers from files. -/
theorem library_act (w : World) (a : Action) :
    (w.act a).2.service.library = w.service.library ∨
      (∃ c, a = .insert c ∧ w.service.library.insert c = .ok (w.act a).2.service.library) ∨
      ∃ files layers, a.files? = some files ∧
        (w.act a).2.service.library = (w.service.library.loadEach files layers).2 := by
  cases a with
  | search raw page =>
    left
    show (w.service.search raw page).2.library = _
    rw [Service.search_snd, Service.library_results]
  | results q => exact .inl (Service.library_results w.service q)
  | insert c =>
    simp only [act, Service.insert]
    cases hinsert : w.service.library.insert c with
    | error fault => exact .inl rfl
    | ok library => exact .inr (.inl ⟨c, rfl, hinsert⟩)
  | load files layer => exact .inr (.inr ⟨files, [layer], rfl, rfl⟩)
  | loadAll files => exact .inr (.inr ⟨files, Layer.all, rfl, rfl⟩)
  | compute files q =>
    exact .inr (.inr ⟨files, q.layer?.toList, rfl, Service.library_compute w.service files q⟩)
  | lookUp caller q =>
    left
    simp only [act]
    split
    · exact library_lookUp w caller q
    · rfl
  | find caller =>
    left
    simp only [act]
    split
    · exact library_find w caller _
    · rfl
  | store caller =>
    left
    simp only [act]
    split <;> rfl
  | _ => exact .inl rfl

theorem directory_act (w : World) (a : Action) :
    (w.act a).2.service.library.directory = w.service.library.directory := by
  rcases w.library_act a with hsame | ⟨c, _, hinsert⟩ | ⟨files, layers, _, hload⟩
  · rw [hsame]
  · rw [Library.directory_insert hinsert]
  · rw [hload, Library.directory_loadEach]

theorem directory_run (w : World) (actions : List Action) :
    (w.run actions).service.library.directory = w.service.library.directory := by
  induction actions generalizing w with
  | nil => rfl
  | cons a actions ih => exact (ih (w.act a).2).trans (w.directory_act a)

/-- A corpus that is held after an action was held before, or the action inserted it, or the action
read it from its file. -/
theorem get?_act {w : World} {a : Action} {layer : Layer} {c : Corpus}
    (h : (w.act a).2.service.library.get? layer = some c) :
    w.service.library.get? layer = some c ∨ (a = .insert c ∧ c.layer = layer) ∨
      ∃ files, a.files? = some files ∧ w.service.library.read files layer = .ok c := by
  rcases w.library_act a with hsame | ⟨other, rfl, hinsert⟩ | ⟨files, layers, hfiles, hload⟩
  · exact .inl (hsame ▸ h)
  · rcases Library.get?_of_insert hinsert h with hheld | ⟨rfl, hlayer⟩
    · exact .inl hheld
    · exact .inr (.inl ⟨rfl, hlayer⟩)
  · rw [hload] at h
    rcases Library.get?_of_loadEach h with hheld | hread
    · exact .inl hheld
    · exact .inr (.inr ⟨files, hfiles, hread⟩)

/-- A corpus that is held after a run was held before, or was inserted, or was read from its file. -/
theorem get?_run {w : World} {actions : List Action} {layer : Layer} {c : Corpus}
    (h : (w.run actions).service.library.get? layer = some c) :
    w.service.library.get? layer = some c ∨ (Action.insert c ∈ actions ∧ c.layer = layer) ∨
      ∃ a ∈ actions, ∃ files, a.files? = some files ∧
        w.service.library.read files layer = .ok c := by
  induction actions generalizing w with
  | nil => exact .inl h
  | cons a actions ih =>
    have hrun : w.run (a :: actions) = (w.act a).2.run actions := rfl
    rw [hrun] at h
    rcases ih h with hheld | ⟨hmem, hlayer⟩ | ⟨b, hb, files, hfiles, hread⟩
    · rcases get?_act hheld with hheld | ⟨rfl, hlayer⟩ | ⟨files, hfiles, hread⟩
      · exact .inl hheld
      · exact .inr (.inl ⟨List.mem_cons_self, hlayer⟩)
      · exact .inr (.inr ⟨a, List.mem_cons_self, files, hfiles, hread⟩)
    · exact .inr (.inl ⟨List.mem_cons_of_mem a hmem, hlayer⟩)
    · rw [Library.read_congr (w.directory_act a)] at hread
      exact .inr (.inr ⟨b, List.mem_cons_of_mem a hb, files, hfiles, hread⟩)

end World

/-! ## Requests -/

namespace Web

/-- A service is in order exactly if its library is complete. -/
theorem word_health_eq_ok_iff (s : Service) :
    (health s).word = "ok" ↔ s.library.IsComplete := by
  have hcomplete : (health s).complete = true ↔ s.library.IsComplete := by
    simp only [health, Library.status, List.all_map, List.all_eq_true, Function.comp_apply,
      Option.isSome_map]
    exact ⟨fun h layer => h layer (Layer.mem_all layer), fun h layer _ => h layer⟩
  rw [← hcomplete, Health.word]
  split <;> simp_all

/-- Where the library is complete no search is unavailable. -/
theorem status_search_ne {s : Service} (hs : s.Truthful) (hcomplete : s.library.IsComplete)
    (request : Option String) : (search s request).1.status ≠ 503 := by
  simp only [search]
  split
  · rename_i raw page _ _
    cases hfound : (s.search raw page).1 with
    | ok body => simp [Reply.ofExcept, Reply.status]
    | error fault =>
      have hfault : fault = .givenUp ∨ ∃ noPattern, fault = .pattern noPattern := by
        rcases Service.search_eq_error_iff.1 hfound with hfailed | ⟨r, _, hrendered⟩
        · have hfind : s.find (Query.ofInput raw) = .error fault := (hs.results _).1.symm.trans hfailed
          rcases hcomplete.find_eq_error_iff.1 hfind with ⟨_, _, noPattern, _, _, rfl⟩ | ⟨rfl, _⟩
          · exact .inr ⟨noPattern, rfl⟩
          · exact .inl rfl
        · exact .inl (Page.exists_row_of_render_eq_error hrendered).1
      rcases hfault with rfl | ⟨noPattern, rfl⟩ <;> simp [Reply.ofExcept, Reply.status, faultStatus]
  · simp [Reply.status]

end Web

/-- A library only grows. Whatever is done to a service that starts without corpora, and whatever the
files hold from one step to the next:
a corpus is held for its own layer, it was inserted or read from the file of that layer, and if it is
what some file holds all its verses are numbered; it is never replaced, every later load answers it, and
inserting another one is refused without a change.
A load that fails changes nothing and succeeds with other files, and a load whose file can be read
fills an empty place.
Loading all corpora answers how many are installed afterwards.
Once the service is in order, no search is unavailable ever after. -/
theorem World.library_only_grows (settings : Settings) (directory : String)
    (actions : List Action) :
    let w := (start settings { directory }).run actions
    let s := w.service
    (∀ (layer : Layer) (c : Corpus), s.library.get? layer = some c →
      c.layer = layer ∧
      (Action.insert c ∈ actions ∨
        ∃ a ∈ actions, ∃ files, a.files? = some files ∧ s.library.read files layer = .ok c) ∧
      (∀ files : Files, s.library.read files layer = .ok c → ∀ v ∈ c.verses, v.IsNumbered) ∧
      (∀ other : Corpus, other.layer = layer →
        s.insert other = (.error (.alreadyLoaded layer), s)) ∧
      ∀ more : List Action, let s' := (w.run more).service
        s'.library.get? layer = some c ∧ ∀ files : Files, s'.load files layer = (.ok c, s')) ∧
    (∀ (files : Files) (layer : Layer) (fault : Fault), (s.load files layer).1 = .error fault →
      (s.load files layer).2 = s ∧ ∃ (retry : Files) (c : Corpus),
        (s.load retry layer).1 = .ok c ∧ (s.load retry layer).2.library.get? layer = some c) ∧
    (∀ (files : Files) (layer : Layer) (c : Corpus), s.library.get? layer = none →
      s.library.read files layer = .ok c →
      (s.load files layer).1 = .ok c ∧ (s.load files layer).2.library.get? layer = some c) ∧
    (∀ files : Files, (s.loadAll files).1 = (s.loadAll files).2.library.ready) ∧
    ((Web.health s).word = "ok" → ∀ (more : List Action) (request : Option String),
      (Web.search (w.run more).service request).1.status ≠ 503) := by
  intro w s
  have hdirectory : s.library.directory = directory := directory_run _ _
  have hfills : ∀ (files : Files) (layer : Layer) (c : Corpus), s.library.get? layer = none →
      s.library.read files layer = .ok c →
      (s.load files layer).1 = .ok c ∧ (s.load files layer).2.library.get? layer = some c := by
    intro files layer c hnone hread
    simp only [Service.load, Library.load_of_read hnone hread, Library.get?_set, if_true, and_self]
  refine ⟨fun layer c hheld => ?_, fun files layer fault hfailed => ?_, hfills, fun files => ?_,
    fun hok more request => ?_⟩
  · have horigin : Action.insert c ∈ actions ∧ c.layer = layer ∨ ∃ a ∈ actions, ∃ files,
        a.files? = some files ∧ s.library.read files layer = .ok c := by
      rcases get?_run hheld with hbefore | hinserted | ⟨a, ha, files, hfiles, hread⟩
      · cases layer <;> cases hbefore
      · exact .inl hinserted
      · exact .inr ⟨a, ha, files, hfiles, (Library.read_congr hdirectory files layer).trans hread⟩
    have hlayer : c.layer = layer := by
      rcases horigin with ⟨_, hlayer⟩ | ⟨_, _, _, _, hread⟩
      · exact hlayer
      · exact (Library.isNumbered_of_read hread).1
    refine ⟨hlayer, horigin.imp_left And.left, fun files hread =>
      (Library.isNumbered_of_read hread).2, fun other hother => ?_, fun more => ?_⟩
    · rw [Service.insert, Library.insert_of_held (hother ▸ hheld), hother]
    · have hlater := (growsTo_run w more).library layer c hheld
      refine ⟨hlater, fun files => ?_⟩
      rw [Service.load, Library.load_of_held hlater files]
  · obtain ⟨hsame, hnone⟩ := Service.load_of_error hfailed
    have hread : s.library.read (fun _ => some "[]".toUTF8) layer = .ok ⟨layer, []⟩ :=
      Library.read_of_ofJson (by cases layer <;> decide +kernel)
    exact ⟨hsame, _, _, hfills _ layer _ hnone hread⟩
  · exact Library.loadEach_fst s.library files (by decide)
  · have hsound := ((sound_start settings { directory }).run actions).run more
    refine Web.status_search_ne hsound.entries ?_ request
    exact ((Web.word_health_eq_ok_iff s).1 hok).of_growsTo (growsTo_run w more).library

end VerseSearch
