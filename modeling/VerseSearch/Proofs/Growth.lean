import VerseSearch.Service.Session

/-!
# A library only grows

No step of a service takes a corpus out of its library or puts another one in its place, and no step
changes the settings. `Service.find` reads nothing but the settings and installed corpora, so what a
query has found once it finds from then on (`find_of_growsTo`).
-/

set_option autoImplicit false

namespace VerseSearch

namespace Library

/-- The second library holds every corpus that the first one holds. -/
def GrowsTo (l l' : Library) : Prop :=
  ∀ (layer : Layer) (c : Corpus), l.get? layer = some c → l'.get? layer = some c

theorem GrowsTo.refl (l : Library) : l.GrowsTo l := fun _ _ h => h

theorem GrowsTo.trans {l l' l'' : Library} (h : l.GrowsTo l') (h' : l'.GrowsTo l'') :
    l.GrowsTo l'' :=
  fun layer c hc => h' layer c (h layer c hc)

theorem growsTo_of_insert {l l' : Library} {c : Corpus} (h : l.insert c = .ok l') :
    l.GrowsTo l' :=
  fun _ _ hc => get?_of_get?_insert h hc

theorem growsTo_load (l : Library) (files : Files) (layer : Layer) :
    l.GrowsTo (l.load files layer).2 :=
  fun _ _ hc => get?_of_get?_load hc files layer

theorem growsTo_loadEach (l : Library) (files : Files) (layers : List Layer) :
    l.GrowsTo (l.loadEach files layers).2 := by
  induction layers generalizing l with
  | nil => exact GrowsTo.refl l
  | cons layer layers ih =>
    exact (growsTo_load l files layer).trans (ih (l.load files layer).2)

theorem require_of_growsTo {l l' : Library} (h : l.GrowsTo l') {layer : Layer} {c : Corpus}
    (hc : l.require layer = .ok c) : l'.require layer = .ok c := by
  unfold require at hc ⊢
  cases hl : l.get? layer with
  | none => simp [hl] at hc
  | some held =>
    rw [hl] at hc
    rw [h layer held hl]
    exact hc

/-- What is found in a library is found in every library that it grows to. -/
theorem find_of_growsTo {l l' : Library} (h : l.GrowsTo l') {wildcard : String} {q : Query}
    {r : Results} (hr : l.find wildcard q = .ok r) : l'.find wildcard q = .ok r := by
  cases q with
  | invalid => exact hr
  | content layer keyword =>
    simp only [find] at hr ⊢
    cases hc : l.require layer with
    | error fault => simp [hc] at hr
    | ok c =>
      rw [hc] at hr
      rw [require_of_growsTo h hc]
      exact hr
  | reference surah number =>
    simp only [find] at hr ⊢
    cases hc : l.require .letters with
    | error fault => simp [hc] at hr
    | ok c =>
      rw [hc] at hr
      rw [require_of_growsTo h hc]
      exact hr

end Library

namespace Service

/-- The second service has the settings of the first and a library that the first one's grows to. -/
structure GrowsTo (s s' : Service) : Prop where
  settings_eq : s'.settings = s.settings
  library : s.library.GrowsTo s'.library

theorem GrowsTo.refl (s : Service) : s.GrowsTo s := ⟨rfl, Library.GrowsTo.refl s.library⟩

theorem GrowsTo.trans {s s' s'' : Service} (h : s.GrowsTo s') (h' : s'.GrowsTo s'') :
    s.GrowsTo s'' :=
  ⟨h'.settings_eq.trans h.settings_eq, h.library.trans h'.library⟩

/-- What a service finds it finds after every growth. -/
theorem find_of_growsTo {s s' : Service} (h : s.GrowsTo s') {q : Query} {r : Results}
    (hr : s.find q = .ok r) : s'.find q = .ok r := by
  unfold find at hr ⊢
  rw [h.settings_eq]
  exact Library.find_of_growsTo h.library hr

theorem find_congr {s s' : Service} (hs : s'.settings = s.settings)
    (hl : s'.library = s.library) (q : Query) : s'.find q = s.find q := by
  unfold find
  rw [hs, hl]

/-! ## Steps -/

@[simp] theorem settings_results (s : Service) (q : Query) :
    (s.results q).2.settings = s.settings := by
  unfold results
  split <;> rfl

@[simp] theorem library_results (s : Service) (q : Query) :
    (s.results q).2.library = s.library := by
  unfold results
  split <;> rfl

/-- Searching changes a service as getting the results does. -/
theorem search_snd (s : Service) (raw : String) (page : Nat) :
    (s.search raw page).2 = (s.results (Query.ofInput raw)).2 := by
  simp only [search]
  split
  · rename_i h
    rw [h]
  · rename_i h
    rw [h]

theorem growsTo_results (s : Service) (q : Query) : s.GrowsTo (s.results q).2 :=
  ⟨settings_results s q, (library_results s q).symm ▸ Library.GrowsTo.refl s.library⟩

theorem growsTo_load (s : Service) (files : Files) (layer : Layer) :
    s.GrowsTo (s.load files layer).2 :=
  ⟨rfl, Library.growsTo_load s.library files layer⟩

theorem growsTo_loadAll (s : Service) (files : Files) : s.GrowsTo (s.loadAll files).2 :=
  ⟨rfl, Library.growsTo_loadEach s.library files Layer.all⟩

theorem growsTo_insert (s : Service) (c : Corpus) : s.GrowsTo (s.insert c).2 := by
  unfold insert
  cases h : s.library.insert c with
  | error fault => exact GrowsTo.refl s
  | ok library => exact ⟨rfl, Library.growsTo_of_insert h⟩

theorem growsTo_forget (s : Service) : s.GrowsTo s.forget :=
  ⟨rfl, Library.GrowsTo.refl s.library⟩

end Service

end VerseSearch
