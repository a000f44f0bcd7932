import VerseSearch.Search.Find
import VerseSearch.Search.Recent
import VerseSearch.Service.Page
import VerseSearch.Settings.Environment

/-!
# The search service

A service has settings, a library of corpora, and a table of recent results. Every step gives an
answer and the service after it. The table saves work and nothing else: an invalid query is not
looked up in it, and a query that fails leaves no trace in it (`results_of_error`).
-/

set_option autoImplicit false

namespace VerseSearch

/-- A running search service. -/
structure Service where
  settings : Settings
  library : Library
  /-- Results of recent queries. -/
  recent : Recent Query Results
deriving DecidableEq, Repr

namespace Service

/-- A service over a library, with no results yet. -/
def ofLibrary (settings : Settings) (library : Library) : Service :=
  ⟨settings, library, .empty settings.cacheCapacity⟩

/-- A service without corpora. -/
def start (settings : Settings) : Service :=
  ofLibrary settings { directory := settings.dataDirectory }

/-! ## Corpora -/

/-- The corpus of a layer, from its file if it is not installed. -/
def load (s : Service) (files : Files) (layer : Layer) : Except Fault Corpus × Service :=
  let p := s.library.load files layer
  (p.1, { s with library := p.2 })

/-- Loads all corpora. The answer is how many of them could be loaded. -/
def loadAll (s : Service) (files : Files) : Nat × Service :=
  let loaded := s.library.loadEach files Layer.all
  (loaded.1, { s with library := loaded.2 })

/-- Installs a corpus in the place of its layer. -/
def insert (s : Service) (c : Corpus) : Except Fault Corpus × Service :=
  match s.library.insert c with
  | .error fault => (.error fault, s)
  | .ok library => (.ok c, { s with library })

/-! ## Results and pages -/

/-- What the query finds in the library now. -/
def find (s : Service) (q : Query) : Except Fault Results := s.library.find s.settings.wildcard q

/-- The results of a query, kept ones if there are any. -/
def results (s : Service) (q : Query) : Except Fault Results × Service :=
  if q.isValid then
    let p := s.recent.getOrCompute q fun _ => s.find q
    (p.1, { s with recent := p.2 })
  else (.ok .empty, s)

/-- A page of a query's results. -/
def render (s : Service) (q : Query) (r : Results) (page : Nat) : Except Fault Page :=
  Page.render s.settings.markers s.settings.perPage q r page

/-- A page of what a typed text finds. -/
def search (s : Service) (raw : String) (page : Nat) : Except Fault Page × Service :=
  let q := Query.ofInput raw
  match s.results q with
  | (.error fault, s') => (.error fault, s')
  | (.ok r, s') => (s.render q r page, s')

/-- Forgets all recent results. -/
def forget (s : Service) : Service := { s with recent := s.recent.clear }

/-! ## Laws -/

@[simp] theorem results_invalid (s : Service) : s.results .invalid = (.ok .empty, s) := rfl

/-- A query that fails changes nothing. -/
theorem results_of_error {s : Service} {q : Query} {fault : Fault}
    (h : (s.results q).1 = .error fault) : (s.results q).2 = s := by
  unfold results at h ⊢
  split
  · rename_i hq
    rw [if_pos hq] at h
    simp only at h ⊢
    unfold Recent.getOrCompute at h ⊢
    split at h
    · simp at h
    · rename_i t' hm
      have ht : t' = s.recent := by
        unfold Recent.get at hm
        split at hm
        · exact (Prod.mk.inj hm).2.symm
        · simp at hm
      split at h
      · rename_i hc
        simp [ht]
      · simp at h
  · rfl

end Service

end VerseSearch
