import VerseSearch.Emphasis
import VerseSearch.Pager
import VerseSearch.Query
import VerseSearch.Search.Results

/-!
# A page of results, ready for display

A page shows a slice of the results of a query: for each row the verse in display form with its
occurrences emphasized, and above and below them the counts and the page bar (`Page.render`).
-/

set_option autoImplicit false

namespace VerseSearch

/-- The line of counts: verses, and after a slash the occurrences if there are any. -/
def statsLine (verses : Nat) (occurrences : Option Nat) : String :=
  match occurrences with
  | some (n + 1) => String.ofList (Numeral.written verses ++ '/' :: Numeral.written (n + 1))
  | _ => String.ofList (Numeral.written verses)

/-- A verse as it is displayed. -/
structure VerseView where
  /-- The verse in display form, with its occurrences emphasized. -/
  text : String
  surahName : String
  surahNumber : UInt32
  number : UInt32
  /-- Surah name and verse number. -/
  reference : String
  /-- Verse number and surah number. -/
  tip : String
  occurrences : Nat
deriving DecidableEq, Repr

namespace VerseView

/-- A number as it is displayed. -/
def shown (n : UInt32) : String := String.ofList (Numeral.written n.toNat)

/-- The view of a row whose verse is emphasized. -/
def ofEmphasized (row : Row) (emphasized : String) : VerseView where
  text := displayForm emphasized
  surahName := row.verse.surahName
  surahNumber := row.verse.surahNumber
  number := row.verse.number
  reference := row.verse.surahName ++ ":" ++ shown row.verse.number
  tip := shown row.verse.number ++ ":" ++ shown row.verse.surahNumber
  occurrences := row.occurrences

/-- The view of a row. -/
def ofRow (markers : Markers) (pattern : Option Pattern) (row : Row) : Except Fault VerseView :=
  (markers.emphasize pattern row.verse.text).map (ofEmphasized row)

end VerseView

/-- A page of results. -/
structure Page where
  layer : Option Layer
  stats : String
  /-- All verses found, on this page or not. -/
  verses : Nat
  /-- All occurrences, where occurrences are counted. -/
  occurrences : Option Nat
  number : Nat
  totalPages : Nat
  /-- The place of the first row among all rows, counted from 1. -/
  start : Nat
  views : List VerseView
  bar : List PageEntry
  skipTitle : String
deriving DecidableEq, Repr

namespace Page

/-- What an invalid query shows. -/
def blank : Page := ⟨none, "", 0, none, 1, 0, 1, [], [], ""⟩

/-- The pager of results on the page nearest to the requested one. -/
def pager (size perPage requested : Nat) : Pager :=
  let p := Pager.ofState 1 size perPage
  { p with currentPage := p.clamp requested }

/-- The page of a query's results that a pager is on, with the views of its rows. -/
def ofViews (q : Query) (r : Results) (p : Pager) (views : List VerseView) : Page where
  layer := q.layer?
  stats := statsLine r.size r.total
  verses := r.size
  occurrences := r.total
  number := p.currentPage
  totalPages := p.totalPages
  start := p.start + 1
  views := views
  bar := p.bar
  skipTitle := p.skipTitle

/-- The rows that the requested page, or the page nearest to it, shows. -/
def rowsOn (perPage : Nat) (r : Results) (requested : Nat) : List Row :=
  let p := pager r.size perPage requested
  r.slice p.start p.stop

/-- The requested page of a query's results, or the page nearest to it. A row that cannot be
emphasized ends it. -/
def render (markers : Markers) (perPage : Nat) (q : Query) (r : Results) (requested : Nat) :
    Except Fault Page :=
  if q.isValid then
    ((rowsOn perPage r requested).mapM (VerseView.ofRow markers r.pattern)).map
      (ofViews q r (pager r.size perPage requested))
  else .ok blank

/-! ## Laws -/

@[simp] theorem render_invalid (markers : Markers) (perPage : Nat) (r : Results) (n : Nat) :
    render markers perPage .invalid r n = .ok blank := rfl

variable {markers : Markers} {perPage : Nat} {q : Query} {r : Results} {n : Nat}

/-- A page of a valid query's results shows its rows, one view for each. -/
theorem render_eq_ok_iff (h : q.isValid = true) {page : Page} :
    render markers perPage q r n = .ok page ↔ ∃ views : List VerseView,
      (rowsOn perPage r n).map (VerseView.ofRow markers r.pattern) = views.map .ok ∧
        page = ofViews q r (pager r.size perPage n) views := by
  rw [render, if_pos h]
  cases hm : (rowsOn perPage r n).mapM (VerseView.ofRow markers r.pattern) with
  | error fault =>
    have hno : ∀ views : List VerseView,
        (rowsOn perPage r n).map (VerseView.ofRow markers r.pattern) ≠ views.map .ok := by
      intro views hviews
      rw [mapM_eq_ok_iff.2 hviews] at hm
      cases hm
    simp [Except.map, hno]
  | ok views =>
    have hviews := mapM_eq_ok_iff.1 hm
    constructor
    · intro hpage
      exact ⟨views, hviews, (Except.ok.inj hpage).symm⟩
    · rintro ⟨views', hviews', rfl⟩
      rw [mapM_eq_ok_iff.2 hviews'] at hm
      cases hm
      rfl

/-- A page that is not answered has a row that cannot be emphasized. -/
theorem exists_row_of_render_eq_error {fault : Fault}
    (h : render markers perPage q r n = .error fault) :
    fault = .givenUp ∧
      ∃ row ∈ rowsOn perPage r n, VerseView.ofRow markers r.pattern row = .error fault := by
  unfold render at h
  split at h
  · cases hm : (rowsOn perPage r n).mapM (VerseView.ofRow markers r.pattern) with
    | error fault' =>
      rw [hm] at h
      cases h
      obtain ⟨row, hrow, hview⟩ := exists_of_mapM_eq_error hm
      refine ⟨?_, row, hrow, hview⟩
      cases hemphasize : markers.emphasize r.pattern row.verse.text with
      | error fault' =>
        rw [VerseView.ofRow, hemphasize] at hview
        cases hview
        exact Markers.eq_givenUp_of_emphasize hemphasize
      | ok text =>
        rw [VerseView.ofRow, hemphasize] at hview
        cases hview
    | ok views =>
      rw [hm] at h
      cases h
  · cases h

/-- The page that is shown is one of the pages, or page 1. -/
theorem number_render (h : q.isValid = true) {page : Page}
    (hpage : render markers perPage q r n = .ok page) :
    page.number = (Pager.ofState 1 r.size perPage).clamp n := by
  obtain ⟨views, _, rfl⟩ := (render_eq_ok_iff h).1 hpage
  rfl

end Page

end VerseSearch
