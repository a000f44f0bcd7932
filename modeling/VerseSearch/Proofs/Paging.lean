import Mathlib.Algebra.Order.Floor.Div
import VerseSearch.Proofs.Answers
import VerseSearch.Service.Basic

/-!
# Pages divide the results

A page shows the rows at its positions, and the positions of the pages cover all rows once and in
order (`Service.pages_divide_rows`). The bounds of a page are 64-bit numbers, but the page that is
shown is never so far out that one of them would not fit: `Page.start_pager` and `Page.min_stop_pager`.
-/

set_option autoImplicit false

namespace VerseSearch

namespace Pager

variable {p : Pager} {n : Nat}

theorem totalPages_eq_ceilDiv (p : Pager) : p.totalPages = p.totalItems ⌈/⌉ p.perPage := by
  rw [totalPages, Nat.ceilDiv_eq_add_pred_div, Nat.add_sub_assoc p.perPage_pos]

/-- The pages up to one that is not the last do not hold all items. -/
theorem mul_perPage_lt (h : n < p.totalPages) : n * p.perPage < p.totalItems :=
  Nat.lt_of_not_le fun hle => Nat.not_le.2 h ((p.totalPages_le_iff n).2 hle)

/-- All pages together hold all items. -/
theorem le_totalPages_mul (p : Pager) : p.totalItems ≤ p.totalPages * p.perPage :=
  (p.totalPages_le_iff _).1 (Nat.le_refl _)

/-- There are no more pages than items. -/
theorem totalPages_le (p : Pager) : p.totalPages ≤ p.totalItems :=
  (p.totalPages_le_iff _).2 (Nat.le_mul_of_pos_right _ p.perPage_pos)

end Pager

namespace Page

variable {size perPage : Nat}

theorem currentPage_pager (size perPage n : Nat) :
    (pager size perPage n).currentPage =
      min (max n 1) (max (size ⌈/⌉ max perPage 1) 1) := by
  show min (max n 1) (max (Pager.ofState 1 size perPage).totalPages 1) = _
  rw [Pager.totalPages_eq_ceilDiv]
  rfl

/-- A page that is shown begins at an item, or there are none. -/
theorem pred_currentPage_mul_lt (size perPage n : Nat) :
    ((pager size perPage n).currentPage - 1) * max perPage 1 < max size 1 := by
  let p := Pager.ofState 1 size perPage
  have hcurrent : (pager size perPage n).currentPage ≤ max p.totalPages 1 := (p.clamp_mem n).2
  by_cases hnone : p.totalPages = 0
  · have hfirst : (pager size perPage n).currentPage - 1 = 0 := by omega
    rw [hfirst, Nat.zero_mul]
    exact Nat.le_max_right size 1
  · have hlt : (pager size perPage n).currentPage - 1 < p.totalPages := by omega
    exact Nat.lt_of_lt_of_le (Pager.mul_perPage_lt hlt) (Nat.le_max_left size 1)

theorem pred_currentPage_mul_le (size perPage n : Nat) :
    ((pager size perPage n).currentPage - 1) * max perPage 1 ≤ size := by
  have hlt := pred_currentPage_mul_lt size perPage n
  omega

/-- The first position of the page that is shown is a 64-bit number. -/
theorem start_pager (hsize : size ≤ Pager.limit) (n : Nat) :
    (pager size perPage n).start =
      ((pager size perPage n).currentPage - 1) * max perPage 1 :=
  Nat.min_eq_left ((pred_currentPage_mul_le size perPage n).trans hsize)

/-- The last position of the page may be no 64-bit number, but the results end before. -/
theorem min_stop_pager (hsize : size ≤ Pager.limit) (n : Nat) :
    min (pager size perPage n).stop size =
      min ((pager size perPage n).currentPage * max perPage 1) size := by
  show min (min _ Pager.limit) size = _
  rw [Nat.min_assoc, Nat.min_eq_right hsize]
  rfl

variable {r : Results} {n : Nat}

/-- The rows on the requested page are those at its positions. -/
theorem rowsOn_eq (hr : r.IsAnswer) (hsize : r.size ≤ Pager.limit) (perPage n : Nat) :
    let number := (pager r.size perPage n).currentPage
    rowsOn perPage r n =
      (r.rows.take (min (number * max perPage 1) r.size)).drop ((number - 1) * max perPage 1) := by
  intro number
  have htake : r.rows.take (pager r.size perPage n).stop =
      r.rows.take (min (number * max perPage 1) r.size) := by
    rw [List.take_eq_take_iff, hr.length_rows, min_stop_pager hsize, Nat.min_assoc, Nat.min_self]
  simp only [rowsOn]
  rw [hr.slice_eq, start_pager hsize, htake]

/-- The pages that there are, are shown as they are requested. -/
theorem currentPage_pager_of_mem (hn : 1 ≤ n) (hlast : n ≤ size ⌈/⌉ max perPage 1) :
    (pager size perPage n).currentPage = n := by
  rw [currentPage_pager]
  omega

/-- A page between the first and the last one. -/
theorem rowsOn_of_mem (hr : r.IsAnswer) (hsize : r.size ≤ Pager.limit) (hn : 1 ≤ n)
    (hlast : n ≤ r.size ⌈/⌉ max perPage 1) :
    rowsOn perPage r n = (r.rows.take (n * max perPage 1)).drop ((n - 1) * max perPage 1) := by
  have htake : r.rows.take (min (n * max perPage 1) r.size) = r.rows.take (n * max perPage 1) := by
    rw [List.take_eq_take_iff, hr.length_rows, Nat.min_assoc, Nat.min_self]
  rw [rowsOn_eq hr hsize, currentPage_pager_of_mem hn hlast, htake]

/-- The first pages one after the other show the first rows. -/
theorem flatMap_rowsOn (hr : r.IsAnswer) (hsize : r.size ≤ Pager.limit)
    (hlast : n ≤ r.size ⌈/⌉ max perPage 1) :
    (List.range' 1 n).flatMap (rowsOn perPage r) = r.rows.take (n * max perPage 1) := by
  induction n with
  | zero => simp
  | succ n ih =>
    have hpage := rowsOn_of_mem hr hsize (Nat.le_add_left 1 n) hlast
    have hbefore : n * max perPage 1 ≤ (n + 1) * max perPage 1 :=
      Nat.mul_le_mul_right _ (Nat.le_succ n)
    have htake : r.rows.take (n * max perPage 1) =
        (r.rows.take ((n + 1) * max perPage 1)).take (n * max perPage 1) := by
      rw [List.take_take, Nat.min_eq_left hbefore]
    rw [List.range'_concat, List.flatMap_append, List.flatMap_singleton, ih (Nat.le_of_succ_le hlast),
      Nat.one_mul, Nat.add_comm 1 n, hpage, Nat.add_sub_cancel, htake, List.take_append_drop]

/-- A page holds what is left of the rows, and no more than a page can hold. -/
theorem length_rowsOn (hr : r.IsAnswer) (hsize : r.size ≤ Pager.limit) (hn : 1 ≤ n)
    (hlast : n ≤ r.size ⌈/⌉ max perPage 1) :
    (rowsOn perPage r n).length = min (n * max perPage 1) r.size - (n - 1) * max perPage 1 := by
  rw [rowsOn_of_mem hr hsize hn hlast, List.length_drop, List.length_take, hr.length_rows]

/-- A page before the last is full. -/
theorem length_rowsOn_of_lt (hr : r.IsAnswer) (hsize : r.size ≤ Pager.limit) (hn : 1 ≤ n)
    (hlt : n < r.size ⌈/⌉ max perPage 1) : (rowsOn perPage r n).length = max perPage 1 := by
  have hpages := Pager.totalPages_eq_ceilDiv (Pager.ofState 1 r.size perPage)
  have hbefore : n * max perPage 1 < r.size := Pager.mul_perPage_lt (hpages.symm ▸ hlt)
  have hfull : n * max perPage 1 = (n - 1) * max perPage 1 + max perPage 1 := by
    rw [← Nat.succ_mul, Nat.succ_eq_add_one, Nat.sub_add_cancel hn]
  rw [length_rowsOn hr hsize hn (Nat.le_of_lt hlt), Nat.min_eq_left (Nat.le_of_lt hbefore), hfull,
    Nat.add_sub_cancel_left]

/-- The last page is not empty. -/
theorem length_rowsOn_last_pos (hr : r.IsAnswer) (hsize : r.size ≤ Pager.limit)
    (hpos : 0 < r.size ⌈/⌉ max perPage 1) :
    0 < (rowsOn perPage r (r.size ⌈/⌉ max perPage 1)).length := by
  let p := Pager.ofState 1 r.size perPage
  have hpages : p.totalPages = r.size ⌈/⌉ max perPage 1 := p.totalPages_eq_ceilDiv
  have hall : r.size ≤ (r.size ⌈/⌉ max perPage 1) * max perPage 1 := hpages ▸ p.le_totalPages_mul
  have hbegun : (r.size ⌈/⌉ max perPage 1 - 1) * max perPage 1 < r.size :=
    Pager.mul_perPage_lt (p := p) (hpages.symm ▸ Nat.sub_lt hpos Nat.one_pos)
  rw [length_rowsOn hr hsize hpos (Nat.le_refl _), Nat.min_eq_right hall]
  exact Nat.sub_pos_of_lt hbegun

/-- All pages one after the other show all rows. -/
theorem flatMap_rowsOn_all (hr : r.IsAnswer) (hsize : r.size ≤ Pager.limit) (perPage : Nat) :
    (List.range' 1 (r.size ⌈/⌉ max perPage 1)).flatMap (rowsOn perPage r) = r.rows := by
  let p := Pager.ofState 1 r.size perPage
  have hpages : p.totalPages = r.size ⌈/⌉ max perPage 1 := p.totalPages_eq_ceilDiv
  have hall : r.size ≤ (r.size ⌈/⌉ max perPage 1) * max perPage 1 := hpages ▸ p.le_totalPages_mul
  rw [flatMap_rowsOn hr hsize (Nat.le_refl _), List.take_of_length_le (hr.length_rows ▸ hall)]

/-! ## Pages that are answered -/

variable {q : Query} {markers : Markers} {page : Page}

/-- The page that is shown is the nearest one to the requested page; the number of its first row is
one more than the position. -/
theorem counts_of_render (hq : q.isValid = true) (hsize : r.size ≤ Pager.limit)
    (hpage : render markers perPage q r n = .ok page) :
    page.number = min (max n 1) (max (r.size ⌈/⌉ max perPage 1) 1) ∧
      page.totalPages = r.size ⌈/⌉ max perPage 1 ∧
      page.start = (page.number - 1) * max perPage 1 + 1 := by
  obtain ⟨views, _, rfl⟩ := (render_eq_ok_iff hq).1 hpage
  exact ⟨currentPage_pager r.size perPage n,
    Pager.totalPages_eq_ceilDiv (pager r.size perPage n), congrArg (· + 1) (start_pager hsize n)⟩

/-- A page begins behind the rows on the pages before it. -/
theorem start_of_render (hq : q.isValid = true) (hr : r.IsAnswer) (hsize : r.size ≤ Pager.limit)
    (hpage : render markers perPage q r n = .ok page) :
    page.start =
      1 + ((List.range' 1 (page.number - 1)).flatMap (rowsOn perPage r)).length := by
  obtain ⟨hnumber, _, hstart⟩ := counts_of_render hq hsize hpage
  have hbefore : page.number - 1 ≤ r.size ⌈/⌉ max perPage 1 := by omega
  have hle : (page.number - 1) * max perPage 1 ≤ r.size := by
    have hcurrent := pred_currentPage_mul_le r.size perPage n
    rwa [currentPage_pager, ← hnumber] at hcurrent
  rw [flatMap_rowsOn hr hsize hbefore, List.length_take, hr.length_rows, hstart,
    Nat.min_eq_left hle, Nat.add_comm]

end Page

/-- Pages divide the results. For every valid query and all results that a query can have, a request
for any page is for the nearest one there is, page `k`, with the rows at the positions from
`(k - 1) * perPage` on and before `k * perPage`, no bound of which is cut off by the range of the
numbers. The pages one after the other have each row once, in the order of the corpus; each page but
the last is full, and the last is not empty. If the page is answered, it shows a view of each of its
rows, and begins behind the rows on the pages before; it is not answered only if one of its rows
cannot be emphasized. -/
theorem Service.pages_divide_rows (s : Service) {q : Query} {r : Results}
    (hq : q.isValid = true) (hr : r.IsAnswer) (hsize : r.size < UInt64.size) :
    let perPage := max s.settings.perPage 1
    let last := r.size ⌈/⌉ perPage
    let view := VerseView.ofRow s.settings.markers r.pattern
    let pager := Page.pager r.size s.settings.perPage
    let rowsOn := Page.rowsOn s.settings.perPage r
    (r.hits.map r.rowOf? = r.rows.map some ∧ r.hits.Pairwise fun h h' => h.index < h'.index) ∧
    (∀ n, let k := min (max n 1) (max last 1)
      rowsOn n = (r.rows.take (min (k * perPage) r.size)).drop ((k - 1) * perPage) ∧
      0 < (pager n).perPage ∧ (pager n).start = (k - 1) * perPage ∧
      min (pager n).stop r.size = min (k * perPage) r.size ∧
      k < UInt64.size ∧ last < UInt64.size ∧ (k - 1) * perPage + 1 < UInt64.size ∧
      (∀ page, s.render q r n = .ok page →
        page.number = k ∧ page.totalPages = last ∧ page.start = (k - 1) * perPage + 1 ∧
        page.views.map .ok = (rowsOn n).map view) ∧
      ∀ fault, s.render q r n = .error fault → ∃ row ∈ rowsOn n, view row = .error fault) ∧
    (List.range' 1 last).flatMap rowsOn = r.rows ∧
    (∀ n, 1 ≤ n → n < last → (rowsOn n).length = perPage) ∧
    (0 < last → 0 < (rowsOn last).length) ∧
    ∀ n page, s.render q r n = .ok page →
      page.start = 1 + ((List.range' 1 (page.number - 1)).flatMap rowsOn).length := by
  intro perPage last view pager rowsOn
  have hlimit : r.size ≤ Pager.limit := Nat.le_sub_one_of_lt hsize
  refine ⟨⟨hr.map_rowOf?, hr.pairwise_hits⟩, fun n => ?_,
    Page.flatMap_rowsOn_all hr hlimit s.settings.perPage,
    fun n hn hlt => Page.length_rowsOn_of_lt hr hlimit hn hlt,
    fun hpos => Page.length_rowsOn_last_pos hr hlimit hpos,
    fun n page hpage => Page.start_of_render hq hr hlimit hpage⟩
  intro k
  have hk : (pager n).currentPage = k := Page.currentPage_pager _ _ _
  have hstart : (pager n).start = (k - 1) * perPage := hk ▸ Page.start_pager hlimit n
  have hstop : min (pager n).stop r.size = min (k * perPage) r.size :=
    hk ▸ Page.min_stop_pager hlimit n
  have hrows := Page.rowsOn_eq hr hlimit s.settings.perPage n
  have hfirst : (k - 1) * perPage < max r.size 1 :=
    hk ▸ Page.pred_currentPage_mul_lt r.size s.settings.perPage n
  -- there are no more pages than rows, and a page begins at one of them
  have hpages : (Pager.ofState 1 r.size s.settings.perPage).totalPages = last :=
    Pager.totalPages_eq_ceilDiv _
  have hfew : last ≤ r.size := hpages ▸ Pager.totalPages_le _
  have hlast : k ≤ max last 1 := Nat.min_le_right _ _
  have hone : 1 < UInt64.size := by decide
  have hbegin : (k - 1) * perPage + 1 < UInt64.size :=
    Nat.lt_of_le_of_lt (Nat.succ_le_of_lt hfirst) (Nat.max_lt.2 ⟨hsize, hone⟩)
  refine ⟨hk ▸ hrows, (pager n).perPage_pos, hstart, hstop, by omega, by omega, hbegin, ?_,
    fun fault hfault => (Page.exists_row_of_render_eq_error hfault).2⟩
  intro page hpage
  obtain ⟨hnumber, htotal, hbegun⟩ := Page.counts_of_render hq hlimit hpage
  obtain ⟨views, hviews, rfl⟩ := (Page.render_eq_ok_iff hq).1 hpage
  refine ⟨hnumber, htotal, ?_, hviews.symm⟩
  rw [hbegun, hnumber]

/-- Three verses on pages of two: the first page is full, the second is not empty, and it is shown
for every page further out. -/
theorem Service.three_rows_on_two_pages :
    let s := Service.start { Settings.usual "data" with perPage := 2 }
    let q := Query.reference "" none
    let verse : Verse := ⟨"\u0642\u0644", 1, 112, "\u0627\u0644\u0627\u062E\u0644\u0627\u0635"⟩
    let r := referenceResults ⟨.letters, [verse, verse, verse]⟩ "" none
    (Page.rowsOn 2 r 1).length = 2 ∧ 0 < (Page.rowsOn 2 r 2).length ∧
      ∃ page, s.render q r 9 = .ok page ∧ page.number = 2 ∧ page.start = 3 := by
  intro s q verse r
  have htwo : r.size ⌈/⌉ max s.settings.perPage 1 = 2 := by decide
  obtain ⟨_, hpage, _, hfull, hlast, _⟩ := Service.pages_divide_rows s (q := q) (r := r) rfl
    (.reference _ _ _) (by decide)
  obtain ⟨_, _, _, _, _, _, _, hanswered, _⟩ := hpage 9
  rw [htwo] at hlast
  refine ⟨hfull 1 (Nat.le_refl 1) (by decide), hlast (by decide), ?_⟩
  cases hrender : s.render q r 9 with
  | error fault =>
    -- without a pattern every row is shown
    obtain ⟨_, row, _, hrow⟩ := Page.exists_row_of_render_eq_error hrender
    cases hrow
  | ok page =>
    obtain ⟨hnumber, _, hstart, _⟩ := hanswered page hrender
    exact ⟨page, rfl, hnumber.trans (by decide), hstart.trans (by decide)⟩

end VerseSearch
