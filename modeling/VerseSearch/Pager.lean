import VerseSearch.Numeral

/-!
# Pages of a result list, and the bar that leads to them

Pages are numbered from 1 and hold a fixed, positive number of items. Counts and page numbers are
64-bit numbers: where a requested page lies so far out that a bound does not fit, the bound is the
largest such number (`Pager.limit`).
-/

set_option autoImplicit false

namespace VerseSearch

/-- An entry of the page bar. -/
inductive PageEntry where
  /-- A page by its number; the current page is active. -/
  | page (number : Nat) (active : Bool)
  /-- A run of pages that is not shown, and the page its marker leads to. -/
  | skip (target : Nat)
deriving DecidableEq, Repr

namespace PageEntry

/-- The page that the entry leads to. -/
def target : PageEntry → Nat
  | .page number _ => number
  | .skip target => target

/-- The text on the entry: the number in Arabic-Indic digits, or three dots. -/
def label : PageEntry → String
  | .page number _ => String.ofList (Numeral.written number)
  | .skip _ => "..."

end PageEntry

/-- A place in a list of items that is shown page by page. -/
structure Pager where
  currentPage : Nat
  totalItems : Nat
  perPage : Nat
  perPage_pos : 0 < perPage
deriving DecidableEq, Repr

namespace Pager

/-- The largest 64-bit number. -/
def limit : Nat := UInt64.size - 1

/-- Up to this many pages, every page is in the bar. -/
def fullBarPages : Nat := 7

/-- The sum, or the limit if the sum is larger. -/
def addUpTo (a b : Nat) : Nat := min (a + b) limit

/-- The product, or the limit if the product is larger. -/
def mulUpTo (a b : Nat) : Nat := min (a * b) limit

/-- A pager; a page holds at least one item. -/
def ofState (currentPage totalItems perPage : Nat) : Pager :=
  ⟨currentPage, totalItems, max perPage 1, by omega⟩

/-- On page 1 of an empty list. -/
def empty (perPage : Nat) : Pager := ofState 1 0 perPage

/-- The position of the first item of the current page. -/
def start (p : Pager) : Nat := mulUpTo (p.currentPage - 1) p.perPage

/-- The position behind the last item of the current page, were the page full. -/
def stop (p : Pager) : Nat := mulUpTo p.currentPage p.perPage

/-- The number of pages. -/
def totalPages (p : Pager) : Nat := (p.totalItems + (p.perPage - 1)) / p.perPage

/-- The page nearest to the requested one; 1 if there are no pages. -/
def clamp (p : Pager) (page : Nat) : Nat := min (max page 1) (max p.totalPages 1)

/-- The hint on a skip marker: how many pages it skips. -/
def skipTitle (p : Pager) : String :=
  String.ofList (Numeral.written p.perPage) ++ " صفحات"

/-- The entry of a page. -/
def entry (p : Pager) (number : Nat) : PageEntry := .page number (number == p.currentPage)

/-- The marker that leads back. -/
def skipBack (p : Pager) : PageEntry := .skip (max (p.currentPage - p.perPage) 1)

/-- The marker that leads on. -/
def skipOn (p : Pager) : PageEntry := .skip (min (addUpTo p.currentPage p.perPage) p.totalPages)

/-- The page bar. Few pages are all shown. Of many, seven entries are: always the first and the last
page, and around the current page its neighbours, with markers where pages are left out. -/
def bar (p : Pager) : List PageEntry :=
  let last := p.totalPages
  let current := p.currentPage
  if last ≤ fullBarPages then (List.range' 1 last).map p.entry
  else if 4 < current ∧ addUpTo current 3 < last then
    [p.entry 1, p.skipBack, p.entry (current - 1), p.entry current, p.entry (current + 1), p.skipOn,
      p.entry last]
  else if last < addUpTo current 4 then
    [p.entry 1, p.skipBack, p.entry (last - 4), p.entry (last - 3), p.entry (last - 2),
      p.entry (last - 1), p.entry last]
  else
    [p.entry 1, p.entry 2, p.entry 3, p.entry 4, p.entry 5, p.skipOn, p.entry last]

/-! ## Laws -/

/-- The pages are just enough for the items. -/
theorem totalPages_le_iff (p : Pager) (n : Nat) :
    p.totalPages ≤ n ↔ p.totalItems ≤ n * p.perPage := by
  have h := p.perPage_pos
  rw [totalPages, ← Nat.lt_add_one_iff, Nat.div_lt_iff_lt_mul h, Nat.succ_mul]
  omega

/-- The page that is shown is one of the pages, or page 1. -/
theorem clamp_mem (p : Pager) (page : Nat) :
    1 ≤ p.clamp page ∧ p.clamp page ≤ max p.totalPages 1 := by simp only [clamp]; omega

end Pager

end VerseSearch
