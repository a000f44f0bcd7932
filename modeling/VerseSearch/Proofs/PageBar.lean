import Mathlib.Logic.Relation
import VerseSearch.Proofs.Paging

/-!
# The page bar

Whatever the current page is, the bar leads to the first and the last page, and from every page one
gets to every other one (`Pager.reachable`). Among the pages, the current one stands in the bar with
its neighbours, and it alone is active. There is one exception: the comparison that tells the end of
the list apart is cut off at the largest 64-bit number, so that with as many pages the last four are
taken for pages at the front (`Pager.IsCutOff`).
-/

set_option autoImplicit false

namespace VerseSearch

namespace PageEntry

/-- The number of the page that the entry shows; a marker shows none. -/
def number? : PageEntry → Option Nat
  | .page number _ => some number
  | .skip _ => none

/-- The entry of the current page. -/
def isActive : PageEntry → Bool
  | .page _ active => active
  | .skip _ => false

/-- The pages that entries show, from left to right. -/
def numbers (entries : List PageEntry) : List Nat := entries.filterMap number?

end PageEntry

open PageEntry (numbers)

namespace Pager

variable {p : Pager}

/-! ## Layouts -/

/-- There are as many pages as a 64-bit number can count, and the current one is among the last
four. -/
def IsCutOff (p : Pager) : Prop := p.totalPages = limit ∧ limit ≤ p.currentPage + 3

/-- What the bar may look like: all pages, the surroundings of a page in the middle, the end of the
list or its front. -/
inductive Layout (p : Pager) : List PageEntry → Prop where
  | all : p.totalPages ≤ 7 → Layout p ((List.range' 1 p.totalPages).map p.entry)
  | middle : 4 < p.currentPage → p.currentPage + 3 < p.totalPages → Layout p
      [p.entry 1, p.skipBack, p.entry (p.currentPage - 1), p.entry p.currentPage,
        p.entry (p.currentPage + 1), p.skipOn, p.entry p.totalPages]
  | back : 7 < p.totalPages → p.totalPages < p.currentPage + 4 → p.totalPages < limit → Layout p
      [p.entry 1, p.skipBack, p.entry (p.totalPages - 4), p.entry (p.totalPages - 3),
        p.entry (p.totalPages - 2), p.entry (p.totalPages - 1), p.entry p.totalPages]
  | front : 7 < p.totalPages → p.currentPage ≤ 4 ∨ p.IsCutOff → Layout p
      [p.entry 1, p.entry 2, p.entry 3, p.entry 4, p.entry 5, p.skipOn, p.entry p.totalPages]

theorem totalPages_le_limit (hitems : p.totalItems ≤ limit) : p.totalPages ≤ limit :=
  p.totalPages_le.trans hitems

/-- A sum is below a number of pages if the cut off sum is. -/
theorem addUpTo_lt_iff {a b n : Nat} (hn : n ≤ limit) : addUpTo a b < n ↔ a + b < n := by
  unfold addUpTo
  omega

/-- A number of pages is below a sum, and is not the largest number, if it is below the cut off sum.
-/
theorem lt_addUpTo_iff {a b n : Nat} : n < addUpTo a b ↔ n < a + b ∧ n < limit := Nat.lt_min

/-- The bar has one of the layouts. -/
theorem layout_bar (hitems : p.totalItems ≤ limit) : p.Layout p.bar := by
  have hlimit := totalPages_le_limit hitems
  have hmiddle := addUpTo_lt_iff (a := p.currentPage) (b := 3) hlimit
  have hback := lt_addUpTo_iff (a := p.currentPage) (b := 4) (n := p.totalPages)
  simp only [bar, hmiddle, hback]
  split
  · exact .all ‹_›
  rename_i hmany
  have hmany : 7 < p.totalPages := Nat.lt_of_not_le hmany
  split
  · rename_i h
    exact .middle h.1 h.2
  split
  · rename_i h
    exact .back hmany h.1 h.2
  · refine .front hmany ?_
    unfold IsCutOff
    omega

/-! ## Entries -/

variable {bar : List PageEntry}

@[simp] theorem numbers_nil : numbers [] = [] := rfl

@[simp] theorem numbers_entry_cons (n : Nat) : numbers (p.entry n :: bar) = n :: numbers bar := rfl

@[simp] theorem numbers_skipBack_cons : numbers (p.skipBack :: bar) = numbers bar := rfl

@[simp] theorem numbers_skipOn_cons : numbers (p.skipOn :: bar) = numbers bar := rfl

theorem numbers_map_entry (ns : List Nat) : numbers (ns.map p.entry) = ns := by
  rw [numbers, List.filterMap_map]
  exact List.filterMap_some

/-- The pages of the bar stand in order. -/
theorem Layout.pairwise_numbers (h : p.Layout bar) : (numbers bar).Pairwise (· < ·) := by
  cases h with
  | all _ =>
    rw [numbers_map_entry]
    exact List.pairwise_lt_range'
  | middle hfour hlast =>
    rw [← List.isChain_iff_pairwise]
    simp only [numbers_entry_cons, numbers_skipBack_cons, numbers_skipOn_cons, numbers_nil,
      List.isChain_cons_cons, List.isChain_singleton, and_true]
    omega
  | back hmany _ _ =>
    rw [← List.isChain_iff_pairwise]
    simp only [numbers_entry_cons, numbers_skipBack_cons, numbers_nil, List.isChain_cons_cons,
      List.isChain_singleton, and_true]
    omega
  | front hmany _ =>
    rw [← List.isChain_iff_pairwise]
    simp only [numbers_entry_cons, numbers_skipOn_cons, numbers_nil, List.isChain_cons_cons,
      List.isChain_singleton, and_true]
    omega

/-- Every page of the bar is a page of the list. -/
theorem Layout.mem_range (h : p.Layout bar) {n : Nat} (hn : n ∈ numbers bar) :
    1 ≤ n ∧ n ≤ p.totalPages := by
  cases h with
  | all _ =>
    rw [numbers_map_entry, List.mem_range'_1] at hn
    omega
  | middle hfour hlast =>
    simp only [numbers_entry_cons, numbers_skipBack_cons, numbers_skipOn_cons, numbers_nil,
      List.mem_cons, List.not_mem_nil, or_false] at hn
    omega
  | back hmany _ _ =>
    simp only [numbers_entry_cons, numbers_skipBack_cons, numbers_nil, List.mem_cons,
      List.not_mem_nil, or_false] at hn
    omega
  | front hmany _ =>
    simp only [numbers_entry_cons, numbers_skipOn_cons, numbers_nil, List.mem_cons,
      List.not_mem_nil, or_false] at hn
    omega

/-- The first and the last page are in the bar. -/
theorem Layout.ends_mem (h : p.Layout bar) (hpages : 1 ≤ p.totalPages) :
    1 ∈ numbers bar ∧ p.totalPages ∈ numbers bar := by
  cases h with
  | all _ =>
    rw [numbers_map_entry, List.mem_range'_1, List.mem_range'_1]
    omega
  | middle _ _ => simp
  | back _ _ _ => simp
  | front _ _ => simp

/-- Few pages are all in the bar. -/
theorem Layout.eq_all (h : p.Layout bar) (hfew : p.totalPages < 8) :
    bar = (List.range' 1 p.totalPages).map p.entry := by
  cases h with
  | all _ => rfl
  | middle hfour hlast => omega
  | back hmany _ _ => omega
  | front hmany _ => omega

/-- Of many pages there are seven entries. -/
theorem Layout.length_eq (h : p.Layout bar) (hmany : 8 ≤ p.totalPages) : bar.length = 7 := by
  cases h with
  | all hfew => omega
  | middle _ _ => rfl
  | back _ _ _ => rfl
  | front _ _ => rfl

/-- The current page is in the bar with its neighbours, unless the layout was chosen by a sum that
is cut off. -/
theorem Layout.neighbours_mem_iff (h : p.Layout bar) (hfirst : 1 ≤ p.currentPage)
    (hlast : p.currentPage ≤ p.totalPages) :
    (p.currentPage ∈ numbers bar ∧ (1 < p.currentPage → p.currentPage - 1 ∈ numbers bar) ∧
      (p.currentPage < p.totalPages → p.currentPage + 1 ∈ numbers bar)) ↔ ¬ p.IsCutOff := by
  have hlimit : limit = 18446744073709551615 := rfl
  unfold IsCutOff
  cases h with
  | all hfew =>
    rw [numbers_map_entry]
    simp only [List.mem_range'_1]
    omega
  | middle hfour hlast => exact iff_of_true ⟨by simp, by simp, by simp⟩ (by omega)
  | back hmany hlast hlimit =>
    simp only [numbers_entry_cons, numbers_skipBack_cons, numbers_nil, List.mem_cons,
      List.not_mem_nil, or_false]
    omega
  | front hmany hfront =>
    unfold IsCutOff at hfront
    simp only [numbers_entry_cons, numbers_skipOn_cons, numbers_nil, List.mem_cons,
      List.not_mem_nil, or_false]
    omega

/-- An entry of the bar is a page or one of the two markers. -/
theorem Layout.mem_cases (h : p.Layout bar) {e : PageEntry} (he : e ∈ bar) :
    (∃ n, e = p.entry n) ∨ e = p.skipBack ∨ e = p.skipOn := by
  revert e
  cases h with
  | all _ =>
    intro e he
    obtain ⟨n, _, rfl⟩ := List.mem_map.1 he
    exact .inl ⟨n, rfl⟩
  | middle _ _ => simp
  | back _ _ _ => simp
  | front _ _ => simp

/-- The marker that leads back skips as many pages as a page has items, within the list. -/
theorem skipBack_eq (hlast : p.currentPage ≤ p.totalPages) :
    p.skipBack = .skip (p.clamp (p.currentPage - p.perPage)) := by
  simp only [skipBack, clamp, PageEntry.skip.injEq]
  omega

/-- So does the marker that leads on. -/
theorem skipOn_eq (hitems : p.totalItems ≤ limit) (hpages : 1 ≤ p.totalPages) :
    p.skipOn = .skip (p.clamp (p.currentPage + p.perPage)) := by
  have hlimit := totalPages_le_limit hitems
  have hpos := p.perPage_pos
  simp only [skipOn, clamp, addUpTo, PageEntry.skip.injEq]
  omega

/-- The second entry may be the marker that leads back, and the last but one the marker that leads
on. -/
theorem Layout.marker_cases (h : p.Layout bar) {i t : Nat} (ht : bar[i]? = some (.skip t)) :
    (i = 1 ∧ .skip t = p.skipBack) ∨ (i = 5 ∧ .skip t = p.skipOn) := by
  cases h with
  | all _ =>
    rw [List.getElem?_map] at ht
    obtain ⟨n, _, hn⟩ := Option.map_eq_some_iff.1 ht
    cases hn
  | middle _ _ =>
    rcases i with _ | _ | _ | _ | _ | _ | _ | i <;> simp_all [entry]
  | back _ _ _ =>
    rcases i with _ | _ | _ | _ | _ | _ | _ | i <;> simp_all [entry]
  | front _ _ =>
    rcases i with _ | _ | _ | _ | _ | _ | _ | i <;> simp_all [entry]

/-- Every entry leads to a page of the list. -/
theorem Layout.target_mem (h : p.Layout bar) (hitems : p.totalItems ≤ limit)
    (hfirst : 1 ≤ p.currentPage) (hlast : p.currentPage ≤ p.totalPages) {e : PageEntry}
    (he : e ∈ bar) : 1 ≤ e.target ∧ e.target ≤ p.totalPages := by
  have hpages : 1 ≤ p.totalPages := hfirst.trans hlast
  have hclamp (n : Nat) : 1 ≤ p.clamp n ∧ p.clamp n ≤ p.totalPages := by
    have hmem := p.clamp_mem n
    omega
  rcases h.mem_cases he with ⟨n, rfl⟩ | rfl | rfl
  · exact h.mem_range (List.mem_filterMap.2 ⟨_, he, rfl⟩)
  · rw [skipBack_eq hlast]
    exact hclamp _
  · rw [skipOn_eq hitems hpages]
    exact hclamp _

/-! ## The active entry -/

/-- The active entries are those of the current page. -/
theorem filter_isActive_of_forall {es : List PageEntry}
    (h : ∀ e ∈ es, (∃ n, e = p.entry n) ∨ e = p.skipBack ∨ e = p.skipOn) :
    es.filter PageEntry.isActive =
      ((numbers es).filter (· == p.currentPage)).map p.entry := by
  induction es with
  | nil => rfl
  | cons e es ih =>
    obtain ⟨he, hes⟩ := List.forall_mem_cons.1 h
    rcases he with ⟨n, rfl⟩ | rfl | rfl
    · have hactive : (p.entry n).isActive = (n == p.currentPage) := rfl
      rw [numbers_entry_cons, List.filter_cons, List.filter_cons, hactive, ih hes]
      split <;> rfl
    · rw [numbers_skipBack_cons, ← ih hes]
      exact List.filter_cons_of_neg Bool.false_ne_true
    · rw [numbers_skipOn_cons, ← ih hes]
      exact List.filter_cons_of_neg Bool.false_ne_true

/-- The current page is the only active entry if it is in the bar; else none is active. -/
theorem Layout.filter_isActive (h : p.Layout bar) :
    bar.filter PageEntry.isActive =
      if p.currentPage ∈ numbers bar then [.page p.currentPage true] else [] := by
  have hentry : p.entry p.currentPage = .page p.currentPage true := by simp [entry]
  have hnodup : (numbers bar).Nodup := h.pairwise_numbers.imp Nat.ne_of_lt
  rw [filter_isActive_of_forall fun e he => h.mem_cases he, List.filter_beq, hnodup.count]
  split
  · rw [List.replicate_one, List.map_singleton, hentry]
  · rfl

/-- No entry is active while the current page is none of the list. -/
theorem Layout.filter_isActive_of_outside (h : p.Layout bar)
    (hout : p.currentPage < 1 ∨ p.totalPages < p.currentPage) :
    bar.filter PageEntry.isActive = [] := by
  rw [h.filter_isActive, if_neg]
  intro hmem
  have hrange := h.mem_range hmem
  omega

/-! ## From page to page -/

/-- The list at another page. -/
def onPage (p : Pager) (page : Nat) : Pager := { p with currentPage := page }

/-- On page `a`, an entry of the bar leads to page `b`. -/
def Leads (p : Pager) (a b : Nat) : Prop := ∃ e ∈ (p.onPage a).bar, e.target = b

theorem leads_of_mem_numbers {a b : Nat} (h : b ∈ numbers (p.onPage a).bar) : p.Leads a b := by
  obtain ⟨e, he, hb⟩ := List.mem_filterMap.1 h
  refine ⟨e, he, ?_⟩
  cases e with
  | page number active => exact Option.some.inj hb
  | skip target => cases hb

/-- Only pages of one item are as many as a 64-bit number can count. -/
theorem perPage_eq_one (hitems : p.totalItems ≤ limit) (h : p.totalPages = limit) :
    p.perPage = 1 := by
  have hlimit : limit = 18446744073709551615 := rfl
  have hbefore : (limit - 1) * p.perPage < p.totalItems := mul_perPage_lt (by omega)
  by_contra hne
  have htwo : (limit - 1) * 2 ≤ (limit - 1) * p.perPage :=
    Nat.mul_le_mul_left _ (by have := p.perPage_pos; omega)
  omega

/-- From every page an entry leads to the next one. At the end of a list that is as long as can be,
it is the marker. -/
theorem leads_next (hitems : p.totalItems ≤ limit) {a : Nat} (hfirst : 1 ≤ a)
    (hlast : a < p.totalPages) : p.Leads a (a + 1) := by
  have hlayout : (p.onPage a).Layout (p.onPage a).bar := layout_bar hitems
  by_cases hcut : (p.onPage a).IsCutOff
  · have hone := perPage_eq_one (p := p) hitems hcut.1
    have hlimit : limit = 18446744073709551615 := rfl
    have hpages : p.totalPages = limit := hcut.1
    have hcurrent : limit ≤ a + 3 := hcut.2
    have htarget : (p.onPage a).skipOn.target = a + 1 := by
      show min (addUpTo a p.perPage) p.totalPages = a + 1
      unfold addUpTo
      omega
    refine ⟨(p.onPage a).skipOn, ?_, htarget⟩
    generalize (p.onPage a).bar = bar at hlayout
    cases hlayout with
    | all hfew => exact absurd (hpages ▸ hfew) (by omega)
    | middle _ hmiddle => exact absurd hmiddle (by show ¬ a + 3 < p.totalPages; omega)
    | back _ _ hbelow => exact absurd hpages (Nat.ne_of_lt hbelow)
    | front _ _ => simp
  · obtain ⟨_, _, hnext⟩ := (hlayout.neighbours_mem_iff hfirst (Nat.le_of_lt hlast)).2 hcut
    exact leads_of_mem_numbers (hnext hlast)

/-- From every page one gets to every other one. -/
theorem reachable (hitems : p.totalItems ≤ limit) (a : Nat) {b : Nat} (hfirst : 1 ≤ b)
    (hlast : b ≤ p.totalPages) : Relation.ReflTransGen p.Leads a b := by
  induction b, hfirst using Nat.le_induction with
  | base =>
    have hlayout : (p.onPage a).Layout (p.onPage a).bar := layout_bar hitems
    exact .single (leads_of_mem_numbers (hlayout.ends_mem hlast).1)
  | succ b hb ih => exact (ih (Nat.le_of_lt hlast)).tail (leads_next hitems hb hlast)

/-! ## Machine arithmetic -/

/-- The sum, if it is a 64-bit number. -/
def addWithin (a b : Nat) : Option Nat := if a + b ≤ limit then some (a + b) else none

/-- The difference, if it is a 64-bit number. -/
def subWithin (a b : Nat) : Option Nat := if b ≤ a then some (a - b) else none

theorem addWithin_eq_some {a b : Nat} (h : a + b ≤ limit) : addWithin a b = some (a + b) :=
  if_pos h

theorem subWithin_eq_some {a b : Nat} (h : b ≤ a) : subWithin a b = some (a - b) := if_pos h

/-- The number of pages by a division with remainder; none if it is no 64-bit number. -/
def pagesWithin (p : Pager) : Option Nat :=
  if p.totalItems % p.perPage = 0 then some (p.totalItems / p.perPage)
  else addWithin (p.totalItems / p.perPage) 1

/-- The page bar, where each sum and each difference that is not cut off has to be a 64-bit number.
-/
def barWithin (p : Pager) : Option (List PageEntry) := do
  let last ← p.pagesWithin
  let current := p.currentPage
  if last ≤ fullBarPages then
    return (List.range' 1 last).map p.entry
  else if 4 < current ∧ addUpTo current 3 < last then
    let before ← subWithin current 1
    let after ← addWithin current 1
    return [p.entry 1, p.skipBack, p.entry before, p.entry current, p.entry after, p.skipOn,
      p.entry last]
  else if last < addUpTo current 4 then
    let fourth ← subWithin last 4
    let third ← subWithin last 3
    let second ← subWithin last 2
    let first ← subWithin last 1
    return [p.entry 1, p.skipBack, p.entry fourth, p.entry third, p.entry second, p.entry first,
      p.entry last]
  else
    return [p.entry 1, p.entry 2, p.entry 3, p.entry 4, p.entry 5, p.skipOn, p.entry last]

theorem totalPages_eq_add (p : Pager) :
    p.totalPages = p.totalItems / p.perPage + if p.totalItems % p.perPage = 0 then 0 else 1 := by
  have hpos := p.perPage_pos
  have hmod := Nat.mod_lt p.totalItems hpos
  have hitems : p.totalItems + (p.perPage - 1) =
      p.perPage * (p.totalItems / p.perPage) + (p.totalItems % p.perPage + (p.perPage - 1)) := by
    rw [← Nat.add_assoc, Nat.div_add_mod]
  rw [totalPages, hitems, Nat.mul_add_div hpos]
  congr 1
  split
  · rw [Nat.div_eq_of_lt (by omega)]
  · have hover : p.totalItems % p.perPage + (p.perPage - 1) =
        p.perPage + (p.totalItems % p.perPage - 1) := by omega
    rw [hover, Nat.add_div_left _ hpos, Nat.div_eq_of_lt (by omega)]

theorem pagesWithin_eq (hitems : p.totalItems ≤ limit) : p.pagesWithin = some p.totalPages := by
  have hlimit := totalPages_le_limit hitems
  have hpages := p.totalPages_eq_add
  unfold pagesWithin
  split
  · rename_i hexact
    rw [if_pos hexact, Nat.add_zero] at hpages
    rw [hpages]
  · rename_i hmore
    rw [if_neg hmore] at hpages
    rw [hpages, addWithin_eq_some (hpages ▸ hlimit)]

/-- No sum and no difference of the bar leaves the 64-bit numbers. -/
theorem barWithin_eq (hitems : p.totalItems ≤ limit) : p.barWithin = some p.bar := by
  have hlimit := totalPages_le_limit hitems
  rw [barWithin, pagesWithin_eq hitems, bar]
  simp only [Option.bind_eq_bind, Option.bind_some]
  split
  · rfl
  rename_i hmany
  have hmany : 7 < p.totalPages := Nat.lt_of_not_le hmany
  split
  · rename_i hmiddle
    obtain ⟨hfour, hlast⟩ := hmiddle
    rw [addUpTo_lt_iff hlimit] at hlast
    rw [subWithin_eq_some (by omega), addWithin_eq_some (by omega)]
    rfl
  split
  · rw [subWithin_eq_some (by omega), subWithin_eq_some (by omega), subWithin_eq_some (by omega),
      subWithin_eq_some (by omega)]
    rfl
  · rfl

/-! ## The bar -/

/-- The page bar is usable. No number in it leaves the range of 64-bit numbers. Up to seven pages
are all shown, of more seven entries are. The pages stand in order, the first and the last one among
them, and none is active if the current page is none of the list. For a current page of the list,
every entry leads to a page of the list, a marker to the page that lies as many pages back or on as
a page has items, or as near to it as there is one; and from page to page one gets to all of them.
The current page and its neighbours are in the bar, and it alone is active, exactly if the
comparison that tells the end of the list apart is not cut off: among the last four of as many pages
as a 64-bit number can count, they are not. -/
theorem bar_usable_iff (p : Pager) (hitems : p.totalItems ≤ limit) :
    let bar := p.bar
    let current := p.currentPage
    let last := p.totalPages
    p.barWithin = some bar ∧
    (last < 8 → bar = (List.range' 1 last).map p.entry) ∧ (8 ≤ last → bar.length = 7) ∧
    (numbers bar).Pairwise (· < ·) ∧ (∀ n ∈ numbers bar, 1 ≤ n ∧ n ≤ last) ∧
    (1 ≤ last → 1 ∈ numbers bar ∧ last ∈ numbers bar) ∧
    (current < 1 ∨ last < current → bar.filter PageEntry.isActive = []) ∧
    (1 ≤ current → current ≤ last →
      (∀ e ∈ bar, 1 ≤ e.target ∧ e.target ≤ last) ∧
      (∀ i t, bar[i]? = some (.skip t) →
        (i = 1 ∧ t = p.clamp (current - p.perPage)) ∨
          (i = 5 ∧ t = p.clamp (current + p.perPage))) ∧
      (∀ n, 1 ≤ n → n ≤ last → Relation.ReflTransGen p.Leads current n) ∧
      ((current ∈ numbers bar ∧ (1 < current → current - 1 ∈ numbers bar) ∧
          (current < last → current + 1 ∈ numbers bar) ∧
          bar.filter PageEntry.isActive = [.page current true]) ↔
        ¬ (last = limit ∧ limit ≤ current + 3))) := by
  intro bar current last
  have hlayout : p.Layout bar := layout_bar hitems
  refine ⟨barWithin_eq hitems, hlayout.eq_all, hlayout.length_eq, hlayout.pairwise_numbers,
    fun n hn => hlayout.mem_range hn, hlayout.ends_mem, hlayout.filter_isActive_of_outside,
    fun hfirst hlast => ⟨fun e he => hlayout.target_mem hitems hfirst hlast he, fun i t ht => ?_,
      fun n hn hn' => reachable hitems current hn hn', ?_⟩⟩
  · have hback := skipBack_eq hlast
    have hon := skipOn_eq hitems (hfirst.trans hlast)
    rcases hlayout.marker_cases ht with ⟨hi, hmarker⟩ | ⟨hi, hmarker⟩
    · rw [hback] at hmarker
      exact .inl ⟨hi, PageEntry.skip.inj hmarker⟩
    · rw [hon] at hmarker
      exact .inr ⟨hi, PageEntry.skip.inj hmarker⟩
  · have hneighbours := hlayout.neighbours_mem_iff hfirst hlast
    rw [hlayout.filter_isActive]
    constructor
    · rintro ⟨hcurrent, hbefore, hafter, _⟩
      exact hneighbours.1 ⟨hcurrent, hbefore, hafter⟩
    · intro hcut
      obtain ⟨hcurrent, hbefore, hafter⟩ := hneighbours.2 hcut
      exact ⟨hcurrent, hbefore, hafter, if_pos hcurrent⟩

/-- On the tenth of twenty pages. -/
theorem bar_usable_of_tenth_page :
    let p := ofState 10 200 10
    p.totalItems ≤ limit ∧ p.barWithin = some p.bar ∧ p.bar.length = 7 ∧ 9 ∈ numbers p.bar ∧
      p.bar.filter PageEntry.isActive = [.page 10 true] ∧
      Relation.ReflTransGen p.Leads 10 17 := by
  intro p
  have hitems : p.totalItems ≤ limit := by decide
  obtain ⟨hwithin, _, hlength, _, _, _, _, hpage⟩ := bar_usable_iff p hitems
  obtain ⟨_, _, hreach, husable⟩ := hpage (by decide) (by decide)
  obtain ⟨_, hbefore, _, hactive⟩ := husable.2 (by decide)
  exact ⟨hitems, hwithin, hlength (by decide), hbefore (by decide), hactive,
    hreach 17 (by decide) (by decide)⟩

/-- On the fourth page from the end of as many pages as can be, the bar shows the front of the list.
-/
theorem not_bar_shows_current :
    let p := ofState (limit - 3) limit 1
    1 ≤ p.currentPage ∧ p.currentPage ≤ p.totalPages ∧ p.currentPage ∉ numbers p.bar ∧
      p.bar.filter PageEntry.isActive = [] := by
  decide

end Pager

end VerseSearch
