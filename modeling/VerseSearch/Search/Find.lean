import VerseSearch.Corpus.Library
import VerseSearch.Query
import VerseSearch.Search.Results
import VerseSearch.Text.Replace

/-!
# Finding verses

A content query finds the verses of its layer in which its pattern occurs, unless one of the verses
is too much for the pattern. A reference finds the
verses with the given surah and verse numbers, or with a name that the given part occurs in
(`Verse.matchesReference`).
-/

set_option autoImplicit false

namespace VerseSearch

/-- The hits of a corpus: the positions of the verses that `f` gives a number of occurrences. -/
def hitsBy (f : Verse → Option Nat) (verses : List Verse) : List Hit :=
  verses.zipIdx.filterMap fun (v, i) => (f v).map fun n => ⟨i, n⟩

/-- The hits of a corpus whose occurrences are counted: the positions where there are any. -/
def hitsOfCounts (counts : List Nat) : List Hit :=
  counts.zipIdx.filterMap fun (n, i) => if 0 < n then some ⟨i, n⟩ else none

/-- The results of a content query. The first verse that cannot be searched ends the search. -/
def contentResults (c : Corpus) (p : Pattern) : Except Fault Results :=
  match c.verses.mapM fun v => p.count v.text with
  | .error fault => .error fault
  | .ok counts =>
    let hits := hitsOfCounts counts
    .ok ⟨some c, hits, some ((hits.map Hit.occurrences).foldr (· + ·) 0), some p⟩

namespace Verse

/-- The surah part fits: a numeral is the surah's number, anything else occurs in its name. -/
def matchesSurah (surah : List Char) (v : Verse) : Bool :=
  if Numeral.isNumeral surah then Numeral.value? surah == some v.surahNumber
  else Text.occursIn surah v.surahName.toList

/-- The verse part fits: there is none, or it is the verse's number. -/
def matchesNumber (number : Option (List Char)) (v : Verse) : Bool :=
  match number with
  | none => true
  | some n => Numeral.value? n == some v.number

/-- Both parts of a reference fit. -/
def matchesReference (surah : String) (number : Option String) (v : Verse) : Bool :=
  v.matchesSurah surah.toList && v.matchesNumber (number.map String.toList)

end Verse

/-- The results of a reference. -/
def referenceResults (c : Corpus) (surah : String) (number : Option String) : Results :=
  ⟨some c, hitsBy (fun v => if v.matchesReference surah number then some 0 else none) c.verses,
    none, none⟩

/-- What a query finds. The corpus of its layer has to be installed. -/
def Library.find (l : Library) (wildcard : String) : Query → Except Fault Results
  | .invalid => .ok .empty
  | .content layer keyword =>
    match l.require layer with
    | .error fault => .error fault
    | .ok c =>
      match Pattern.compile wildcard layer keyword with
      | .error fault => .error (.pattern fault)
      | .ok p => contentResults c p
  | .reference surah number =>
    match l.require .letters with
    | .error fault => .error fault
    | .ok c => .ok (referenceResults c surah number)

/-! ## Laws -/

theorem mem_hitsBy {f : Verse → Option Nat} {verses : List Verse} {h : Hit} :
    h ∈ hitsBy f verses ↔ ∃ v, verses[h.index]? = some v ∧ f v = some h.occurrences := by
  simp only [hitsBy, List.mem_filterMap, Prod.exists, List.mem_zipIdx_iff_getElem?,
    Option.map_eq_some_iff]
  constructor
  · rintro ⟨v, i, hv, n, hn, rfl⟩
    exact ⟨v, hv, hn⟩
  · rintro ⟨v, hv, hn⟩
    exact ⟨v, h.index, hv, h.occurrences, hn, rfl⟩

/-- The number of occurrences in a verse, if they can be counted and there are any. -/
def Pattern.positiveCount? (p : Pattern) (v : Verse) : Option Nat :=
  (p.count v.text).toOption.filter (0 < ·)

theorem Pattern.positiveCount?_eq_some_iff {p : Pattern} {v : Verse} {n : Nat} :
    p.positiveCount? v = some n ↔ p.count v.text = .ok n ∧ 0 < n := by
  rw [positiveCount?, Option.filter_eq_some_iff, decide_eq_true_eq]
  cases p.count v.text <;> simp [Except.toOption]

/-- The results of a content query on a corpus without a verse that is too much for the pattern. -/
def Results.ofContent (c : Corpus) (p : Pattern) : Results :=
  let hits := hitsBy p.positiveCount? c.verses
  ⟨some c, hits, some ((hits.map Hit.occurrences).foldr (· + ·) 0), some p⟩

/-- Picking the verses with occurrences and picking the counts that are not zero is the same. -/
theorem hitsOfCounts_eq {p : Pattern} {verses : List Verse} {counts : List Nat}
    (h : (verses.map fun v => p.count v.text) = counts.map .ok) :
    hitsOfCounts counts = hitsBy p.positiveCount? verses := by
  have hpick : ∀ n i, (if 0 < n then some (Hit.mk i n) else none) =
      ((Except.ok n : Except Fault Nat).toOption.filter (0 < ·)).map fun n => Hit.mk i n := by
    intro n i
    by_cases hn : 0 < n <;> simp [Except.toOption, Option.filter, hn]
  have hcounts : hitsOfCounts counts = (counts.map Except.ok).zipIdx.filterMap
      fun (count : Except Fault Nat × Nat) =>
        (count.1.toOption.filter (0 < ·)).map fun n => Hit.mk count.2 n := by
    rw [List.zipIdx_map, List.filterMap_map]
    exact congrArg (fun f => counts.zipIdx.filterMap f) (funext fun x => hpick x.1 x.2)
  rw [hcounts, ← h, List.zipIdx_map, List.filterMap_map]
  rfl

/-- A content query has results exactly if no verse is too much for its pattern. -/
theorem contentResults_eq_ok_iff {c : Corpus} {p : Pattern} {r : Results} :
    contentResults c p = .ok r ↔
      (∀ v ∈ c.verses, p.givesUp v.text = false) ∧ r = .ofContent c p := by
  unfold contentResults
  cases hm : c.verses.mapM fun v => p.count v.text with
  | error fault =>
    obtain ⟨v, hv, hcount⟩ := exists_of_mapM_eq_error hm
    have hno : ¬∀ v ∈ c.verses, p.givesUp v.text = false := by
      intro hall
      obtain ⟨n, hn⟩ := Pattern.givesUp_eq_false_iff.1 (hall v hv)
      rw [hcount] at hn
      cases hn
    simp [hno]
  | ok counts =>
    rw [mapM_eq_ok_iff] at hm
    have hall : ∀ v ∈ c.verses, p.givesUp v.text = false := by
      intro v hv
      have hmem := List.mem_map_of_mem (f := fun v => p.count v.text) hv
      rw [hm] at hmem
      obtain ⟨n, _, hn⟩ := List.mem_map.1 hmem
      exact Pattern.givesUp_eq_false_iff.2 ⟨n, hn.symm⟩
    simp only [hitsOfCounts_eq hm, Except.ok.injEq]
    exact ⟨fun h => ⟨hall, h.symm⟩, fun h => h.2.symm⟩

/-- It fails exactly if some verse is. -/
theorem contentResults_eq_error_iff {c : Corpus} {p : Pattern} {fault : Fault} :
    contentResults c p = .error fault ↔
      fault = .givenUp ∧ ∃ v ∈ c.verses, p.givesUp v.text = true := by
  cases hr : contentResults c p with
  | ok r =>
    have hall := (contentResults_eq_ok_iff.1 hr).1
    constructor
    · intro h
      cases h
    · rintro ⟨_, v, hv, hgiven⟩
      rw [hall v hv] at hgiven
      cases hgiven
  | error fault' =>
    obtain ⟨v, hv, hgiven⟩ : ∃ v ∈ c.verses, p.givesUp v.text = true := by
      refine Classical.byContradiction fun hno => ?_
      have hok : contentResults c p = .ok (.ofContent c p) := by
        refine contentResults_eq_ok_iff.2 ⟨fun v hv => ?_, rfl⟩
        cases hgiven : p.givesUp v.text with
        | false => rfl
        | true => exact absurd ⟨v, hv, hgiven⟩ hno
      rw [hr] at hok
      cases hok
    obtain rfl : fault' = .givenUp := by
      unfold contentResults at hr
      split at hr
      · rename_i fault hm
        cases hr
        obtain ⟨v, _, hcount⟩ := exists_of_mapM_eq_error hm
        cases hg : p.givesUp v.text with
        | true => exact Except.error.inj (hcount.symm.trans (Pattern.givesUp_eq_true_iff.1 hg))
        | false =>
          obtain ⟨n, hn⟩ := Pattern.givesUp_eq_false_iff.1 hg
          rw [hcount] at hn
          cases hn
      · cases hr
    exact ⟨fun h => ⟨(Except.error.inj h).symm, v, hv, hgiven⟩, fun h => by rw [h.1]⟩

end VerseSearch
