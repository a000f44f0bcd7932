import VerseSearch.Proofs.Finding

/-!
# The rows of an answer

Results are looked up by positions that might have no row. Those that a library answers with have
one for each hit (`Results.IsAnswer.map_rowOf?`), in the order of the corpus, so a slice of them is
a slice of the rows (`Results.IsAnswer.slice_eq`).
-/

set_option autoImplicit false

namespace VerseSearch

/-- The results that a library answers queries with. -/
inductive Results.IsAnswer : Results → Prop where
  | empty : IsAnswer .empty
  | content (c : Corpus) (p : Pattern) : IsAnswer (.ofContent c p)
  | reference (c : Corpus) (surah : String) (number : Option String) :
      IsAnswer (referenceResults c surah number)

/-- What a query finds is an answer. -/
theorem Library.isAnswer_of_find {l : Library} {wildcard : String} {q : Query} {r : Results}
    (h : l.find wildcard q = .ok r) : r.IsAnswer := by
  cases q with
  | invalid =>
    cases h
    exact .empty
  | content layer keyword =>
    obtain ⟨c, p, _, _, _, rfl⟩ := find_content_eq_ok_iff.1 h
    exact .content c p
  | reference surah number =>
    obtain ⟨c, _, rfl⟩ := find_reference_eq_ok_iff.1 h
    exact .reference c surah number

/-- Hits are in the order of the corpus, each position once. -/
theorem pairwise_hitsBy (f : Verse → Option Nat) (verses : List Verse) :
    (hitsBy f verses).Pairwise fun h h' => h.index < h'.index := by
  have hzip : verses.zipIdx.Pairwise fun a b => a.2 < b.2 := by
    rw [← List.pairwise_map (f := Prod.snd), List.zipIdx_map_snd]
    exact List.pairwise_lt_range'
  refine hzip.filterMap _ ?_
  rintro ⟨v, i⟩ ⟨v', i'⟩ hlt hit hhit hit' hhit'
  obtain ⟨n, _, rfl⟩ := Option.map_eq_some_iff.1 hhit
  obtain ⟨n', _, rfl⟩ := Option.map_eq_some_iff.1 hhit'
  exact hlt

namespace Results

/-- A hit at a verse of the corpus has a row. -/
theorem isSome_rowOf? {r : Results} {c : Corpus} (hc : r.corpus = some c) {f : Verse → Option Nat}
    {hit : Hit} (h : hit ∈ hitsBy f c.verses) : (r.rowOf? hit).isSome = true := by
  obtain ⟨v, hv, _⟩ := mem_hitsBy.1 h
  have hrow : r.rowOf? hit = some ⟨v, hit.occurrences⟩ := (rowOf?_eq_some hc).2 ⟨hv, rfl⟩
  rw [hrow]
  rfl

/-- Rows that belong to hits one by one are all rows of the hits. -/
theorem filterMap_rowOf? {r : Results} {hits : List Hit} {rows : List Row}
    (h : hits.map r.rowOf? = rows.map some) : hits.filterMap r.rowOf? = rows := by
  have hall := congrArg (List.filterMap id) h
  rw [List.filterMap_map, List.filterMap_map] at hall
  simpa using hall

/-- The rows of hits that were picked from the verses of the corpus. -/
theorem rows_eq_filterMap {r : Results} {c : Corpus} {f : Verse → Option Nat}
    (hc : r.corpus = some c) (hhits : r.hits = hitsBy f c.verses) :
    r.rows = c.verses.filterMap fun v => (f v).map (Row.mk v) := by
  have hrow : ∀ p ∈ c.verses.zipIdx, ((f p.1).map fun n => Hit.mk p.2 n).bind r.rowOf? =
      (f p.1).map (Row.mk p.1) := by
    rintro ⟨v, i⟩ hp
    have hv : c.verses[i]? = some v := List.mem_zipIdx_iff_getElem?.1 hp
    cases hf : f v with
    | none => rfl
    | some n => exact (rowOf?_eq_some hc).2 ⟨hv, rfl⟩
  have hverses : c.verses.zipIdx.map Prod.fst = c.verses := List.zipIdx_map_fst 0 c.verses
  rw [rows, hhits, hitsBy, List.filterMap_filterMap, List.filterMap_congr hrow]
  conv => rhs; rw [← hverses, List.filterMap_map]
  rfl

namespace IsAnswer

variable {r : Results}

/-- An answer has no hits, or they are picked from the verses of its corpus. -/
theorem hits_cases (h : r.IsAnswer) :
    r.hits = [] ∨ ∃ c f, r.corpus = some c ∧ r.hits = hitsBy f c.verses := by
  cases h with
  | empty => exact .inl rfl
  | content c p => exact .inr ⟨c, _, rfl, rfl⟩
  | reference c surah number =>
    exact .inr ⟨c, fun v => if v.matchesReference surah number then some 0 else none, rfl, rfl⟩

/-- The hits of an answer are in the order of the corpus, each verse once. -/
theorem pairwise_hits (h : r.IsAnswer) : r.hits.Pairwise fun h h' => h.index < h'.index := by
  rcases h.hits_cases with hnil | ⟨c, f, _, hhits⟩
  · rw [hnil]
    exact .nil
  · rw [hhits]
    exact pairwise_hitsBy f c.verses

/-- The rows are those of the hits, one for each. -/
theorem map_rowOf? (h : r.IsAnswer) : r.hits.map r.rowOf? = r.rows.map some := by
  rw [rows, List.map_filterMap_some_eq_filter_map_isSome, List.filter_eq_self.2]
  intro row hrow
  obtain ⟨hit, hmem, rfl⟩ := List.mem_map.1 hrow
  rcases h.hits_cases with hnil | ⟨c, f, hc, hhits⟩
  · rw [hnil] at hmem
    cases hmem
  · exact isSome_rowOf? hc (hhits ▸ hmem)

theorem length_rows (h : r.IsAnswer) : r.rows.length = r.size := by
  have hlength := congrArg List.length h.map_rowOf?
  rw [List.length_map, List.length_map] at hlength
  exact hlength.symm

/-- A slice of an answer is a slice of its rows. -/
theorem slice_eq (h : r.IsAnswer) (start stop : Nat) :
    r.slice start stop = (r.rows.take stop).drop start := by
  refine filterMap_rowOf? ?_
  rw [List.map_drop, List.map_take, h.map_rowOf?, List.map_drop, List.map_take]

end IsAnswer

end Results

end VerseSearch
