import Mathlib.Algebra.BigOperators.Group.List.Basic
import VerseSearch.Proofs.Answers

/-!
# Results are exact

The hits of a content query are the verses in which its pattern occurs, in the order of the corpus,
and the total is the sum of their occurrences (`mem_hits_ofContent`, `size_le_total`). Results
are read through three doors, each of which leaves out a hit without a row: one position, all
positions, a slice. For the answers of a library they never leave one out, and agree
(`Results.IsAnswer.row?_eq`, `Results.IsAnswer.map_slice`).
-/

set_option autoImplicit false

namespace VerseSearch

/-! ## Hits -/

/-- The hits of a content query: a position and a number are one exactly if the pattern occurs in
the verse at the position, that many times. -/
theorem mem_hits_ofContent {c : Corpus} {p : Pattern} {hit : Hit} :
    hit ∈ (Results.ofContent c p).hits ↔ ∃ v, c.verses[hit.index]? = some v ∧
      p.count v.text = .ok hit.occurrences ∧ 0 < hit.occurrences :=
  mem_hitsBy.trans <| exists_congr fun _ => and_congr_right fun _ =>
    Pattern.positiveCount?_eq_some_iff

/-- A pattern that occurs somewhere is not empty. -/
theorem Pattern.isEmpty_eq_false_of_count_pos {p : Pattern} {text : String} {n : Nat}
    (h : p.count text = .ok n) (hpos : 0 < n) : p.isEmpty = false := by
  cases hempty : p.isEmpty with
  | false => rfl
  | true =>
    rw [count_of_isEmpty hempty] at h
    cases h
    exact absurd hpos (Nat.lt_irrefl 0)

/-- Hits are counted by a total that is no less than their number. -/
theorem size_le_total (c : Corpus) (p : Pattern) :
    (Results.ofContent c p).size ≤
      ((Results.ofContent c p).hits.map Hit.occurrences).foldr (· + ·) 0 := by
  have hpos : ∀ n ∈ (Results.ofContent c p).hits.map Hit.occurrences, 1 ≤ n := by
    intro n hn
    obtain ⟨hit, hmem, rfl⟩ := List.mem_map.1 hn
    obtain ⟨_, _, _, hpos⟩ := mem_hits_ofContent.1 hmem
    exact hpos
  have hlength := List.length_le_sum_of_one_le _ hpos
  rw [List.length_map] at hlength
  exact hlength

/-! ## Rows -/

namespace Results.IsAnswer

variable {r : Results}

/-- The row at a position is the row at that position of all rows. -/
theorem row?_eq (h : r.IsAnswer) (i : Nat) : r.row? i = r.rows[i]? :=
  calc r.row? i = (r.hits.map r.rowOf?)[i]?.bind id := by
        rw [List.getElem?_map, Option.bind_map]
        rfl
    _ = (r.rows.map some)[i]?.bind id := by rw [h.map_rowOf?]
    _ = r.rows[i]? := by
        rw [List.getElem?_map, Option.bind_map]
        exact Option.bind_fun_some _

/-- There is a row at each position of the results, and nowhere else. -/
theorem isSome_row?_iff (h : r.IsAnswer) (i : Nat) : (r.row? i).isSome = true ↔ i < r.size := by
  rw [h.row?_eq, isSome_getElem?, h.length_rows]

/-- The row of a hit shows its verse of the corpus and its occurrences. -/
theorem row?_of_hit (h : r.IsAnswer) {i : Nat} {hit : Hit} (hhit : r.hits[i]? = some hit) :
    ∃ c v, r.corpus = some c ∧ c.verse? hit.index = some v ∧
      r.row? i = some ⟨v, hit.occurrences⟩ := by
  have hrow : r.row? i = r.rowOf? hit := by rw [row?, hhit, Option.bind_some]
  have hlt : i < r.size := (List.getElem?_eq_some_iff.1 hhit).1
  obtain ⟨row, hsome⟩ := Option.isSome_iff_exists.1 ((h.isSome_row?_iff i).2 hlt)
  rw [hrow] at hsome ⊢
  obtain ⟨c, hc, hverse⟩ := Option.bind_eq_some_iff.1 hsome
  obtain ⟨v, hv, rfl⟩ := Option.map_eq_some_iff.1 hverse
  exact ⟨c, v, hc, hv, hsome⟩

/-- A slice holds the rows at its positions, as far as there are any. -/
theorem map_slice (h : r.IsAnswer) (start stop : Nat) :
    (r.slice start stop).map some =
      (List.range' start (min stop r.size - start)).map fun i => r.rows[i]? := by
  have hlength : ((r.rows.take stop).drop start).length = min stop r.size - start := by
    rw [List.length_drop, List.length_take, h.length_rows]
  rw [h.slice_eq]
  refine List.ext_getElem ?_ fun i hi _ => ?_
  · rw [List.length_map, List.length_map, List.length_range', hlength]
  · rw [List.length_map] at hi
    rw [List.getElem_map, List.getElem_map, List.getElem_range', Nat.one_mul, List.getElem_drop,
      List.getElem_take, List.getElem?_eq_getElem]

/-- All rows are the rows at the positions one by one. -/
theorem map_rows (h : r.IsAnswer) : r.rows.map some = (List.range r.size).map r.row? := by
  have hall := h.map_slice 0 r.size
  rw [slice_zero_size, Nat.min_self, Nat.sub_zero, ← List.range_eq_range'] at hall
  exact hall.trans (List.map_congr_left fun i _ => (h.row?_eq i).symm)

end Results.IsAnswer

/-- Results are exact and lose no rows. Whatever a library answers a content query with, its hits
are in the order of the corpus, each verse once; a verse is a hit with a number of occurrences
exactly if the pattern is not empty and occurs in it that many times, at least once; no verse was too
much for the pattern; the total is the sum of the occurrences, no less than the number of hits.
Whatever a library answers any query with, there is a row at each position below the size and at no
other, which shows the verse of the hit; all rows are these rows one by one; and a slice, whatever
its bounds are, holds the rows at its positions, as far as there are any. -/
theorem Library.results_exact {l : Library} {wildcard : String} {q : Query} {r : Results}
    (h : l.find wildcard q = .ok r) :
    (∀ layer keyword, q = .content layer keyword →
      ∃ c p total, l.get? layer = some c ∧ Pattern.compile wildcard layer keyword = .ok p ∧
        r.corpus = some c ∧ r.pattern = some p ∧ r.total = some total ∧
        (r.hits.Pairwise fun hit hit' => hit.index < hit'.index) ∧
        (∀ hit ∈ r.hits, hit.index < c.size ∧ 1 ≤ hit.occurrences) ∧
        (∀ hit, hit ∈ r.hits ↔ p.isEmpty = false ∧ ∃ v, c.verse? hit.index = some v ∧
          p.count v.text = .ok hit.occurrences ∧ 1 ≤ hit.occurrences) ∧
        (∀ v ∈ c.verses, ∃ n, p.count v.text = .ok n) ∧
        total = (r.hits.map Hit.occurrences).foldr (· + ·) 0 ∧ r.size ≤ total) ∧
    (∀ i, (r.row? i).isSome = true ↔ i < r.size) ∧
    (∀ i hit, r.hits[i]? = some hit → ∃ c v, r.corpus = some c ∧
      c.verse? hit.index = some v ∧ r.row? i = some ⟨v, hit.occurrences⟩) ∧
    r.rows.length = r.size ∧ r.rows.map some = (List.range r.size).map r.row? ∧
    ∀ start stop, (r.slice start stop).map some =
      (List.range' start (min stop r.size - start)).map fun i => r.rows[i]? := by
  have hr : r.IsAnswer := isAnswer_of_find h
  refine ⟨?_, hr.isSome_row?_iff, fun i hit hhit => hr.row?_of_hit hhit, hr.length_rows,
    hr.map_rows, hr.map_slice⟩
  rintro layer keyword rfl
  obtain ⟨c, p, hc, hp, hcounted, rfl⟩ := find_content_eq_ok_iff.1 h
  refine ⟨c, p, _, hc, hp, rfl, rfl, rfl, hr.pairwise_hits, fun hit hmem => ?_, fun hit => ?_,
    fun v hv => Pattern.givesUp_eq_false_iff.1 (hcounted v hv), rfl, size_le_total c p⟩
  · obtain ⟨v, hv, _, hpos⟩ := mem_hits_ofContent.1 hmem
    exact ⟨(List.getElem?_eq_some_iff.1 hv).1, hpos⟩
  · constructor
    · intro hmem
      obtain ⟨v, hv, hcount, hpos⟩ := mem_hits_ofContent.1 hmem
      exact ⟨Pattern.isEmpty_eq_false_of_count_pos hcount hpos, v, hv, hcount, hpos⟩
    · rintro ⟨_, hverse⟩
      exact mem_hits_ofContent.2 hverse

/-- Qaf in the first and the third of three verses: a slice from the second row on ends with it. -/
theorem Library.exact_results_of_qaf :
    let verse (text : String) : Verse :=
      ⟨text, 1, 112, "\u0627\u0644\u0627\u062E\u0644\u0627\u0635"⟩
    let c : Corpus := ⟨.letters, [verse "\u0642\u064E\u0642", verse "\u0644", verse "\u0642"]⟩
    let l : Library := { directory := "data", letters := some c }
    ∃ r, l.find "" (.content .letters "\u0642") = .ok r ∧ ⟨0, 2⟩ ∈ r.hits ∧ r.rows.length = 2 ∧
      (r.row? 1).isSome = true ∧ (r.slice 1 9).map some = [r.rows[1]?] := by
  intro verse c l
  have hfound : (l.find "" (.content .letters "\u0642")).map Results.hits =
      .ok [⟨0, 2⟩, ⟨2, 1⟩] := by decide +kernel
  cases hr : l.find "" (.content .letters "\u0642") with
  | error fault =>
    rw [hr] at hfound
    cases hfound
  | ok r =>
    rw [hr] at hfound
    have hhits : r.hits = [⟨0, 2⟩, ⟨2, 1⟩] := Except.ok.inj hfound
    have hsize : r.size = 2 := congrArg List.length hhits
    obtain ⟨_, hrow, _, hrows, _, hslice⟩ := Library.results_exact hr
    refine ⟨r, rfl, by rw [hhits]; exact List.mem_cons_self, hrows.trans hsize,
      (hrow 1).2 (by omega), ?_⟩
    rw [hslice, hsize]
    rfl

end VerseSearch
