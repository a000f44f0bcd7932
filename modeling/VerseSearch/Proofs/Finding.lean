import VerseSearch.Proofs.Validation
import VerseSearch.Search.Find

/-!
# What typed queries find

A typed text is read as one of a few kinds of queries (`Query.ofInput_cases`), and what a query
finds is put together in one way for each kind (`Library.find_content_eq_ok_iff`,
`Library.find_reference_eq_ok_iff`). Every row of the results shows a verse of the corpus, with the
number of occurrences that the pattern has in it (`occurrences_of_ofContent`).
-/

set_option autoImplicit false

namespace VerseSearch

/-! ## Typed queries -/

namespace Query

/-- A typed text is typed in neither layer, or refers to a verse, or is the validated text of its
layer. -/
theorem ofInput_cases (raw : String) :
    ofInput raw = .invalid ∨ (∃ surah verse, ofInput raw = .reference surah verse) ∨
      ∃ layer : Layer, ofInput raw = .content layer (String.ofList (layer.validate raw.toList)) := by
  unfold ofInput
  split
  · exact .inl rfl
  · rename_i layer _
    by_cases hr : layer = .letters ∧ isReference (layer.validate raw.toList) = true
    · rw [if_pos hr]
      exact .inr (.inl ⟨_, _, rfl⟩)
    · rw [if_neg hr]
      exact .inr (.inr ⟨layer, rfl⟩)

/-- The keyword of a typed query is a validated text. -/
theorem toList_of_ofInput_eq_content {raw : String} {layer : Layer} {keyword : String}
    (h : ofInput raw = .content layer keyword) : keyword.toList = layer.validate raw.toList := by
  rcases ofInput_cases raw with hq | ⟨_, _, hq⟩ | ⟨_, hq⟩
  · rw [hq] at h
    cases h
  · rw [hq] at h
    cases h
  · rw [hq] at h
    cases h
    exact String.toList_ofList

end Query

/-! ## Results -/

namespace Results

/-- A row of a slice belongs to a hit. -/
theorem exists_hit_of_mem_slice {r : Results} {start stop : Nat} {row : Row}
    (h : row ∈ r.slice start stop) : ∃ hit ∈ r.hits, r.rowOf? hit = some row := by
  obtain ⟨hit, hmem, hrow⟩ := List.mem_filterMap.1 h
  exact ⟨hit, List.mem_of_mem_take (List.mem_of_mem_drop hmem), hrow⟩

/-- The row of a hit in a corpus. -/
theorem rowOf?_eq_some {r : Results} {c : Corpus} (hc : r.corpus = some c) {hit : Hit} {row : Row} :
    r.rowOf? hit = some row ↔
      c.verses[hit.index]? = some row.verse ∧ hit.occurrences = row.occurrences := by
  rw [rowOf?, hc, Option.bind_some, Corpus.verse?, Option.map_eq_some_iff]
  constructor
  · rintro ⟨v, hv, rfl⟩
    exact ⟨hv, rfl⟩
  · rintro ⟨hv, ho⟩
    exact ⟨row.verse, hv, by rw [ho]⟩

end Results

/-- A row of a content query shows the number of occurrences in its verse, of which there is one at
least. -/
theorem occurrences_of_ofContent {c : Corpus} {p : Pattern} {start stop : Nat} {row : Row}
    (h : row ∈ (Results.ofContent c p).slice start stop) :
    row.verse ∈ c.verses ∧ p.count row.verse.text = .ok row.occurrences ∧ 0 < row.occurrences := by
  obtain ⟨hit, hmem, hrow⟩ := Results.exists_hit_of_mem_slice h
  obtain ⟨hverse, hoccurrences⟩ := (Results.rowOf?_eq_some (c := c) rfl).1 hrow
  have hhit : hit ∈ hitsBy p.positiveCount? c.verses := hmem
  obtain ⟨v, hv, hcount⟩ := mem_hitsBy.1 hhit
  obtain rfl : row.verse = v := Option.some.inj (hverse.symm.trans hv)
  rw [hoccurrences] at hcount
  exact ⟨List.mem_of_getElem? hverse, Pattern.positiveCount?_eq_some_iff.1 hcount⟩

/-- A row of a reference counts nothing. -/
theorem occurrences_of_referenceResults {c : Corpus} {surah : String} {number : Option String}
    {start stop : Nat} {row : Row} (h : row ∈ (referenceResults c surah number).slice start stop) :
    row.verse ∈ c.verses ∧ row.occurrences = 0 := by
  obtain ⟨hit, hmem, hrow⟩ := Results.exists_hit_of_mem_slice h
  obtain ⟨hverse, hoccurrences⟩ := (Results.rowOf?_eq_some (c := c) rfl).1 hrow
  have hhit : hit ∈ hitsBy (fun v => if v.matchesReference surah number then some 0 else none)
    c.verses := hmem
  obtain ⟨v, _, hzero⟩ := mem_hitsBy.1 hhit
  rw [hoccurrences] at hzero
  refine ⟨List.mem_of_getElem? hverse, ?_⟩
  split at hzero
  · exact (Option.some.inj hzero).symm
  · cases hzero

/-! ## What queries find -/

namespace Library

variable {l : Library} {wildcard : String}

theorem require_eq_ok_iff {layer : Layer} {c : Corpus} :
    l.require layer = .ok c ↔ l.get? layer = some c := by
  unfold require
  cases l.get? layer <;> simp

theorem require_eq_error_iff {layer : Layer} {fault : Fault} :
    l.require layer = .error fault ↔ l.get? layer = none ∧ fault = .notReady layer := by
  unfold require
  cases l.get? layer <;> simp [eq_comm]

theorem find_content_eq_ok_iff {layer : Layer} {keyword : String} {r : Results} :
    l.find wildcard (.content layer keyword) = .ok r ↔
      ∃ c p, l.get? layer = some c ∧ Pattern.compile wildcard layer keyword = .ok p ∧
        (∀ v ∈ c.verses, p.givesUp v.text = false) ∧ r = .ofContent c p := by
  rw [find]
  cases hc : l.require layer with
  | error fault => simp [← require_eq_ok_iff, hc]
  | ok c =>
    have hget := require_eq_ok_iff.1 hc
    cases hp : Pattern.compile wildcard layer keyword with
    | error fault => simp
    | ok p => simp [hget, contentResults_eq_ok_iff]

/-- A verse of the query's corpus is too much for its pattern. -/
def GivesUp (l : Library) (wildcard : String) (q : Query) : Prop :=
  ∃ layer keyword c p, q = .content layer keyword ∧ l.get? layer = some c ∧
    Pattern.compile wildcard layer keyword = .ok p ∧ ∃ v ∈ c.verses, p.givesUp v.text = true

/-- A content query with a corpus finds nothing for want of a pattern, or because it is given up. -/
theorem find_content_eq_error_iff {layer : Layer} {keyword : String} {c : Corpus}
    (hc : l.get? layer = some c) {fault : Fault} :
    l.find wildcard (.content layer keyword) = .error fault ↔
      (∃ noPattern, Pattern.compile wildcard layer keyword = .error noPattern ∧
        fault = .pattern noPattern) ∨
      (fault = .givenUp ∧ l.GivesUp wildcard (.content layer keyword)) := by
  have hgiven : l.GivesUp wildcard (.content layer keyword) ↔
      ∃ p, Pattern.compile wildcard layer keyword = .ok p ∧
        ∃ v ∈ c.verses, p.givesUp v.text = true := by
    constructor
    · rintro ⟨_, _, c', p, hq, hc', hp, hv⟩
      cases hq
      cases hc.symm.trans hc'
      exact ⟨p, hp, hv⟩
    · rintro ⟨p, hp, hv⟩
      exact ⟨layer, keyword, c, p, rfl, hc, hp, hv⟩
  rw [find, require_eq_ok_iff.2 hc, hgiven]
  cases hp : Pattern.compile wildcard layer keyword with
  | error noPattern =>
    constructor
    · intro h
      cases h
      exact .inl ⟨noPattern, rfl, rfl⟩
    · rintro (⟨_, hfault, rfl⟩ | ⟨_, _, hok, _⟩)
      · cases hfault
        rfl
      · cases hok
  | ok p => simp [contentResults_eq_error_iff]

theorem find_reference_eq_ok_iff {surah : String} {number : Option String} {r : Results} :
    l.find wildcard (.reference surah number) = .ok r ↔
      ∃ c, l.get? .letters = some c ∧ r = referenceResults c surah number := by
  rw [find]
  cases hc : l.require .letters with
  | error fault => simp [← require_eq_ok_iff, hc]
  | ok c => simp [require_eq_ok_iff.1 hc, eq_comm]

end Library

end VerseSearch
