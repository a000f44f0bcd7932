import VerseSearch.Proofs.EmphasizedSpans
import VerseSearch.Proofs.Narrowing

/-!
# Occurrences keep to words

No occurrence goes over the end of a word unless the query says so. In the letter layer no spelling
of a token and nothing between two tokens has a space in it, so an occurrence has as many spaces as
the cleaned query (`Letters.count_space_of_carries`). In the mark layer an occurrence is a word with
the space before it, and what is emphasized is a beginning of the word that is not empty
(`Marks.beginsWord_of_mem_ofWords`).
-/

set_option autoImplicit false

namespace VerseSearch

/-- The pattern reports the span in the verse, for counting or for emphasis. -/
def Pattern.Reports (p : Pattern) (verse : String) (span : List Char) : Prop :=
  ∃ m ∈ p.matchers, ∃ r ∈ [m.counting, m.marking], ∃ ps groups,
    r.cut? (p.kind.subject verse.toList) = some ps ∧ .hit span groups ∈ ps

/-- An empty pattern reports nothing. -/
theorem Pattern.not_reports_of_isEmpty {p : Pattern} (h : p.isEmpty = true) (verse : String)
    (span : List Char) : ¬ p.Reports verse span := by
  rintro ⟨m, hm, _⟩
  rw [isEmpty, Option.isNone_iff_eq_none] at h
  rw [h] at hm
  cases hm

namespace Spans

/-- The spans without the gaps. -/
def spans (e : Spans) : List (List Char) := e.parts.map Prod.snd

theorem spans_append (e e' : Spans) : (e.append e').spans = e.spans ++ e'.spans := by
  obtain ⟨parts', last'⟩ := e'
  cases parts' <;> simp [append, spans]

/-- The spans that are cut out of pieces are the matches among them. -/
theorem exists_hit_of_mem_ofPieces {ps : List Piece} {s : List Char}
    (h : s ∈ (ofPieces ps).spans) : ∃ groups, .hit s groups ∈ ps := by
  induction ps with
  | nil => cases h
  | cons x ps ih =>
    cases x with
    | plain c =>
      rw [ofPieces, spans_append] at h
      obtain ⟨groups, hit⟩ := ih h
      exact ⟨groups, List.mem_cons_of_mem _ hit⟩
    | hit s' groups =>
      rw [ofPieces, spans_append] at h
      rcases List.mem_cons.1 h with rfl | h
      · exact ⟨groups, List.mem_cons_self⟩
      · obtain ⟨groups', hit⟩ := ih h
        exact ⟨groups', List.mem_cons_of_mem _ hit⟩

end Spans

/-! ## Letters -/

namespace Letters

variable {t : Token} {ts : List Token} {span next : List Char} {keyword : String}

/-- A span that is one of some spellings without spaces has no space. -/
theorem space_not_mem_of_contains {spellings : List (List Char)}
    (hspellings : ∀ s ∈ spellings, ' ' ∉ s) (h : spellings.contains span = true) : ' ' ∉ span :=
  hspellings span (List.contains_iff_mem.1 h)

/-- No spelling of a family has a space. -/
theorem Family.space_not_mem_of_spells {f : Family} (h : f.spells span next = true) :
    ' ' ∉ span := by
  cases f with
  | articleRelative =>
    rw [beq_iff_eq.1 h]
    decide
  | articleLam =>
    simp only [spells, Bool.or_eq_true, Bool.and_eq_true, beq_iff_eq] at h
    rcases h with (rfl | rfl) | ⟨rfl, _⟩ <;> decide
  | yeh =>
    rcases Bool.or_eq_true_iff.1 h with h | h
    · -- what follows the marked alef may be anything but a space
      obtain ⟨c, rfl, hc⟩ := isMarkedAlef_iff.1 h
      simpa using Ne.symm hc
    · exact space_not_mem_of_contains (by decide) (Bool.and_eq_true_iff.1 h).1
  | alefMaksura => exact space_not_mem_of_contains (by decide) (Bool.and_eq_true_iff.1 h).1
  | alef => exact space_not_mem_of_contains (by decide) h
  | hamza => exact space_not_mem_of_contains (by decide) h
  | alefMadda => exact space_not_mem_of_contains (by decide) h
  | waw => exact space_not_mem_of_contains (by decide) h
  | noon => exact space_not_mem_of_contains (by decide) h

/-- A token spells a space only if it is one. -/
theorem Token.count_space_of_spells (h : t.spells span next = true) :
    span.count ' ' = [t].count (.letter ' ') := by
  cases t with
  | letter c =>
    rw [beq_iff_eq.1 h]
    simp [List.count_singleton]
  | family f =>
    rw [List.count_eq_zero.2 (Family.space_not_mem_of_spells h)]
    rfl

/-- A span that carries tokens has as many spaces as there are among the tokens. -/
theorem count_space_of_carries (h : Carries ts span next) :
    span.count ' ' = ts.count (.letter ' ') := by
  induction ts generalizing span with
  | nil =>
    obtain rfl : span = [] := h
    rfl
  | cons t ts ih =>
    obtain ⟨first, fill, rest, rfl, hfirst, hfill, hrest⟩ := h.exists_parts
    have hspace : ' ' ∉ fill := fun hmem => absurd (hfill ' ' hmem) (by decide)
    rw [List.count_append, List.count_append, Token.count_space_of_spells hfirst,
      List.count_eq_zero.2 hspace, ih hrest, Nat.zero_add, ← List.count_append]
    rfl

/-- Only a space is searched for as a space. -/
theorem Token.count_space_ofLetter (c : Char) :
    [ofLetter c].count (.letter ' ') = [c].count ' ' := by
  by_cases hc : c = ' '
  · rw [hc]
    decide
  · have hletter : ofLetter c ≠ .letter ' ' := fun h => hc (ofLetter_eq_letter h)
    simp [hletter, hc]

/-- Splitting a query into tokens keeps its spaces. -/
theorem count_space_tokens (q : List Char) : (tokens q).count (.letter ' ') = q.count ' ' := by
  fun_induction tokens q with
  | case1 r ih => simp [ih]
  | case2 r ih => simp [ih]
  | case3 c r _ _ ih =>
    rw [← List.singleton_append, List.count_append, ih, Token.count_space_ofLetter,
      ← List.count_append]
    rfl
  | case4 => rfl

/-- What a letter pattern reports has as many spaces as the cleaned query. -/
theorem count_space_of_reports (hne : tokens (clean keyword.toList) ≠ []) {verse : String}
    (h : (pattern keyword).Reports verse span) :
    span.count ' ' = (clean keyword.toList).count ' ' := by
  obtain ⟨m, hm, r, hr, ps, groups, hps, hit⟩ := h
  obtain ⟨pre, post, hpieces⟩ := List.append_of_mem hit
  cases hm
  rw [count_space_of_carries (carries_of_cut? hne hr hps hpieces), count_space_tokens]

/-- What a letter pattern emphasizes is what it reports. -/
theorem exists_emphasizes_reports {wildcard : List Char}
    (h : Pattern.build .letters (source wildcard keyword.toList) = .ok (pattern keyword))
    (verse : String) :
    ∃ e, (pattern keyword).Emphasizes verse e ∧
      ∀ span ∈ e.spans, (pattern keyword).Reports verse span := by
  have hrefers : (pattern keyword).refers = false := refers_expression _
  rcases Pattern.emphasizes_letters h hrefers verse with he | ⟨m, qs, hm, hqs, he⟩
  · exact ⟨_, he, fun span hspan => by cases hspan⟩
  · refine ⟨_, he, fun span hspan => ?_⟩
    obtain ⟨groups, hit⟩ := Spans.exists_hit_of_mem_ofPieces hspan
    exact ⟨m, hm, m.marking, by simp, qs, groups, hqs, hit⟩

end Letters

/-! ## Places of spans -/

namespace Spans

/-- Each span with all of the text before it, if `before` comes in front of the parts. -/
def placesFrom (before : List Char) : List (List Char × List Char) → List (List Char × List Char)
  | [] => []
  | (gap, s) :: parts => (before ++ gap, s) :: placesFrom (before ++ gap ++ s) parts

/-- Each span with all of the text before it. -/
def places (e : Spans) : List (List Char × List Char) := placesFrom [] e.parts

theorem placesFrom_append (before : List Char) (parts parts' : List (List Char × List Char)) :
    placesFrom before (parts ++ parts') = placesFrom before parts ++
      placesFrom (before ++ parts.flatMap fun part => part.1 ++ part.2) parts' := by
  induction parts generalizing before with
  | nil => simp [placesFrom]
  | cons part parts ih => simp [placesFrom, ih]

/-- The spans of the second text stand behind all of the first one. -/
theorem placesFrom_parts_append (before : List Char) (e e' : Spans) :
    placesFrom before (e.append e').parts =
      placesFrom before e.parts ++ placesFrom (before ++ e.text) e'.parts := by
  obtain ⟨parts, last⟩ := e
  obtain ⟨parts', last'⟩ := e'
  cases parts' with
  | nil => simp [append, placesFrom]
  | cons part parts' => simp [append, placesFrom_append, placesFrom, text, joined]

theorem map_snd_placesFrom (before : List Char) (parts : List (List Char × List Char)) :
    (placesFrom before parts).map Prod.snd = parts.map Prod.snd := by
  induction parts generalizing before with
  | nil => rfl
  | cons part parts ih => simp [placesFrom, ih]

/-- Every span has its place. -/
theorem map_snd_places (e : Spans) : e.places.map Prod.snd = e.spans :=
  map_snd_placesFrom [] e.parts

variable {before s : List Char}

theorem exists_append_of_mem_placesFrom {front : List Char} {parts : List (List Char × List Char)}
    (h : (before, s) ∈ placesFrom front parts) :
    ∃ after, front ++ parts.flatMap (fun part => part.1 ++ part.2) = before ++ s ++ after := by
  induction parts generalizing front with
  | nil => cases h
  | cons part parts ih =>
    rcases List.mem_cons.1 h with h | h
    · cases h
      exact ⟨parts.flatMap fun part => part.1 ++ part.2, by simp⟩
    · obtain ⟨after, hafter⟩ := ih h
      exact ⟨after, by simpa using hafter⟩

/-- A span stands in the text at its place. -/
theorem exists_append_of_mem_places {e : Spans} (h : (before, s) ∈ e.places) :
    ∃ after, e.text = before ++ s ++ after := by
  obtain ⟨after, hafter⟩ := exists_append_of_mem_placesFrom h
  exact ⟨after ++ e.last, by simpa [text, joined] using congrArg (· ++ e.last) hafter⟩

end Spans

/-! ## Marks -/

namespace Marks

variable {test : Char → Bool} {attached : Bool} {c : Char} {q w first rest : List Char}

/-- The marked beginning of a word is not empty. -/
theorem ne_nil_of_split? (hne : q ≠ []) (h : split? q w = some (first, rest)) : first ≠ [] := by
  rintro rfl
  obtain rfl : rest = w := append_of_split? h
  obtain ⟨c, q, rfl⟩ := List.exists_cons_of_ne_nil hne
  obtain ⟨u, hu, hrest⟩ := Option.bind_eq_some_iff.1 (scan_of_split? h).1
  exact Nat.lt_irrefl _ ((length_lt_of_scanUnit hu).trans_le (suffix_of_scan hrest).length_le)

/-- The span is a beginning of a word, where the text `before` comes in front of it: not empty, with
no space in it, and behind nothing or behind a space. -/
structure BeginsWord (before span : List Char) : Prop where
  ne_nil : span ≠ []
  space_not_mem : ' ' ∉ span
  before_cases : before = [] ∨ ∃ s, before = s ++ [' ']

variable {before span : List Char}

/-- The span of a word is its beginning. -/
theorem beginsWord_of_mem_ofWord (hne : q ≠ []) (hw : ' ' ∉ w) {front : List Char}
    (hfront : front = [] ∨ ∃ s, front = s ++ [' '])
    (h : (before, span) ∈ Spans.placesFrom front (Spans.ofWord q w).parts) :
    BeginsWord before span := by
  unfold Spans.ofWord at h
  split at h
  · cases h
  · rename_i first rest hsplit
    have hplace : (before, span) = (front ++ [], first) := List.mem_singleton.1 h
    rw [List.append_nil] at hplace
    cases hplace
    refine ⟨ne_nil_of_split? hne hsplit, fun hmem => hw ?_, hfront⟩
    rw [← append_of_split? hsplit]
    exact List.mem_append_left rest hmem

/-- The spans of words with spaces between them are beginnings of words. -/
theorem beginsWord_of_mem_ofWords (hne : q ≠ []) {words : List (List Char)}
    (hwords : ∀ w ∈ words, ' ' ∉ w) {front : List Char}
    (hfront : front = [] ∨ ∃ s, front = s ++ [' '])
    (h : (before, span) ∈ Spans.placesFrom front (Spans.ofWords q words).parts) :
    BeginsWord before span := by
  fun_induction Spans.ofWords q words generalizing front with
  | case1 => cases h
  | case2 w => exact beginsWord_of_mem_ofWord hne (hwords w List.mem_cons_self) hfront h
  | case3 w next words ih =>
    obtain ⟨hw, hwords⟩ := List.forall_mem_cons.1 hwords
    rw [Spans.placesFrom_parts_append, Spans.placesFrom_parts_append] at h
    rcases List.mem_append.1 h with h | h
    · exact beginsWord_of_mem_ofWord hne hw hfront h
    -- the next word stands behind the space
    · exact ih hwords (.inr ⟨_, rfl⟩) h

/-- What a mark pattern reports is a word with the space before it. -/
theorem exists_word_of_reports {keyword : String} (hne : keyword.toList ≠ [])
    (hq : ∀ c ∈ keyword.toList, Layer.keepsInMarks c = true) {verse : String}
    (h : (pattern keyword).Reports verse span) : ∃ w, span = ' ' :: w ∧ ' ' ∉ w := by
  obtain ⟨m, hm, r, hr, ps, groups, hps, hit⟩ := h
  obtain ⟨w, hw, rfl, _⟩ := exists_word_of_cut? hne hq hm hr hps hit
  exact ⟨w, rfl, Text.not_mem_of_mem_splitAt hw⟩

end Marks

/-! ## Typed queries -/

namespace Pattern

variable {raw keyword verse : String} {p : Pattern}

/-- The pattern of a typed letter query is empty, or it is that of the tokens of the query. -/
theorem letters_cases (hq : Query.ofInput raw = .content .letters keyword)
    (hp : compile Letters.nonConsonant .letters keyword = .ok p) :
    p.isEmpty = true ∨
      (Letters.tokens (Letters.clean keyword.toList) ≠ [] ∧ p = Letters.pattern keyword) := by
  have hmark : '?' ∉ keyword.toList := by
    rw [Query.toList_of_ofInput_eq_content hq]
    exact Layer.questionMark_not_mem_validate raw.toList
  have hp : ofLetters Letters.nonConsonant keyword = .ok p := hp
  by_cases hne : Letters.tokens (Letters.clean keyword.toList) = []
  · refine .inl ((isEmpty_of_build hp).2 ?_)
    rw [Letters.source, hne]
    rfl
  · rw [Letters.ofLetters_eq hmark hne] at hp
    split at hp
    · exact .inr ⟨hne, (Except.ok.inj hp).symm⟩
    · cases hp

/-- No occurrence of a typed query crosses the end of a word unless the query has a space there.
With the usual wildcard, everything that the pattern of a letter query reports in a verse, and
everything that it emphasizes, has as many spaces as the cleaned query. Everything that the pattern
of a mark query reports is one space and a word behind it, and everything that it emphasizes is the
beginning of a word: not empty, without a space, and at the front of the verse or right behind a
space. -/
theorem spans_keep_to_words {layer : Layer} (hq : Query.ofInput raw = .content layer keyword)
    (hp : compile Letters.nonConsonant layer keyword = .ok p) (verse : String) :
    let spaces := (Letters.clean keyword.toList).count ' '
    (layer = .letters → (∀ span, p.Reports verse span → span.count ' ' = spaces) ∧
      ∃ e : Spans, p.Emphasizes verse e ∧ ∀ span ∈ e.spans, span.count ' ' = spaces) ∧
    (layer = .marks →
      (∀ span, p.Reports verse span → ∃ w, span = ' ' :: w ∧ ' ' ∉ w) ∧
      ∃ e : Spans, p.Emphasizes verse e ∧ e.places.map Prod.snd = e.spans ∧
        ∀ before span, (before, span) ∈ e.places →
          (∃ after, verse.toList = before ++ span ++ after) ∧ Marks.BeginsWord before span) := by
  intro spaces
  constructor
  · rintro rfl
    rcases letters_cases hq hp with hempty | ⟨hne, rfl⟩
    · exact ⟨fun span h => absurd h (not_reports_of_isEmpty hempty verse span), _,
        emphasizes_of_isEmpty hempty verse, fun span h => by cases h⟩
    · obtain ⟨e, he, hspans⟩ := Letters.exists_emphasizes_reports hp verse
      exact ⟨fun span => Letters.count_space_of_reports hne, e, he,
        fun span h => Letters.count_space_of_reports hne (hspans span h)⟩
  · rintro rfl
    rcases marks_cases hq hp with hempty | ⟨hne, hkeeps, rfl⟩
    · exact ⟨fun span h => absurd h (not_reports_of_isEmpty hempty verse span), _,
        emphasizes_of_isEmpty hempty verse, rfl, fun before span h => by cases h⟩
    · have he := Marks.emphasizes_pattern hne hkeeps verse
      refine ⟨fun span => Marks.exists_word_of_reports hne hkeeps, _, he, Spans.map_snd_places _,
        fun before span h => ⟨?_, ?_⟩⟩
      · rw [← he.text_eq]
        exact Spans.exists_append_of_mem_places h
      · exact Marks.beginsWord_of_mem_ofWords hne (fun _ => Text.not_mem_of_mem_splitAt)
          (.inl rfl) h

/-- Letters of two words are one occurrence with one space in it. A fatha is emphasized in both
words. -/
theorem spans_in_two_words :
    let letters := "\u0642\u0644 \u0647"
    let marks := "\u064E"
    let verse := "\u0642\u064E\u0644\u064E \u0647\u064E"
    (∃ p e, compile Letters.nonConsonant .letters letters = .ok p ∧ p.Emphasizes verse e ∧
      e.count = 1 ∧ ∀ span ∈ e.spans, span.count ' ' = 1) ∧
    ∃ p e, compile Letters.nonConsonant .marks marks = .ok p ∧ p.Emphasizes verse e ∧
      e.count = 2 ∧ ∀ before span, (before, span) ∈ e.places → Marks.BeginsWord before span := by
  intro letters marks verse
  constructor
  · have hp : compile Letters.nonConsonant .letters letters = .ok (Letters.pattern letters) :=
      (Letters.ofLetters_eq (by decide) (by decide)).trans (if_pos (by decide +kernel))
    have hspaces : (Letters.clean letters.toList).count ' ' = 1 := by decide
    have hq : Query.ofInput letters = .content .letters letters := by decide
    have hcount : (Letters.pattern letters).count verse = .ok 1 := by
      rw [Letters.count_pattern, unlessGivenUp_of_false
        (givesUp_of_isRegular (Letters.matchers_pattern letters) (by decide) verse)]
      exact congrArg Except.ok (by decide +kernel)
    obtain ⟨_, e, he, hspans⟩ := (spans_keep_to_words hq hp verse).1 rfl
    exact ⟨_, e, hp, he, he.count_eq_of_count hcount, fun span h => (hspans span h).trans hspaces⟩
  · have hne : marks.toList ≠ [] := by decide
    have hkeeps : ∀ c ∈ marks.toList, Layer.keepsInMarks c = true := List.all_eq_true.1 (by decide)
    have hp : compile Letters.nonConsonant .marks marks = .ok (Marks.pattern marks) :=
      Marks.ofMarks_eq_ok hne hkeeps
    have hq : Query.ofInput marks = .content .marks marks := by decide
    have hcount : (Marks.pattern marks).count verse = .ok 2 := by
      rw [Marks.count_pattern hne hkeeps, unlessGivenUp_of_false
        (Marks.givesUp_pattern hne hkeeps (by decide))]
      exact congrArg Except.ok (by decide)
    obtain ⟨_, e, he, _, hplaces⟩ := (spans_keep_to_words hq hp verse).2 rfl
    exact ⟨_, e, hp, he, he.count_eq_of_count hcount,
      fun before span h => (hplaces before span h).2⟩

end Pattern

end VerseSearch
