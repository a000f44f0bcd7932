import VerseSearch.Pattern
import VerseSearch.Proofs.Cleaning
import VerseSearch.Proofs.Occurrences
import VerseSearch.Proofs.Spellings

/-!
# What a letter query matches

A verse has an occurrence of a letter query exactly if a span of it carries the tokens of the
cleaned query, and every reported occurrence is such a span (`carries_of_pieces`). The wildcard
behind the last token covers nothing, so the occurrence ends where the last token does. All this is
said of verses that are not too much for the pattern; without a letter whose spelling depends on what
follows it none is.
-/

set_option autoImplicit false

namespace VerseSearch.Letters

/-- A character that is no sign, and no question mark, stands for itself in an expression. -/
theorem isLiteral_of_not_mem_signs {c : Char} (h : c ∉ signs) (hq : c ≠ '?') :
    isLiteral c = true := by
  have hsigns : operators.all (fun d => decide (d ∈ '?' :: signs)) = true := by decide
  refine isLiteral_of_not_mem_operators ?_
  intro hc
  rcases List.mem_cons.1 (of_decide_eq_true (List.all_eq_true.1 hsigns c hc)) with hmark | hsign
  · exact hq hmark
  · exact h hsign

/-- The expression of a list of tokens, each with the wildcard behind it. -/
def expression (ts : List Token) : Regex :=
  .concat (ts.flatMap fun t => t.items ++ [wildcard])

variable {ts : List Token}

/-- No token refers to a group, or repeats what may cover nothing. -/
theorem Token.isPlain_items (t : Token) :
    t.items.any Regex.refers = false ∧ t.items.any Regex.idles = false := by
  cases t with
  | letter c => exact ⟨rfl, rfl⟩
  | family f => cases f <;> exact ⟨by decide, by decide⟩

theorem refers_expression (ts : List Token) : (expression ts).refers = false := by
  simp [expression, Regex.refers_concat, Token.isPlain_items, wildcard, Regex.refers]

theorem isPlain_expression (ts : List Token) : (expression ts).isPlain = true := by
  have hidles : (expression ts).idles = false := by
    simp [expression, Regex.idles_concat, Token.isPlain_items, wildcard, Regex.idles, Regex.mayIdle]
  simp [Regex.isPlain, refers_expression, hidles]

/-- The wildcard behind the last token is never entered. -/
theorem matchAt?_expression (h : ts ≠ []) (p : Place) :
    (expression ts).matchAt? p = (Regex.concat (body ts)).matchAt? p := by
  rw [expression, flatMap_items_wildcard h]
  exact Regex.matchAt?_concat_lazy (body ts) (.one fillers) p

/-- There is an occurrence exactly if some span carries the tokens. -/
theorem count_expression_pos_iff (h : ts ≠ []) {text : List Char} :
    0 < (expression ts).count text ↔
      ∃ before span rest, text = before ++ span ++ rest ∧ Carries ts span rest := by
  rw [Regex.count, Regex.pieces_congr (matchAt?_expression h), ← Regex.count, Regex.count_pos_iff]
  simp only [covers_body]

/-- The span of an occurrence carries the tokens. -/
theorem carries_of_pieces (h : ts ≠ []) {r : Regex}
    (hr : ∀ p, (r.matchAt? p).map Place.rest = ((expression ts).matchAt? p).map Place.rest)
    {text : List Char} {pre post : List Piece} {span : List Char} {groups : Groups}
    (hpieces : r.pieces text = pre ++ .hit span groups :: post) :
    Carries ts span (post.flatMap Piece.text) := by
  refine covers_body.1 (Regex.covers_of_pieces (fun p => ?_) hpieces)
  rw [hr, matchAt?_expression h]

/-- The text of a query is read as the expression of its tokens, and in a group as a group. -/
theorem read_source {q : List Char} (hq : '?' ∉ q) :
    Regex.read (source nonConsonant.toList q) = .ok (expression (tokens (clean q))) ∧
      Regex.read ('(' :: source nonConsonant.toList q ++ [')']) =
        .ok (.group 1 (expression (tokens (clean q)))) := by
  have hletter : ∀ c, Token.letter c ∈ tokens (clean q) → isLiteral c = true := by
    intro c hc
    obtain ⟨hmem, hsign⟩ := mem_of_mem_clean (mem_of_letter_mem_tokens hc)
    exact isLiteral_of_not_mem_signs hsign fun h => hq (h ▸ hmem)
  refine ⟨read_of_reads (reads_emit hletter 0).1 (by decide), ?_⟩
  obtain ⟨hreads, hstarts⟩ := reads_emit hletter 1
  exact read_of_reads (hreads.choices.capture (List.cons_ne_nil _ _) hstarts).reads (by decide)

theorem source_ne_nil {q : List Char} (h : tokens (clean q) ≠ []) :
    source nonConsonant.toList q ≠ [] := by
  obtain ⟨t, ts, ht⟩ := List.exists_cons_of_ne_nil h
  rw [source, emit_eq_flatMap, ht, List.flatMap_cons]
  have hwild : nonConsonant.toList ≠ [] := by decide
  simp [hwild]

/-- The pattern of a letter query. -/
def pattern (keyword : String) : Pattern :=
  let r := expression (tokens (clean keyword.toList))
  ⟨.letters, String.ofList (source nonConsonant.toList keyword.toList), some ⟨r, .group 1 r⟩⟩

/-- What a letter query is compiled to. -/
theorem ofLetters_eq {keyword : String} (hmark : '?' ∉ keyword.toList)
    (hne : tokens (clean keyword.toList) ≠ []) :
    Pattern.ofLetters nonConsonant keyword =
      if (expression (tokens (clean keyword.toList))).fits then .ok (pattern keyword)
      else .error .tooLarge := by
  obtain ⟨hcounting, hmarking⟩ := read_source hmark
  rw [Pattern.ofLetters, Pattern.build_of_read .letters (source_ne_nil hne) hcounting hmarking]
  rfl

theorem matchers_pattern (keyword : String) :
    (pattern keyword).matchers =
      some ⟨expression (tokens (clean keyword.toList)),
        .group 1 (expression (tokens (clean keyword.toList)))⟩ := rfl

theorem count_pattern (keyword text : String) :
    (pattern keyword).count text = (pattern keyword).unlessGivenUp text
      ((expression (tokens (clean keyword.toList))).count text.toList) :=
  Pattern.count_eq_unlessGivenUp (matchers_pattern keyword) (isPlain_expression _) text

/-- The occurrences that a letter pattern cuts out carry the tokens, counted or in a group. -/
theorem carries_of_cut? (h : ts ≠ []) {r : Regex} (hr : r ∈ [expression ts, .group 1 (expression ts)])
    {text span : List Char} {ps pre post : List Piece} {groups : Groups} (hcut : r.cut? text = some ps)
    (hpieces : ps = pre ++ .hit span groups :: post) :
    Carries ts span (post.flatMap Piece.text) := by
  have hplain : (expression ts).isPlain = true := isPlain_expression ts
  rcases List.mem_cons.1 hr with rfl | hr
  · rw [Regex.eq_pieces_of_cut? hplain hcut] at hpieces
    exact carries_of_pieces h (fun _ => rfl) hpieces
  · cases List.mem_singleton.1 hr
    rw [Regex.eq_pieces_of_cut? (r := .group 1 (expression ts)) hplain hcut] at hpieces
    refine carries_of_pieces h (fun p => ?_) hpieces
    rw [Regex.matchAt?_group, Option.map_map]
    rfl

/-- What a letter query matches. Compiling it fails only if the expression takes too much memory; a
question mark, which cleaning does not remove, would be read as a sign. A verse that is not too much
for the pattern has an occurrence exactly if some span of it carries the tokens of the cleaned query,
and each occurrence, of the pattern as it is and of the pattern in its group, is such a span. No verse
is too much for a pattern that is regular. -/
theorem occurs_iff_carries (keyword : String) (hmark : '?' ∉ keyword.toList)
    (hne : tokens (clean keyword.toList) ≠ []) :
    let ts := tokens (clean keyword.toList)
    Pattern.ofLetters nonConsonant keyword =
        (if (expression ts).fits then .ok (pattern keyword) else .error .tooLarge) ∧
      ∀ text : String,
        (∃ n, (pattern keyword).count text = (pattern keyword).unlessGivenUp text n ∧
          (0 < n ↔ ∃ before span rest,
            text.toList = before ++ span ++ rest ∧ Carries ts span rest)) ∧
        ((expression ts).isRegular = true → (pattern keyword).givesUp text = false) ∧
        ∀ m ∈ (pattern keyword).matchers, ∀ r ∈ [m.counting, m.marking],
          ∀ ps, r.cut? text.toList = some ps →
            ∀ pre span groups post, ps = pre ++ .hit span groups :: post →
              Carries ts span (post.flatMap Piece.text) := by
  intro ts
  refine ⟨ofLetters_eq hmark hne, fun text =>
    ⟨⟨(expression ts).count text.toList, count_pattern keyword text, count_expression_pos_iff hne⟩,
      fun hr => ?_, ?_⟩⟩
  · exact Pattern.givesUp_of_isRegular (matchers_pattern keyword) hr text
  · intro m hm r hr ps hcut pre span groups post hpieces
    cases hm
    exact carries_of_cut? hne hr hcut hpieces

/-- Qaf and lam are found under their vowel marks. -/
theorem occurs_qul :
    Pattern.ofLetters nonConsonant "\u0642\u0644" = .ok (pattern "\u0642\u0644") ∧
      ∃ n, (pattern "\u0642\u0644").count "\u0642\u064F\u0644\u0652 \u0647\u064F\u0648\u064E" =
        .ok n ∧ 0 < n := by
  obtain ⟨hcompile, hmatch⟩ := occurs_iff_carries "\u0642\u0644" (by decide) (by decide)
  obtain ⟨⟨n, hcount, hoccurs⟩, hregular, _⟩ :=
    hmatch "\u0642\u064F\u0644\u0652 \u0647\u064F\u0648\u064E"
  refine ⟨?_, n, ?_, hoccurs.2 ⟨[], ['\u0642', '\u064F', '\u0644'],
    ['\u0652', ' ', '\u0647', '\u064F', '\u0648', '\u064E'], rfl, ?_⟩⟩
  · rw [hcompile, if_pos (by decide +kernel)]
  · rw [hcount, Pattern.unlessGivenUp_eq_ok]
    exact ⟨hregular (by decide), rfl⟩
  · exact ⟨['\u0642'], ['\u064F'], ['\u0644'], rfl, rfl, List.all_eq_true.1 rfl, rfl⟩

end VerseSearch.Letters
