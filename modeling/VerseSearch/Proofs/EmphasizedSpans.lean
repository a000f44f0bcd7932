import VerseSearch.Proofs.Backslashes
import VerseSearch.Proofs.Exhaustion
import VerseSearch.Proofs.Finding
import VerseSearch.Proofs.MarkVerses
import VerseSearch.Proofs.Transparency

/-!
# What is emphasized is what is counted

Occurrences are counted with one expression and emphasized with another one, which was read from the
same text between parentheses. `Pattern.Emphasizes` says that the two agree on a verse: some spans
of the verse are as many as its occurrences, and emphasis puts markers around them and changes
nothing else; or the verse is too much for both.

In the letter layer it is the whole match that is emphasized. The two expressions cut the verse in
the same way, because the second is the first in a group (`Regex.read_group_eq`), unless they refer to
groups: in its group the second one has numbers of its own (`Pattern.refers`). In the mark layer it is
the beginning of a word, and both are told apart word by word.
-/

set_option autoImplicit false

namespace VerseSearch

namespace Pattern

/-- Some spans of a verse that are as many as the occurrences of a pattern, and that emphasis puts
between markers, unless the verse is too much for the pattern. -/
structure Emphasizes (p : Pattern) (verse : String) (e : Spans) : Prop where
  text_eq : e.text = verse.toList
  count_eq : p.count verse = p.unlessGivenUp verse e.count
  emphasize_eq : ∀ m : Markers,
    m.emphasize (some p) verse = p.unlessGivenUp verse (String.ofList (e.written m))

theorem Emphasizes.count_eq_of_count {p : Pattern} {verse : String} {e : Spans} {n : Nat}
    (he : p.Emphasizes verse e) (h : p.count verse = .ok n) : e.count = n :=
  (unlessGivenUp_eq_ok.1 (he.count_eq.symm.trans h)).2

/-- Whether the pattern refers to what a group has covered. -/
def refers (p : Pattern) : Bool := p.matchers.any fun m => m.counting.refers

/-- An empty pattern emphasizes nothing. -/
theorem emphasizes_of_isEmpty {p : Pattern} (h : p.isEmpty = true) (verse : String) :
    p.Emphasizes verse (.plain verse.toList) := by
  have hcount := count_of_isEmpty h verse
  have hgiven : p.givesUp verse = false := givesUp_eq_false_iff.2 ⟨0, hcount⟩
  refine ⟨rfl, ?_, fun m => ?_⟩
  · rw [hcount, unlessGivenUp_of_false hgiven]
    rfl
  · rw [m.emphasize_of_isEmpty h, unlessGivenUp_of_false hgiven]
    exact congrArg Except.ok String.ofList_toList.symm

/-! ## Letters -/

/-- A letter pattern emphasizes the matches that it counts, if its second expression is the first one
in a group. A verse that is too much for it is left as it is. -/
theorem emphasizes_of_matchers {source : String} {counting : Regex}
    (hrefers : counting.refers = false) (verse : String) :
    let p : Pattern := ⟨.letters, source, some ⟨counting, .group 1 counting.raise⟩⟩
    p.Emphasizes verse (.plain verse.toList) ∨
      ∃ qs, (Regex.group 1 counting.raise).cut? verse.toList = some qs ∧
        p.Emphasizes verse (.ofPieces qs) := by
  intro p
  rcases searched_or_givenUp (p := p) rfl hrefers verse with
    ⟨hgiven, hcount, hemphasize⟩ | ⟨ps, qs, hgiven, _, hqs, hbare, hcount, hemphasize⟩
  · refine .inl ⟨rfl, ?_, fun m => ?_⟩
    · rw [hcount, unlessGivenUp_of_true hgiven]
    · rw [hemphasize, unlessGivenUp_of_true hgiven]
  · refine .inr ⟨qs, hqs, ?_, ?_, fun m => ?_⟩
    · rw [Spans.text_ofPieces]
      exact Regex.flatMap_text_cut? hqs
    · rw [hcount, unlessGivenUp_of_false hgiven, Spans.count_ofPieces,
        ← Piece.countP_isHit_map_bare qs, hbare, Piece.countP_isHit_map_bare]
    · rw [hemphasize, unlessGivenUp_of_false hgiven]
      -- the whole match is what stands between the markers, since the group covers it
      refine congrArg (fun s => Except.ok (String.ofList s)) ?_
      exact Spans.flatMap_replacement fun _ _ hmem =>
        congrArg m.around (Regex.text_of_mem_cut?_group hqs hmem)

/-- So it does whatever the wildcard in it is. -/
theorem emphasizes_letters {source : List Char} {p : Pattern}
    (h : build .letters source = .ok p) (hrefers : p.refers = false) (verse : String) :
    p.Emphasizes verse (.plain verse.toList) ∨
      ∃ m qs, p.matchers = some m ∧ m.marking.cut? verse.toList = some qs ∧
        p.Emphasizes verse (.ofPieces qs) := by
  rcases build_cases h with ⟨_, rfl⟩ | ⟨hne, counting, marking, hcounting, hmarking, rfl⟩
  · exact .inl (emphasizes_of_isEmpty rfl verse)
  · obtain rfl := Regex.read_group_eq hne hcounting hmarking
    refine (emphasizes_of_matchers hrefers verse).imp_right ?_
    rintro ⟨qs, hqs, he⟩
    exact ⟨_, qs, rfl, hqs, he⟩

end Pattern

/-! ## Marks -/

namespace Spans

/-- The beginning of a word that a query marks, if it marks the word. -/
def ofWord (q w : List Char) : Spans :=
  match Marks.split? q w with
  | none => plain w
  | some (first, rest) => (span first).append (plain rest)

/-- The marked beginnings of words that are joined by spaces. -/
def ofWords (q : List Char) : List (List Char) → Spans
  | [] => plain []
  | [w] => ofWord q w
  | w :: next :: words => (ofWord q w).append ((plain [' ']).append (ofWords q (next :: words)))

theorem text_ofWord (q w : List Char) : (ofWord q w).text = w := by
  unfold ofWord
  split
  · rfl
  · rename_i first rest h
    rw [text, joined_append, joined_span, joined_plain]
    exact Marks.append_of_split? h

theorem written_ofWord (m : Markers) (q w : List Char) :
    (ofWord q w).written m = m.markWord q w := by
  cases h : Marks.split? q w with
  | none =>
    rw [ofWord, Markers.markWord, h]
    rfl
  | some parts =>
    rw [ofWord, Markers.markWord, h]
    exact (joined_append ..).trans (by rw [joined_span, joined_plain])

theorem count_ofWord (q w : List Char) :
    (ofWord q w).count = if (Marks.split? q w).isSome then 1 else 0 := by
  unfold ofWord
  split <;> rename_i h <;> simp [h]

theorem joined_ofWords (f : List Char → List Char) (q : List Char) (words : List (List Char)) :
    (ofWords q words).joined f = Text.joinWith ' ' (words.map fun w => (ofWord q w).joined f) := by
  fun_induction ofWords q words with
  | case1 => rfl
  | case2 w => rfl
  | case3 w next words ih =>
    rw [joined_append, joined_append, joined_plain, ih]
    rfl

theorem count_ofWords (q : List Char) (words : List (List Char)) :
    (ofWords q words).count = words.countP fun w => (Marks.split? q w).isSome := by
  fun_induction ofWords q words with
  | case1 => rfl
  | case2 w => rw [count_ofWord, List.countP_singleton]
  | case3 w next words ih =>
    rw [count_append, count_append, count_plain, Nat.zero_add, ih, count_ofWord,
      List.countP_cons (a := w), Nat.add_comm]

end Spans

/-- A mark pattern emphasizes the beginnings of the words that it counts. -/
theorem Marks.emphasizes_pattern {keyword : String} (hne : keyword.toList ≠ [])
    (hq : ∀ c ∈ keyword.toList, Layer.keepsInMarks c = true) (verse : String) :
    (pattern keyword).Emphasizes verse
      (.ofWords keyword.toList (Text.splitAt ' ' verse.toList)) where
  text_eq := by
    have hwords : (Text.splitAt ' ' verse.toList).map (fun w =>
        (Spans.ofWord keyword.toList w).text) = Text.splitAt ' ' verse.toList := by
      simp only [Spans.text_ofWord, List.map_id']
    rw [Spans.text, Spans.joined_ofWords]
    exact (congrArg (Text.joinWith ' ') hwords).trans (Text.joinWith_splitAt ' ' verse.toList)
  count_eq := by rw [count_pattern hne hq, Spans.count_ofWords]
  emphasize_eq := by
    intro m
    have hwritten : (Text.splitAt ' ' verse.toList).map (fun w =>
        (Spans.ofWord keyword.toList w).written m) =
          (Text.splitAt ' ' verse.toList).map (m.markWord keyword.toList) := by
      simp only [Spans.written_ofWord]
    rw [emphasize_pattern hne hq, Spans.written, Spans.joined_ofWords, ← hwritten]
    rfl

/-! ## Typed queries -/

/-- The pattern of a typed mark query is empty, or it is that of its characters. -/
theorem Pattern.marks_cases {wildcard raw keyword : String} {p : Pattern}
    (hq : Query.ofInput raw = .content .marks keyword)
    (hp : compile wildcard .marks keyword = .ok p) :
    p.isEmpty = true ∨ (keyword.toList ≠ [] ∧
      (∀ c ∈ keyword.toList, Layer.keepsInMarks c = true) ∧ p = Marks.pattern keyword) := by
  have hp : ofMarks keyword = .ok p := hp
  by_cases hne : keyword.toList = []
  · rw [String.toList_eq_nil_iff.1 hne, ofMarks_empty] at hp
    cases hp
    exact .inl rfl
  · have hkeeps : ∀ c ∈ keyword.toList, Layer.keepsInMarks c = true := by
      intro c hc
      rw [Query.toList_of_ofInput_eq_content hq] at hc
      exact Layer.keepsInMarks_of_mem_validate hc
    rw [Marks.ofMarks_eq_ok hne hkeeps] at hp
    exact .inr ⟨hne, hkeeps, (Except.ok.inj hp).symm⟩

/-- The text of a letter query has no backslash but those of the wildcard. -/
theorem Letters.backslash_not_mem_source {wildcard : List Char} (hw : '\\' ∉ wildcard)
    (q : List Char) : '\\' ∉ source wildcard q := by
  rw [source, emit_eq_flatMap, List.mem_flatMap]
  rintro ⟨t, ht, hmem⟩
  refine (List.mem_append.1 hmem).elim (fun hmem => ?_) hw
  cases t with
  | letter c =>
    obtain rfl := List.mem_singleton.1 hmem
    exact (mem_of_mem_clean (mem_of_letter_mem_tokens ht)).2 (by decide)
  | family f => cases f <;> exact absurd hmem (by decide)

/-- Without a backslash in the wildcard no typed query has a pattern that refers to groups. -/
theorem Pattern.refers_of_compile {wildcard raw keyword : String} {layer : Layer} {p : Pattern}
    (hq : Query.ofInput raw = .content layer keyword) (hp : compile wildcard layer keyword = .ok p)
    (hw : '\\' ∉ wildcard.toList) : p.refers = false := by
  cases layer with
  | letters =>
    have hp : build .letters (Letters.source wildcard.toList keyword.toList) = .ok p := hp
    rcases build_cases hp with ⟨_, rfl⟩ | ⟨_, counting, marking, hcounting, _, rfl⟩
    · rfl
    · exact Regex.refers_of_read hcounting (Letters.backslash_not_mem_source hw _)
  | marks =>
    rcases marks_cases hq hp with hempty | ⟨hne, hkeeps, rfl⟩
    · rw [refers, Option.isNone_iff_eq_none.1 hempty]
      rfl
    · rw [refers, Marks.matchers_pattern hne hkeeps]
      exact Marks.refers_wordItems 0 _

/-- The pattern of a typed query emphasizes what it counts, in every verse. -/
theorem Pattern.exists_emphasizes {wildcard raw keyword : String} {layer : Layer} {p : Pattern}
    (hq : Query.ofInput raw = .content layer keyword) (hp : compile wildcard layer keyword = .ok p)
    (hrefers : p.refers = false) (verse : String) : ∃ e, p.Emphasizes verse e := by
  cases layer with
  | letters =>
    have hp : build .letters (Letters.source wildcard.toList keyword.toList) = .ok p := hp
    rcases emphasizes_letters hp hrefers verse with he | ⟨_, _, _, _, he⟩
    · exact ⟨_, he⟩
    · exact ⟨_, he⟩
  | marks =>
    rcases marks_cases hq hp with hempty | ⟨hne, hkeeps, rfl⟩
    · exact ⟨_, emphasizes_of_isEmpty hempty verse⟩
    · exact ⟨_, Marks.emphasizes_pattern hne hkeeps verse⟩

/-! ## Pages -/

/-- A view shows a verse: the spans are as many as the occurrences it states, its text is the
display form of the verse with the spans between markers, and the spans brought into display form
are cut out of the verse in display form. -/
structure VerseView.Shows (view : VerseView) (m : Markers) (verse : Verse) (e : Spans) : Prop where
  surahName_eq : view.surahName = verse.surahName
  surahNumber_eq : view.surahNumber = verse.surahNumber
  number_eq : view.number = verse.number
  text_eq : e.text = verse.text.toList
  count_eq : e.count = view.occurrences
  written_eq : view.text = displayForm (String.ofList (e.written m))
  shown_text_eq : String.ofList e.shown.text = displayForm verse.text
  shown_written_eq : view.text = String.ofList (e.shown.written m.shown)

/-- The view of a row shows its verse, if emphasis puts markers around spans of the verse. -/
theorem VerseView.shows_ofEmphasized {m : Markers} {row : Row} {e : Spans}
    (htext : e.text = row.verse.text.toList) (hcount : e.count = row.occurrences) :
    (ofEmphasized row (String.ofList (e.written m))).Shows m row.verse e where
  surahName_eq := rfl
  surahNumber_eq := rfl
  number_eq := rfl
  text_eq := htext
  count_eq := hcount
  written_eq := rfl
  shown_text_eq := by rw [Spans.text_shown, htext, displayForm_eq]
  shown_written_eq := by
    rw [Spans.written_shown, ofEmphasized, displayForm_eq, String.toList_ofList]

/-- A page is answered if each of its rows has a view, and shows these views. -/
theorem Page.exists_render {m : Markers} {perPage n : Nat} {q : Query} {r : Results}
    {Good : VerseView → Prop}
    (h : ∀ row ∈ rowsOn perPage r n, ∃ view, VerseView.ofRow m r.pattern row = .ok view ∧ Good view) :
    ∃ page, render m perPage q r n = .ok page ∧ ∀ view ∈ page.views, Good view := by
  cases hr : render m perPage q r n with
  | error fault =>
    obtain ⟨_, row, hrow, hfault⟩ := exists_row_of_render_eq_error hr
    obtain ⟨view, hview, _⟩ := h row hrow
    rw [hview] at hfault
    cases hfault
  | ok page =>
    refine ⟨page, rfl, fun view hview => ?_⟩
    by_cases hq : q.isValid = true
    · obtain ⟨views, hviews, rfl⟩ := (render_eq_ok_iff hq).1 hr
      have hmem : (.ok view : Except Fault VerseView) ∈ views.map .ok := List.mem_map_of_mem hview
      rw [← hviews] at hmem
      obtain ⟨row, hrow, hview'⟩ := List.mem_map.1 hmem
      obtain ⟨view', hview'', hgood⟩ := h row hrow
      cases hview''.symm.trans hview'
      exact hgood
    · rw [render, if_neg hq] at hr
      cases hr
      cases hview

/-- Every row of what a typed query finds has a view that shows a verse of the corpus. -/
theorem Library.shows_of_find {l : Library} {wildcard raw : String} {r : Results}
    (hr : l.find wildcard (Query.ofInput raw) = .ok r)
    (hrefers : ∀ p ∈ r.pattern, p.refers = false) {m : Markers} {perPage n : Nat} {row : Row}
    (hrow : row ∈ Page.rowsOn perPage r n) :
    ∃ view, VerseView.ofRow m r.pattern row = .ok view ∧
      ∃ (layer : Layer) (c : Corpus) (verse : Verse) (e : Spans),
        (Query.ofInput raw).layer? = some layer ∧ l.get? layer = some c ∧ verse ∈ c.verses ∧
        view.Shows m verse e ∧
        ∀ surah number, Query.ofInput raw = .reference surah number → view.occurrences = 0 := by
  cases hq : Query.ofInput raw with
  | invalid =>
    rw [hq] at hr
    cases hr
    obtain ⟨hit, hmem, _⟩ := Results.exists_hit_of_mem_slice hrow
    cases hmem
  | content layer keyword =>
    rw [hq, find_content_eq_ok_iff] at hr
    obtain ⟨c, p, hc, hp, _, rfl⟩ := hr
    obtain ⟨hverse, hcount, _⟩ := occurrences_of_ofContent hrow
    obtain ⟨e, he⟩ := Pattern.exists_emphasizes hq hp (hrefers p rfl) row.verse.text
    obtain ⟨hgiven, hoccurrences⟩ :=
      Pattern.unlessGivenUp_eq_ok.1 (he.count_eq.symm.trans hcount)
    have hemphasize : m.emphasize (some p) row.verse.text = .ok (String.ofList (e.written m)) := by
      rw [he.emphasize_eq, Pattern.unlessGivenUp_of_false hgiven]
    exact ⟨_, congrArg (Except.map _) hemphasize, layer, c, row.verse, e, rfl, hc, hverse,
      VerseView.shows_ofEmphasized he.text_eq hoccurrences, fun _ _ h => by cases h⟩
  | reference surah number =>
    rw [hq, find_reference_eq_ok_iff] at hr
    obtain ⟨c, hc, rfl⟩ := hr
    obtain ⟨hverse, hcount⟩ := occurrences_of_referenceResults hrow
    have hplain : row.verse.text = String.ofList ((Spans.plain row.verse.text.toList).written m) :=
      String.ofList_toList.symm
    exact ⟨_, congrArg (Except.map _) (congrArg Except.ok hplain), .letters, c, row.verse, _, rfl, hc,
      hverse, VerseView.shows_ofEmphasized rfl hcount.symm, fun _ _ _ => hcount⟩

/-- Where the wildcard has no backslash, what a typed query finds has no pattern that refers to
groups. -/
theorem Library.refers_of_find {l : Library} {wildcard raw : String} {r : Results}
    (hr : l.find wildcard (Query.ofInput raw) = .ok r) (hw : '\\' ∉ wildcard.toList) :
    ∀ p ∈ r.pattern, p.refers = false := by
  intro p hp
  cases hq : Query.ofInput raw with
  | invalid =>
    rw [hq] at hr
    cases hr
    cases hp
  | content layer keyword =>
    obtain ⟨c, p', _, hcompile, _, rfl⟩ := find_content_eq_ok_iff.1 (hq ▸ hr)
    cases hp
    exact Pattern.refers_of_compile hq hcompile hw
  | reference surah number =>
    obtain ⟨c, _, rfl⟩ := find_reference_eq_ok_iff.1 (hq ▸ hr)
    cases hp

end VerseSearch
