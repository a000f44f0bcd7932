import VerseSearch.Proofs.EmphasizedSpans
import VerseSearch.Proofs.LetterWeight

/-!
# Searches fail for want of a corpus only

With the usual wildcard the validated text of either layer always has a pattern
(`Layer.exists_compile_validate`), the memory a pattern may take aside; a typed text of up to 3000
characters never takes too much. And every page of what is found can be rendered, since the pattern
does not refer to groups. So where no verse is too much for the pattern, there is one way left in
which a search can fail: the corpus of its layer is not installed.
-/

set_option autoImplicit false

namespace VerseSearch

/-! ## The size of a letter query -/

namespace Letters

theorem length_tokens_le (q : List Char) : (tokens q).length ≤ q.length := by
  fun_induction tokens q with
  | case1 r ih =>
    simp only [List.length_cons]
    omega
  | case2 r ih =>
    simp only [List.length_cons]
    omega
  | case3 c r _ _ ih => exact Nat.succ_le_succ ih
  | case4 => exact Nat.le_refl 0

theorem length_clean_le (q : List Char) : (clean q).length ≤ q.length :=
  calc (clean q).length
      ≤ (reorderMarks (stripSigns q)).length := (foldVocative_sublist _).length_le
    _ = (stripSigns q).length := (perm_reorderMarks _).length_eq
    _ ≤ q.length := List.length_filter_le _ q

/-- A letter query has a pattern, unless it takes too much memory. -/
theorem ofLetters_cases {keyword : String} (hmark : '?' ∉ keyword.toList) :
    (∃ p, Pattern.ofLetters nonConsonant keyword = .ok p) ∨
      (Pattern.ofLetters nonConsonant keyword = .error .tooLarge ∧
        (expression (tokens (clean keyword.toList))).fits = false) := by
  by_cases hne : tokens (clean keyword.toList) = []
  · have hsource : source nonConsonant.toList keyword.toList = [] := by
      rw [source, hne]
      rfl
    rw [Pattern.ofLetters, hsource]
    exact .inl ⟨_, Pattern.build_nil .letters⟩
  · obtain ⟨hcounting, hmarking⟩ := read_source hmark
    rw [Pattern.ofLetters, Pattern.build_of_read .letters (source_ne_nil hne) hcounting hmarking]
    by_cases hfits : (expression (tokens (clean keyword.toList))).fits = true
    · rw [if_pos hfits]
      exact .inl ⟨_, rfl⟩
    · rw [if_neg hfits]
      exact .inr ⟨rfl, Bool.eq_false_iff.2 hfits⟩

end Letters

/-! ## Patterns of validated texts -/

namespace Layer

theorem length_collapse_le (afterBlank : Bool) (s : List Char) :
    (collapse afterBlank s).length ≤ s.length := by
  induction s generalizing afterBlank with
  | nil => simp
  | cons c s ih =>
    rcases blank_or_kept_or_discarded c with hc | ⟨hb, hk⟩ | hc
    · rw [collapse_blank_cons hc]
      split
      · exact Nat.le_succ_of_le (ih true)
      · exact Nat.succ_le_succ (ih true)
    · rw [collapse_kept_cons hb hk]
      exact Nat.succ_le_succ (ih false)
    · rw [collapse_discarded_cons hc]
      exact Nat.le_succ_of_le (ih false)

theorem length_validate_letters_le (raw : List Char) :
    (validate .letters raw).length ≤ raw.length := by
  simp only [validate, Numeral.toArabicIndic, List.length_map]
  exact length_collapse_le false raw

theorem questionMark_not_mem_validate (raw : List Char) : '?' ∉ validate .letters raw := by
  intro h
  rcases mem_validate_letters h with hc | hc | ⟨hc, _⟩ | ⟨hc, _⟩ <;> exact absurd hc (by decide)

/-- The validated text of a layer has a pattern, unless it takes too much memory. -/
theorem exists_compile_validate (layer : Layer) (raw : List Char) :
    let compiled := Pattern.compile Letters.nonConsonant layer (String.ofList (layer.validate raw))
    (∃ p, compiled = .ok p) ∨
      (compiled = .error .tooLarge ∧ layer = .letters ∧ 3000 < raw.length) := by
  intro compiled
  cases layer with
  | letters =>
    have hmark : '?' ∉ (String.ofList (validate .letters raw)).toList := by
      rw [String.toList_ofList]
      exact questionMark_not_mem_validate raw
    rcases Letters.ofLetters_cases hmark with hp | ⟨hlarge, hfits⟩
    · exact .inl hp
    · refine .inr ⟨hlarge, rfl, Nat.lt_of_not_le fun hshort => ?_⟩
      rw [String.toList_ofList] at hfits
      have hlength := calc (Letters.tokens (Letters.clean (validate .letters raw))).length
          ≤ (Letters.clean (validate .letters raw)).length := Letters.length_tokens_le _
        _ ≤ (validate .letters raw).length := Letters.length_clean_le _
        _ ≤ raw.length := length_validate_letters_le raw
        _ ≤ 3000 := hshort
      rw [Letters.fits_expression hlength] at hfits
      cases hfits
  | marks =>
    left
    by_cases hne : (String.ofList (validate .marks raw)).toList = []
    · have hempty := congrArg Pattern.ofMarks (String.toList_eq_nil_iff.1 hne)
      exact ⟨_, hempty.trans Pattern.ofMarks_empty⟩
    · refine ⟨_, Marks.ofMarks_eq_ok hne fun c hc => ?_⟩
      rw [String.toList_ofList] at hc
      exact keepsInMarks_of_mem_validate hc

end Layer

/-! ## Typed queries -/

/-- The pattern of the query takes more memory than it may. -/
def Query.IsTooLarge (wildcard : String) (q : Query) : Prop :=
  ∃ (layer : Layer) (keyword : String), q = .content layer keyword ∧
    Pattern.compile wildcard layer keyword = .error .tooLarge

/-- A typed text of up to 3000 characters is not too large. -/
theorem Query.not_isTooLarge_of_length_le {raw : String} (h : raw.toList.length ≤ 3000) :
    ¬ (ofInput raw).IsTooLarge Letters.nonConsonant := by
  rintro ⟨layer, keyword, hq, hlarge⟩
  obtain rfl : keyword = String.ofList (layer.validate raw.toList) := by
    rw [← toList_of_ofInput_eq_content hq, String.ofList_toList]
  rcases layer.exists_compile_validate raw.toList with ⟨p, hp⟩ | ⟨_, _, hlong⟩
  · rw [hp] at hlarge
    cases hlarge
  · omega

namespace Library

variable {l : Library}

/-- With the usual wildcard a typed query that is not too large and is not given up has no results
exactly if the corpus of its layer is not installed. -/
theorem find_ofInput_eq_error_iff {raw : String} {fault : Fault}
    (hsize : ¬ (Query.ofInput raw).IsTooLarge Letters.nonConsonant)
    (htries : ¬ l.GivesUp Letters.nonConsonant (Query.ofInput raw)) :
    l.find Letters.nonConsonant (Query.ofInput raw) = .error fault ↔
      ∃ layer, (Query.ofInput raw).layer? = some layer ∧ l.get? layer = none ∧
        fault = .notReady layer := by
  rcases Query.ofInput_cases raw with hq | ⟨surah, verse, hq⟩ | ⟨layer, hq⟩
  · simp [hq, find, Query.layer?]
  · rw [hq, find]
    cases hc : l.require .letters with
    | error fault' =>
      obtain ⟨hnone, rfl⟩ := require_eq_error_iff.1 hc
      simp [Query.layer?, hnone, eq_comm]
    | ok c => simp [Query.layer?, require_eq_ok_iff.1 hc]
  · cases hc : l.get? layer with
    | none =>
      rw [hq, find, require_eq_error_iff.2 ⟨hc, rfl⟩]
      simp [Query.layer?, hc, eq_comm]
    | some c =>
      have hcompile : ∀ noPattern, Pattern.compile Letters.nonConsonant layer
          (String.ofList (layer.validate raw.toList)) ≠ .error noPattern := by
        intro noPattern hno
        rcases layer.exists_compile_validate raw.toList with ⟨p, hp⟩ | ⟨hlarge, _⟩
        · rw [hp] at hno
          cases hno
        · exact hsize ⟨layer, _, hq, hlarge⟩
      rw [hq] at htries
      rw [hq, find_content_eq_error_iff hc]
      simp [Query.layer?, hc, hcompile, htries]

end Library

/-! ## Searches -/

/-- A search fails as its query does, or because its page cannot be rendered. -/
theorem Service.search_eq_error_iff {s : Service} {raw : String} {page : Nat} {fault : Fault} :
    (s.search raw page).1 = .error fault ↔
      (s.results (Query.ofInput raw)).1 = .error fault ∨
        ∃ r, (s.results (Query.ofInput raw)).1 = .ok r ∧
          s.render (Query.ofInput raw) r page = .error fault := by
  simp only [search]
  split
  · rename_i h
    simp [h]
  · rename_i h
    simp [h]

/-- A page can be rendered if the pattern of what was found does not refer to groups. -/
theorem Service.exists_render_of_find {s : Service} {raw : String} {r : Results}
    (hr : s.find (Query.ofInput raw) = .ok r) (hrefers : ∀ p ∈ r.pattern, p.refers = false)
    (page : Nat) : ∃ shown, s.render (Query.ofInput raw) r page = .ok shown := by
  have hrows : ∀ row ∈ Page.rowsOn s.settings.perPage r page, ∃ view,
      VerseView.ofRow s.settings.markers r.pattern row = .ok view ∧ True := fun row hrow =>
    (Library.shows_of_find hr hrefers hrow).imp fun _ hview => ⟨hview.1, trivial⟩
  exact (Page.exists_render hrows).imp fun _ hshown => hshown.1

/-- No typed text makes a search fail but for want of a corpus. Whatever clients have done before,
with the usual wildcard the search for a text that is not too large, and that no verse is too much
for, fails exactly if the text is a query of a layer whose corpus is not installed. The fault names
that layer, and the service stays as it is. -/
theorem World.search_fails_iff (settings : Settings) (library : Library) (actions : List Action)
    (hwildcard : settings.wildcard = Letters.nonConsonant) (raw : String) (page : Nat)
    (hsize : ¬ (Query.ofInput raw).IsTooLarge Letters.nonConsonant)
    (htries : ¬ ((start settings library).run actions).service.library.GivesUp Letters.nonConsonant
      (Query.ofInput raw)) :
    let s := ((start settings library).run actions).service
    let q := Query.ofInput raw
    ((∃ fault, (s.search raw page).1 = .error fault) ↔
        q.isValid = true ∧ ∃ layer, q.layer? = some layer ∧ s.library.get? layer = none) ∧
      ∀ fault : Fault, (s.search raw page).1 = .error fault →
        (∃ layer, q.layer? = some layer ∧ s.library.get? layer = none ∧ fault = .notReady layer) ∧
        (s.search raw page).2 = s := by
  intro s q
  have hsound : ((start settings library).run actions).Sound :=
    (sound_start settings library).run actions
  have hsettings : s.settings.wildcard = Letters.nonConsonant := by
    rw [(growsTo_run (start settings library) actions).settings_eq]
    exact hwildcard
  -- what the table holds makes no difference
  have hresults : (s.results q).1 = s.find q := (hsound.entries.results q).1
  -- what is found can be rendered
  have hrendered : ∀ r, s.find q = .ok r → ∃ shown, s.render q r page = .ok shown := by
    intro r hr
    have hrefers : ∀ p ∈ r.pattern, p.refers = false :=
      Library.refers_of_find hr (by rw [hsettings]; decide)
    exact Service.exists_render_of_find hr hrefers page
  have hfailed : ∀ fault : Fault, (s.search raw page).1 = .error fault ↔
      (s.results q).1 = .error fault := by
    intro fault
    rw [Service.search_eq_error_iff, or_iff_left]
    rintro ⟨r, hr, hfault⟩
    obtain ⟨shown, hshown⟩ := hrendered r (hresults.symm.trans hr)
    rw [hshown] at hfault
    cases hfault
  have hfault : ∀ fault : Fault, (s.search raw page).1 = .error fault ↔
      ∃ layer, q.layer? = some layer ∧ s.library.get? layer = none ∧ fault = .notReady layer := by
    intro fault
    rw [hfailed, hresults, Service.find, hsettings]
    exact Library.find_ofInput_eq_error_iff hsize htries
  constructor
  · constructor
    · rintro ⟨fault, h⟩
      obtain ⟨layer, hlayer, hnone, _⟩ := (hfault fault).1 h
      refine ⟨?_, layer, hlayer, hnone⟩
      rw [Query.isValid_iff_layer?, hlayer]
      rfl
    · rintro ⟨_, layer, hlayer, hnone⟩
      exact ⟨.notReady layer, (hfault _).2 ⟨layer, hlayer, hnone, rfl⟩⟩
  · intro fault h
    refine ⟨(hfault fault).1 h, ?_⟩
    rw [Service.search_snd]
    exact Service.results_of_error ((hfailed fault).1 h)

/-- A service without corpora cannot answer a query of the letter layer. -/
theorem World.search_of_no_corpora :
    let s := ((start (.usual "data") { directory := "data" }).run []).service
    (∃ fault, (s.search "\u0642\u0644" 1).1 = .error fault) ∧
      ∀ fault : Fault, (s.search "\u0642\u0644" 1).1 = .error fault →
        (s.search "\u0642\u0644" 1).2 = s := by
  obtain ⟨hiff, hfault⟩ := search_fails_iff (.usual "data") { directory := "data" } [] rfl
    "\u0642\u0644" 1 (Query.not_isTooLarge_of_length_le (by decide)) (by
      rintro ⟨layer, _, _, _, _, hc, _⟩
      cases layer <;> cases hc)
  exact ⟨hiff.2 ⟨by decide, .letters, by decide, rfl⟩, fun fault h => (hfault fault h).2⟩

end VerseSearch
