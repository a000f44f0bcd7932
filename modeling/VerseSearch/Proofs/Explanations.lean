import VerseSearch.Proofs.Availability
import VerseSearch.Proofs.Complete
import VerseSearch.Proofs.SessionView
import VerseSearch.Web.Requests

/-!
# Explanations describe searches

A request for the pattern of a typed text compiles the text at once; a request for its search
results goes through the table of recent results and the library. Where the library is complete both
come to the same (`World.pattern_describes_search`): if there is no pattern both say so, and otherwise
the explanation names the pattern that is emphasized in the verses found. Only the search runs the
pattern, so it alone may be given up.
-/

set_option autoImplicit false

namespace VerseSearch

namespace Web

/-- The request is for the typed text. -/
def AsksFor (request : Option String) (raw : String) : Prop :=
  typedText? (pairs (request.getD "").toList) = some raw

instance (request : Option String) (raw : String) : Decidable (AsksFor request raw) :=
  inferInstanceAs (Decidable (_ = _))

/-- The request names a page that can be shown, or none. -/
def HasPage (request : Option String) : Prop :=
  (requestedPage? (pairs (request.getD "").toList)).isSome = true

instance (request : Option String) : Decidable (HasPage request) :=
  inferInstanceAs (Decidable (_ = _))

variable {s : Service} {request : Option String} {raw : String}

theorem pattern_of_asksFor (h : AsksFor request raw) :
    pattern s request = .ofExcept (explain s.settings.wildcard (Query.ofInput raw)) := by
  rw [pattern, h]

theorem search_of_asksFor (h : AsksFor request raw) (hpage : HasPage request) :
    ∃ page, search s request = (.ofExcept (s.search raw page).1, (s.search raw page).2) := by
  obtain ⟨page, hpage⟩ := Option.isSome_iff_exists.1 hpage
  exact ⟨page, by simp only [search, show typedText? _ = some raw from h, hpage]⟩

@[simp] theorem Reply.ofExcept_eq_failed_iff {α : Type} {found : Except Fault α} {fault : Fault} :
    Reply.ofExcept found = .failed fault ↔ found = .error fault := by
  cases found <;> simp [Reply.ofExcept]

@[simp] theorem Reply.ofExcept_eq_ok_iff {α : Type} {found : Except Fault α} {body : α} :
    Reply.ofExcept found = .ok body ↔ found = .ok body := by
  cases found <;> simp [Reply.ofExcept]

/-- An explanation is of the layer of its query, and names a pattern for a content query. -/
theorem explanation_of_explain {wildcard : String} {q : Query} {e : Explanation}
    (h : explain wildcard q = .ok e) : e.layer = q.layer? ∧
      (e.pattern = none ↔ q = .invalid ∨ ∃ surah number, q = .reference surah number) := by
  cases q with
  | invalid =>
    cases h
    exact ⟨rfl, by simp⟩
  | content layer keyword =>
    rw [explain] at h
    split at h <;> cases h
    exact ⟨rfl, by simp⟩
  | reference surah number =>
    cases h
    exact ⟨rfl, by simp⟩

/-- A query cannot be explained only for want of a pattern. -/
theorem explain_eq_error_iff {wildcard : String} {q : Query} {fault : Fault} :
    explain wildcard q = .error fault ↔ ∃ layer keyword noPattern, q = .content layer keyword ∧
      Pattern.compile wildcard layer keyword = .error noPattern ∧ fault = .pattern noPattern := by
  cases q with
  | invalid => simp [explain]
  | content layer keyword =>
    cases hp : Pattern.compile wildcard layer keyword with
    | error noPattern => simp [explain, hp, eq_comm]
    | ok p => simp [explain, hp]
  | reference surah number => simp [explain]

/-- What is found by a query is found by the pattern that the query is explained with. -/
theorem pattern_of_explain {l : Library} {wildcard : String} {q : Query} {r : Results}
    {e : Explanation} (h : l.find wildcard q = .ok r) (he : explain wildcard q = .ok e) :
    e.pattern = r.pattern.map Pattern.source := by
  cases q with
  | invalid =>
    cases h
    cases he
    rfl
  | content layer keyword =>
    obtain ⟨c, p, _, hp, _, rfl⟩ := Library.find_content_eq_ok_iff.1 h
    rw [explain, hp] at he
    cases he
    rfl
  | reference surah number =>
    obtain ⟨c, _, rfl⟩ := Library.find_reference_eq_ok_iff.1 h
    cases he
    rfl

end Web

/-- A page is of the layer of its query. -/
theorem Page.layer_render {markers : Markers} {perPage requested : Nat} {q : Query} {r : Results}
    {page : Page} (h : render markers perPage q r requested = .ok page) : page.layer = q.layer? := by
  cases hq : q.isValid with
  | true =>
    obtain ⟨views, _, rfl⟩ := (render_eq_ok_iff hq).1 h
    rfl
  | false =>
    obtain rfl : q = .invalid := by simpa [Query.isValid] using hq
    cases h
    rfl

/-- Where the library is complete, the explanation of a typed text describes the search for it.
Whatever clients have done before, and whatever the wildcard is, a request for the explanation fails
only if the search fails, with the same fault. If it does not, it names the layer, and a pattern
except for references and invalid texts; and the search is answered with a page of the layer, on which
the pattern is emphasized, unless it is given up: because a verse of the corpus is too much for the
pattern, or because the pattern refers to groups and a verse found is too much for its second
expression. -/
theorem World.pattern_describes_search (settings : Settings) (library : Library)
    (actions : List Action)
    (hcomplete : ((start settings library).run actions).service.library.IsComplete)
    (raw : String) (asked searched : Option String) (hasked : Web.AsksFor asked raw)
    (hsearched : Web.AsksFor searched raw) (hpage : Web.HasPage searched) :
    let s := ((start settings library).run actions).service
    let q := Query.ofInput raw
    (∃ fault : Fault,
      Web.pattern s asked = .failed fault ∧ (Web.search s searched).1 = .failed fault) ∨
    ∃ e : Web.Explanation, Web.pattern s asked = .ok e ∧ e.layer = q.layer? ∧
      (e.pattern = none ↔ q = .invalid ∨ ∃ surah number, q = .reference surah number) ∧
      ((∃ (page : Page) (r : Results), (Web.search s searched).1 = .ok page ∧
          (s.results q).1 = .ok r ∧ e.layer = page.layer ∧
          e.pattern = r.pattern.map Pattern.source) ∨
        ((Web.search s searched).1 = .failed .givenUp ∧
          (s.library.GivesUp s.settings.wildcard q ∨
            ∃ r, (s.results q).1 = .ok r ∧ ∃ p ∈ r.pattern, p.refers = true))) := by
  intro s q
  have hsound : ((start settings library).run actions).Sound :=
    (sound_start settings library).run actions
  have hresults : (s.results q).1 = s.find q := (hsound.entries.results q).1
  obtain ⟨page, hsearch⟩ := Web.search_of_asksFor (s := s) hsearched hpage
  rw [Web.pattern_of_asksFor hasked, hsearch]
  cases hexplained : Web.explain s.settings.wildcard q with
  | error fault =>
    left
    have hfind : s.find q = .error fault :=
      hcomplete.find_eq_error_iff.2 (.inl (Web.explain_eq_error_iff.1 hexplained))
    refine ⟨fault, rfl, Web.Reply.ofExcept_eq_failed_iff.2 ?_⟩
    exact Service.search_eq_error_iff.2 (.inl (hresults.trans hfind))
  | ok e =>
    right
    obtain ⟨hlayer, hnone⟩ := Web.explanation_of_explain hexplained
    refine ⟨e, rfl, hlayer, hnone, ?_⟩
    cases hfind : s.find q with
    | error fault =>
      -- there is a pattern, so it is given up
      rcases hcomplete.find_eq_error_iff.1 hfind with hno | ⟨rfl, hgiven⟩
      · rw [Web.explain_eq_error_iff.2 hno] at hexplained
        cases hexplained
      · refine .inr ⟨Web.Reply.ofExcept_eq_failed_iff.2 ?_, .inl hgiven⟩
        exact Service.search_eq_error_iff.2 (.inl (hresults.trans hfind))
    | ok r =>
      have hfound := hsound.entries.search hfind page
      cases hrendered : s.render q r page with
      | error fault =>
        obtain ⟨rfl, _⟩ := Page.exists_row_of_render_eq_error hrendered
        refine .inr ⟨Web.Reply.ofExcept_eq_failed_iff.2 (hfound.trans hrendered), .inr ?_⟩
        refine ⟨r, hresults.trans hfind, Classical.byContradiction fun hno => ?_⟩
        have hrefers : ∀ p ∈ r.pattern, p.refers = false := fun p hp =>
          Bool.eq_false_iff.2 fun htrue => hno ⟨p, hp, htrue⟩
        obtain ⟨shown, hshown⟩ := Service.exists_render_of_find hfind hrefers page
        rw [hshown] at hrendered
        cases hrendered
      | ok shown =>
        exact .inl ⟨shown, r, Web.Reply.ofExcept_eq_ok_iff.2 (hfound.trans hrendered),
          hresults.trans hfind, hlayer.trans (Page.layer_render hrendered).symm,
          Web.pattern_of_explain hfind hexplained⟩

/-- The letters of a verse, asked for after a search for them, with a wildcard of one's own: the
explanation names the pattern that the kept results are emphasized with. -/
theorem World.qul_explained_after_search :
    let verse : Verse :=
      ⟨"\u0642\u064F\u0644\u0652", 1, 112, "\u0627\u0644\u0625\u062E\u0644\u0627\u0635"⟩
    let library : Library :=
      { directory := "data", letters := some ⟨.letters, [verse]⟩, marks := some ⟨.marks, [verse]⟩ }
    let settings : Settings := { dataDirectory := "data", wildcard := ".?" }
    let s := ((start settings library).run [.search "\u0642\u0644" 1]).service
    let source := "\u0642.?\u0644.?"
    Web.pattern s (some "q=%D9%82%D9%84") = .ok ⟨some .letters, "\u0642\u0644", some source⟩ ∧
      ∃ (page : Page) (r : Results),
        (Web.search s (some "page=2&q=%D9%82%D9%84")).1 = .ok page ∧
        (s.results (Query.ofInput "\u0642\u0644")).1 = .ok r ∧ page.layer = some .letters ∧
        r.pattern.map Pattern.source = some source := by
  intro verse library settings s source
  have hgrows := growsTo_run (start settings library) [.search "\u0642\u0644" 1]
  have hcomplete : s.library.IsComplete :=
    Library.IsComplete.of_growsTo (l := library) (fun layer => by cases layer <;> rfl) hgrows.library
  have hsettings : s.settings = settings := hgrows.settings_eq
  have hexplained : Web.pattern s (some "q=%D9%82%D9%84") =
      .ok ⟨some .letters, "\u0642\u0644", some source⟩ := by
    have hasks : Web.AsksFor (some "q=%D9%82%D9%84") "\u0642\u0644" := by decide
    rw [Web.pattern_of_asksFor hasks, Web.Reply.ofExcept_eq_ok_iff, hsettings]
    decide
  -- the pattern is regular, so it is not given up
  have hgiven : ¬ s.library.GivesUp s.settings.wildcard (Query.ofInput "\u0642\u0644") := by
    rw [hsettings]
    rintro ⟨layer, keyword, c, p, hq, _, hp, v, _, hv⟩
    have hcontent : Query.ofInput "\u0642\u0644" = .content .letters "\u0642\u0644" := by decide
    cases hq.symm.trans hcontent
    have hsource : Letters.source ".?".toList "\u0642\u0644".toList = source.toList := by decide
    rw [Pattern.compile, Pattern.ofLetters, hsource] at hp
    rw [Pattern.givesUp_of_build hp (by decide)] at hv
    cases hv
  rcases pattern_describes_search settings library [.search "\u0642\u0644" 1] hcomplete
      "\u0642\u0644" (some "q=%D9%82%D9%84") (some "page=2&q=%D9%82%D9%84") (by decide) (by decide)
      (by decide) with
    ⟨fault, hfault, _⟩ | ⟨e, he, hlayer, _, ⟨page, r, hpage, hr, hpages, hpattern⟩ | ⟨_, hgaveUp⟩⟩
  · cases hexplained.symm.trans hfault
  · cases hexplained.symm.trans he
    exact ⟨hexplained, page, r, hpage, hr, hpages.symm, hpattern.symm⟩
  · rcases hgaveUp with hgaveUp | ⟨r, hr, p, hp, hrefers⟩
    · exact absurd hgaveUp hgiven
    · have hsound := (sound_start settings library).run [.search "\u0642\u0644" 1]
      have hno := Library.refers_of_find ((hsound.entries.results _).1.symm.trans hr)
        (by rw [hsettings]; decide) p hp
      rw [hno] at hrefers
      cases hrefers

/-- A yeh with 20 fathas is explained, and the search for it is given up at a tatweel with 19. -/
theorem World.fathas_explained_and_given_up :
    let raw := String.ofList (Letters.yehFathas 20)
    let verse : Verse := ⟨String.ofList (Letters.tatweelFathas 19), 1, 1, "\u0633"⟩
    let library : Library :=
      { directory := "data", letters := some ⟨.letters, [verse]⟩, marks := some ⟨.marks, []⟩ }
    let s := ((start (.usual "data") library).run []).service
    let request := some (String.ofList ("q=%D9%8A".toList ++
      (List.replicate 20 "%D9%8E".toList).flatten))
    s.library.IsComplete ∧ Web.AsksFor request raw ∧ Web.HasPage request ∧
      (∃ e, Web.pattern s request = .ok e) ∧ (Web.search s request).1 = .failed .givenUp := by
  intro raw verse library s request
  have hraw : raw.toList = Letters.yehFathas 20 := String.toList_ofList
  have hverse : verse.text.toList = Letters.tatweelFathas 19 := String.toList_ofList
  have hcomplete : s.library.IsComplete := fun layer => by cases layer <;> rfl
  have hasks : Web.AsksFor request raw := by decide +kernel
  have hpage : Web.HasPage request := by decide +kernel
  have hq : Query.ofInput raw = .content .letters raw := by decide +kernel
  have hp : Pattern.compile s.settings.wildcard .letters raw = .ok (Letters.pattern raw) :=
    Letters.ofLetters_yehFathas hraw
  have hgiven : s.library.GivesUp s.settings.wildcard (Query.ofInput raw) :=
    ⟨.letters, raw, ⟨.letters, [verse]⟩, _, hq, rfl, hp, verse, List.mem_cons_self,
      Letters.givesUp_fathas hraw hverse (Nat.le_refl 19) (by decide)⟩
  have hfind : s.find (Query.ofInput raw) = .error .givenUp :=
    hcomplete.find_eq_error_iff.2 (.inr ⟨rfl, hgiven⟩)
  have hsound : ((start (.usual "data") library).run []).Sound := sound_start (.usual "data") library
  refine ⟨hcomplete, hasks, hpage, ?_, ?_⟩
  · refine ⟨⟨some .letters, raw, some (Letters.pattern raw).source⟩, ?_⟩
    rw [Web.pattern_of_asksFor hasks, hq, Web.explain, hp]
    rfl
  · obtain ⟨page, hsearch⟩ := Web.search_of_asksFor (s := s) hasks hpage
    rw [hsearch, Web.Reply.ofExcept_eq_failed_iff, Service.search_eq_error_iff]
    exact .inl ((hsound.entries.results _).1.trans hfind)

end VerseSearch
