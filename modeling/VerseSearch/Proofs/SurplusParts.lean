import VerseSearch.Proofs.References

/-!
# References with more than one colon

A reference is a surah part and a verse part with a colon between them. If there is a second colon,
the verse part ends there and what follows is dropped (`Query.HasSurplus.ofInput`). So a text with
two colons is looked up as if it ended at the second one, though all that is behind the first colon
together is no number and names no verse (`Query.not_isNamed_behind_colon`). It lists no verse only
if the two parts that are kept name none (`World.references_drop_surplus`).
-/

set_option autoImplicit false

namespace VerseSearch

open Numeral (isNumeral)

/-! ## Trimming -/

/-- Trimming keeps what is not blank. -/
theorem Text.mem_trimStart {c : Char} {s : List Char} (hc : isBlank c = false) (h : c ∈ s) :
    c ∈ trimStart s := by
  rw [← takeWhile_append_trimStart s] at h
  refine (List.mem_append.1 h).resolve_left fun hmem => ?_
  rw [List.mem_takeWhile_imp hmem] at hc
  cases hc

theorem Text.mem_trim {c : Char} {s : List Char} (hc : isBlank c = false) (h : c ∈ s) :
    c ∈ trim s := by
  have hend := mem_trimStart hc (List.mem_reverse.2 (mem_trimStart hc h))
  exact List.mem_reverse.2 hend

namespace Query

/-- The validated text has two colons or more: a surah part before the first one, a verse part
before the second one, and a rest. -/
structure HasSurplus (value surah number rest : List Char) : Prop where
  value_eq : value = surah ++ ':' :: (number ++ ':' :: rest)
  colon_not_mem_surah : ':' ∉ surah
  colon_not_mem_number : ':' ∉ number

variable {raw : String} {value surah number rest : List Char}

theorem exists_hasSurplus_iff :
    (∃ surah number rest, HasSurplus value surah number rest) ↔ 2 ≤ value.count ':' := by
  constructor
  · rintro ⟨surah, number, rest, rfl, -, -⟩
    simp only [List.count_append, List.count_cons_self]
    omega
  · intro h
    obtain ⟨surah, behind, rfl, hsurah⟩ :=
      List.eq_append_cons_of_mem (List.count_pos_iff.1 (Nat.lt_of_lt_of_le Nat.two_pos h))
    rw [List.count_append, List.count_cons_self, List.count_eq_zero.2 hsurah] at h
    have hbehind : 0 < behind.count ':' := by omega
    obtain ⟨number, rest, rfl, hnumber⟩ :=
      List.eq_append_cons_of_mem (List.count_pos_iff.1 hbehind)
    exact ⟨surah, number, rest, rfl, hsurah, hnumber⟩

namespace HasSurplus

/-- The rest is dropped. -/
theorem ofReference (h : HasSurplus value surah number rest) :
    ofReference value = referenceTo (Text.trim surah) (Text.trim number) := by
  obtain ⟨rfl, hsurah, hnumber⟩ := h
  rw [Query.ofReference, takeWhile_append_colon hsurah, dropWhile_append_colon hsurah,
    List.tail_cons, takeWhile_append_colon hnumber]
  rfl

/-- A text of the letter layer with two colons is read as the reference to its first two parts. -/
theorem ofInput (h : HasSurplus (Layer.validate .letters raw.toList) surah number rest)
    (hlayer : Layer.ofInput? raw.toList = some .letters) :
    ofInput raw = referenceTo (Text.trim surah) (Text.trim number) := by
  have hreference : isReference (Layer.validate .letters raw.toList) = true := by
    rw [h.value_eq]
    simp [isReference]
  rw [Query.ofInput, hlayer]
  exact (if_pos ⟨rfl, hreference⟩).trans h.ofReference

end HasSurplus

/-- All that is behind the first colon is no number, so as a verse part it names nothing. -/
theorem not_isNamed_behind_colon (number rest surah : List Char) (v : Verse) :
    ¬ v.IsNamed surah (Text.trim (number ++ ':' :: rest)) := by
  have hcolon : ':' ∈ Text.trim (number ++ ':' :: rest) :=
    Text.mem_trim (by decide) (List.mem_append_right _ List.mem_cons_self)
  have hname : isNumeral (Text.trim (number ++ ':' :: rest)) = false := by
    refine Bool.eq_false_iff.2 fun hnumeral => ?_
    exact absurd ((nonempty_of_isNumeral hnumeral).2 ':' hcolon) (by decide)
  exact Verse.not_isNamed (.inr ⟨List.ne_nil_of_mem hcolon, .inl hname⟩)

end Query

/-- A query that lists the verses with a property lists none exactly if none has it. -/
theorem Service.Lists.none_iff {s : Service} {q : Query} {c : Corpus} {p : Verse → Prop}
    [DecidablePred p] (h : s.Lists q c p) :
    s.Lists q c (fun _ => False) ↔ ∀ v ∈ c.verses, ¬ p v := by
  obtain ⟨r, hr, hc, hrows, hcounts⟩ := h
  have hnone : (c.verses.filter fun _ => decide False).map (fun v => (⟨v, 0⟩ : Row)) = [] := by
    simp
  constructor
  · rintro ⟨r', hr', -, hrows', -⟩
    cases hr.symm.trans hr'
    rw [hnone, hrows, List.map_eq_nil_iff, List.filter_eq_nil_iff] at hrows'
    simpa using hrows'
  · intro hnot
    refine ⟨r, hr, hc, ?_, hcounts⟩
    have hfilter : (c.verses.filter fun v => decide (p v)) = [] := by
      simpa [List.filter_eq_nil_iff] using hnot
    rw [hrows, hnone, hfilter, List.map_nil]

/-- What a text with two colons or more lists. Whatever clients have done before, when the corpus of
the letter layer is installed, such a text of that layer has a surah part, a verse part and a rest.
The surah part with all that is behind the first colon names no verse. But the text lists exactly
the verses that the trimmed surah part and verse part name, whatever the rest is. So it lists no
verse exactly if these two parts name none of the corpus. -/
theorem World.references_drop_surplus (settings : Settings) (library : Library)
    (actions : List Action) (c : Corpus) :
    let s := ((start settings library).run actions).service
    s.library.get? .letters = some c →
    ∀ raw : String, let value := Layer.validate .letters raw.toList
      Layer.ofInput? raw.toList = some .letters →
      ((∃ surah number rest, Query.HasSurplus value surah number rest) ↔ 2 ≤ value.count ':') ∧
      ∀ surah number rest, Query.HasSurplus value surah number rest →
        (∀ v : Verse, ¬ v.IsNamed (Text.trim surah) (Text.trim (number ++ ':' :: rest))) ∧
        s.Lists (Query.ofInput raw) c (Verse.IsNamed (Text.trim surah) (Text.trim number)) ∧
        (s.Lists (Query.ofInput raw) c (fun _ => False) ↔
          ∀ v ∈ c.verses, ¬ v.IsNamed (Text.trim surah) (Text.trim number)) := by
  intro s hc raw value hlayer
  refine ⟨Query.exists_hasSurplus_iff, fun surah number rest hsurplus => ?_⟩
  have hsound : ((start settings library).run actions).Sound :=
    (sound_start settings library).run actions
  have hlists : s.Lists (Query.ofInput raw) c
      (Verse.IsNamed (Text.trim surah) (Text.trim number)) := by
    rw [hsurplus.ofInput hlayer]
    exact hsound.lists_referenceTo hc _ _
  exact ⟨Query.not_isNamed_behind_colon number rest _, hlists, hlists.none_iff⟩

/-- A verse that two numbers name, and the same numbers with a third one behind them. -/
theorem World.references_drop_third_number :
    let v : Verse := ⟨"", 255, 2, "\u0627\u0644\u0628\u0642\u0631\u0629"⟩
    let c : Corpus := ⟨.letters, [v]⟩
    let s := ((start (.usual "data") { directory := "data", letters := some c }).run []).service
    s.Lists (Query.ofInput "2:255:7") c (Verse.IsNamed ['\u0662'] ['\u0662', '\u0665', '\u0665']) ∧
      s.Lists (Query.ofInput "2:254:7") c (fun _ => False) := by
  intro v c s
  have hfirst : Query.HasSurplus (Layer.validate .letters "2:255:7".toList) ['\u0662']
      ['\u0662', '\u0665', '\u0665'] ['\u0667'] := ⟨by decide, by decide, by decide⟩
  have hsecond : Query.HasSurplus (Layer.validate .letters "2:254:7".toList) ['\u0662']
      ['\u0662', '\u0665', '\u0664'] ['\u0667'] := ⟨by decide, by decide, by decide⟩
  have hdrop := references_drop_surplus (.usual "data")
    { directory := "data", letters := some c } [] c rfl
  obtain ⟨-, hlists, -⟩ := (hdrop "2:255:7" (by decide)).2 _ _ _ hfirst
  obtain ⟨-, -, hnone⟩ := (hdrop "2:254:7" (by decide)).2 _ _ _ hsecond
  exact ⟨hlists, hnone.2 (by decide)⟩

/-- Two, 255 and seven, with colons between them, list the verse 255 of the second surah. -/
theorem World.not_lists_none_for_third_number :
    let v : Verse := ⟨"", 255, 2, "\u0627\u0644\u0628\u0642\u0631\u0629"⟩
    let c : Corpus := ⟨.letters, [v]⟩
    let s := ((start (.usual "data") { directory := "data", letters := some c }).run []).service
    s.library.get? .letters = some c ∧ Layer.ofInput? "2:255:7".toList = some .letters ∧
      2 ≤ (Layer.validate .letters "2:255:7".toList).count ':' ∧
      ∃ r, (s.results (Query.ofInput "2:255:7")).1 = .ok r ∧ r.rows = [⟨v, 0⟩] := by
  intro v c s
  have hsurplus : Query.HasSurplus (Layer.validate .letters "2:255:7".toList) ['\u0662']
      ['\u0662', '\u0665', '\u0665'] ['\u0667'] := ⟨by decide, by decide, by decide⟩
  have hsound : ((start (.usual "data") { directory := "data", letters := some c }).run []).Sound :=
    (sound_start _ _).run []
  obtain ⟨r, hr, -, hrows, -⟩ := hsound.lists_referenceTo (c := c) rfl
    (Text.trim ['\u0662']) (Text.trim ['\u0662', '\u0665', '\u0665'])
  rw [← hsurplus.ofInput (by decide)] at hr
  exact ⟨rfl, by decide, by decide, r, hr, hrows.trans (by decide)⟩

end VerseSearch
