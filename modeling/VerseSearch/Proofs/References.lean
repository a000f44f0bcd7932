import Mathlib.Data.List.Infix
import VerseSearch.Proofs.Answers
import VerseSearch.Proofs.Transparency
import VerseSearch.Proofs.TypedReferences

/-!
# References list the verses they name

A reference names verses by its two parts (`Verse.IsNamed`): the surah by its number or by a part of
its name, and the verse by its number or not at all. Looking a reference up lists exactly the verses
that it names, whatever has been searched before (`World.references_list_named`).
-/

set_option autoImplicit false

namespace VerseSearch

open Numeral (isNumeral decimal)

namespace Verse

/-- The verse is in the surah that the surah part names, by its number or a part of its name, and
its number is the verse part, if that is not empty. -/
def IsNamed (surah number : List Char) (v : Verse) : Prop :=
  ((isNumeral surah = true ∧ decimal surah = v.surahNumber.toNat) ∨
    (isNumeral surah = false ∧ surah <:+: v.surahName.toList)) ∧
  (number = [] ∨ (isNumeral number = true ∧ decimal number = v.number.toNat))

instance (surah number : List Char) (v : Verse) : Decidable (v.IsNamed surah number) :=
  inferInstanceAs (Decidable (_ ∧ _))

variable {v : Verse} {surah number : List Char}

theorem matchesSurah_iff : v.matchesSurah surah = true ↔
    (isNumeral surah = true ∧ decimal surah = v.surahNumber.toNat) ∨
      (isNumeral surah = false ∧ surah <:+: v.surahName.toList) := by
  rw [matchesSurah]
  cases hnumeral : isNumeral surah with
  | true =>
    rw [if_pos rfl, beq_iff_eq, Numeral.value?_eq_some_iff]
    simp [hnumeral]
  | false =>
    rw [if_neg Bool.false_ne_true, Text.occursIn_iff]
    simp [List.IsInfix, eq_comm]

theorem matchesNumber_iff :
    v.matchesNumber (if number.isEmpty then none else some number) = true ↔
      number = [] ∨ (isNumeral number = true ∧ decimal number = v.number.toNat) := by
  cases number with
  | nil => simp [matchesNumber]
  | cons c r => simp [matchesNumber, Numeral.value?_eq_some_iff]

/-- The reference to two parts matches the verses they name. -/
theorem matchesReference_iff :
    v.matchesReference (String.ofList surah)
        (if number.isEmpty then none else some (String.ofList number)) = true ↔
      v.IsNamed surah number := by
  have hnumber : (if number.isEmpty then none else some (String.ofList number)).map String.toList =
      if number.isEmpty then none else some number := by
    split <;> simp
  rw [matchesReference, hnumber, String.toList_ofList, Bool.and_eq_true, matchesSurah_iff,
    matchesNumber_iff, IsNamed]

/-- Two numerals name the verses with these numbers. -/
theorem isNamed_numerals (hsurah : isNumeral surah = true) (hnumber : isNumeral number = true) :
    v.IsNamed surah number ↔
      decimal surah = v.surahNumber.toNat ∧ decimal number = v.number.toNat := by
  have hne : number ≠ [] := (Query.nonempty_of_isNumeral hnumber).1
  simp [IsNamed, hsurah, hnumber, hne]

/-- A name and a numeral name the verses of that number in the surahs whose names hold the name. -/
theorem isNamed_name (hsurah : isNumeral surah = false) (hnumber : isNumeral number = true) :
    v.IsNamed surah number ↔
      surah <:+: v.surahName.toList ∧ decimal number = v.number.toNat := by
  have hne : number ≠ [] := (Query.nonempty_of_isNumeral hnumber).1
  simp [IsNamed, hsurah, hnumber, hne]

/-- A number that no verse can have names nothing, and neither does a verse part that is no
number. -/
theorem not_isNamed
    (h : (isNumeral surah = true ∧ UInt32.size ≤ decimal surah) ∨
      (number ≠ [] ∧ (isNumeral number = false ∨ UInt32.size ≤ decimal number))) :
    ¬ v.IsNamed surah number := by
  rintro ⟨hsurah, hnumber⟩
  have hlt := v.surahNumber.toNat_lt
  have hlt' := v.number.toNat_lt
  rcases h with ⟨hnumeral, hlarge⟩ | ⟨hne, hbad⟩
  · rcases hsurah with ⟨_, hvalue⟩ | ⟨hname, _⟩
    · exact absurd hlarge (Nat.not_le.2 (hvalue ▸ hlt))
    · exact absurd (hname.symm.trans hnumeral) Bool.false_ne_true
  · obtain ⟨hnumeral, hvalue⟩ := hnumber.resolve_left hne
    rcases hbad with hname | hlarge
    · exact absurd (hname.symm.trans hnumeral) Bool.false_ne_true
    · exact absurd hlarge (Nat.not_le.2 (hvalue ▸ hlt'))

end Verse

/-- The query is answered with the verses of the corpus that have the property, in the order of the
corpus. Nothing is counted or emphasized. -/
def Service.Lists (s : Service) (q : Query) (c : Corpus) (p : Verse → Prop) [DecidablePred p] :
    Prop :=
  ∃ r, (s.results q).1 = .ok r ∧ r.corpus = some c ∧
    r.rows = (c.verses.filter fun v => decide (p v)).map (fun v => ⟨v, 0⟩) ∧
    r.total = none ∧ r.pattern = none

/-- The rows of a reference are its verses, with nothing counted. -/
theorem rows_referenceResults (c : Corpus) (surah : String) (number : Option String) :
    (referenceResults c surah number).rows =
      (c.verses.filter fun v => v.matchesReference surah number).map (fun v => ⟨v, 0⟩) := by
  have hrows := Results.rows_eq_filterMap (r := referenceResults c surah number) (c := c)
    (f := fun v => if v.matchesReference surah number then some 0 else none) rfl rfl
  rw [hrows]
  induction c.verses with
  | nil => rfl
  | cons v verses ih =>
    by_cases hv : v.matchesReference surah number = true
    · rw [List.filterMap_cons_some (by rw [if_pos hv]; rfl), ih, List.filter_cons_of_pos hv,
        List.map_cons]
    · rw [List.filterMap_cons_none (by rw [if_neg hv]; rfl), ih, List.filter_cons_of_neg hv]

/-- A reference to two parts lists the verses they name. -/
theorem World.Sound.lists_referenceTo {w : World} (h : w.Sound) {c : Corpus}
    (hc : w.service.library.get? .letters = some c) (surah number : List Char) :
    w.service.Lists (Query.referenceTo surah number) c (Verse.IsNamed surah number) := by
  refine ⟨_, (h.entries.results _).1.trans (Library.find_reference_eq_ok_iff.2 ⟨c, hc, rfl⟩), rfl, ?_,
    rfl, rfl⟩
  rw [rows_referenceResults]
  refine congrArg (List.map _) (List.filter_congr fun v _ => ?_)
  exact Bool.eq_iff_iff.2 (Verse.matchesReference_iff.trans decide_eq_true_iff.symm)

/-- The same verses may be told by another property. -/
theorem Service.Lists.congr {s : Service} {q : Query} {c : Corpus} {p p' : Verse → Prop}
    [DecidablePred p] [DecidablePred p'] (h : s.Lists q c p) (hp : ∀ v, p v ↔ p' v) :
    s.Lists q c p' := by
  obtain ⟨r, hr, hc, hrows, hcounts⟩ := h
  refine ⟨r, hr, hc, hrows.trans ?_, hcounts⟩
  refine congrArg (List.map _) (List.filter_congr fun v _ => ?_)
  exact decide_eq_decide.2 (hp v)

/-- References list the verses they name. Whatever clients have done before, when the corpus of the
letter layer is installed:
a text of that layer with one colon, or with a numeral and no colon, has a surah part and a verse
part, and lists exactly the verses that the trimmed parts name, in the order of the corpus, and
counts and emphasizes nothing;
a number that is too large, and a verse part that is no number, name nothing;
two numerals with a colon between them, in digits of either row and with any blanks around them,
list the verses with these two numbers;
and what is shown as the reference of a verse, if the surah name is plain, lists the verses of that
number in the surahs whose names hold the name. -/
theorem World.references_list_named (settings : Settings) (library : Library)
    (actions : List Action) (c : Corpus) :
    let s := ((start settings library).run actions).service
    s.library.get? .letters = some c →
    (∀ raw : String, let value := Layer.validate .letters raw.toList
      Layer.ofInput? raw.toList = some .letters →
      value.count ':' = 1 ∨ (value.count ':' = 0 ∧ isNumeral (Text.trim value) = true) →
      ∃ surah number, Query.RefersTo value surah number ∧
        s.Lists (Query.ofInput raw) c (Verse.IsNamed (Text.trim surah) (Text.trim number))) ∧
    (∀ surah number : List Char,
      (isNumeral surah = true ∧ UInt32.size ≤ decimal surah) ∨
        (number ≠ [] ∧ (isNumeral number = false ∨ UInt32.size ≤ decimal number)) →
      ∀ v : Verse, ¬ v.IsNamed surah number) ∧
    (∀ v ∈ c.verses, ∀ before surah after before' number after' : List Char,
      (∀ d ∈ before ++ after ++ before' ++ after', Text.isBlank d = true) →
      isNumeral surah = true → decimal surah = v.surahNumber.toNat →
      isNumeral number = true → decimal number = v.number.toNat →
      s.Lists (Query.ofInput (String.ofList
          (before ++ (surah ++ (after ++ ':' :: (before' ++ (number ++ after')))))))
        c (fun w => w.surahNumber = v.surahNumber ∧ w.number = v.number)) ∧
    ∀ (row : Row) (emphasized : String), let v := row.verse
      v ∈ c.verses → Query.IsPlainName v.surahName.toList →
      s.Lists (Query.ofInput (VerseView.ofEmphasized row emphasized).reference) c
        (fun w => v.surahName.toList <:+: w.surahName.toList ∧ w.number = v.number) := by
  intro s hc
  have hsound : ((start settings library).run actions).Sound :=
    (sound_start settings library).run actions
  refine ⟨fun raw => ?_, fun _ _ h v => Verse.not_isNamed h, ?_, ?_⟩
  · intro value hlayer hparts
    obtain ⟨surah, number, hrefers⟩ := Query.exists_refersTo_iff.2 hparts
    refine ⟨surah, number, hrefers, ?_⟩
    rw [hrefers.ofInput hlayer]
    exact hsound.lists_referenceTo hc _ _
  · intro v _ before surah after before' number after' hblank hsurah hsnum hnumber hnum
    simp only [List.forall_mem_append] at hblank
    obtain ⟨⟨⟨hbefore, hafter⟩, hbefore'⟩, hafter'⟩ := hblank
    rw [Query.ofInput_of_numerals hbefore hafter hbefore' hafter' hsurah hnumber
      String.toList_ofList]
    refine (hsound.lists_referenceTo hc _ _).congr fun w => ?_
    rw [Verse.isNamed_numerals (by rwa [Numeral.isNumeral_toArabicIndic])
      (by rwa [Numeral.isNumeral_toArabicIndic]), Numeral.decimal_toArabicIndic,
      Numeral.decimal_toArabicIndic, hsnum, hnum, UInt32.toNat_inj, UInt32.toNat_inj]
    exact and_congr eq_comm eq_comm
  · intro row emphasized v _ hname
    rw [Query.ofInput_of_name hname v.number.toNat
      (by simp [VerseView.ofEmphasized, VerseView.shown, v])]
    refine (hsound.lists_referenceTo hc _ _).congr fun w => ?_
    rw [Verse.isNamed_name hname.isNumeral (Numeral.isNumeral_written _), Numeral.decimal_written,
      UInt32.toNat_inj]
    exact and_congr Iff.rfl eq_comm

/-- The second of two verses, by its numbers in digits of both rows and by what is shown as its
reference. -/
theorem World.references_to_second_of_two :
    let first : Verse := ⟨"", 1, 1, "\u0627\u0644\u0641\u0627\u062A\u062D\u0629"⟩
    let second : Verse := ⟨"", 2, 2, "\u0627\u0644\u0628\u0642\u0631\u0629"⟩
    let c : Corpus := ⟨.letters, [first, second]⟩
    let s := ((start (.usual "data") { directory := "data", letters := some c }).run []).service
    s.Lists (Query.ofInput (String.ofList
        ([' '] ++ (['2'] ++ ([' '] ++ ':' :: ([] ++ (['\u0660', '\u0662'] ++ [])))))))
      c (fun w => w.surahNumber = second.surahNumber ∧ w.number = second.number) ∧
    s.Lists (Query.ofInput (VerseView.ofEmphasized ⟨second, 0⟩ second.text).reference) c
      (fun w => second.surahName.toList <:+: w.surahName.toList ∧ w.number = second.number) := by
  intro first second c s
  obtain ⟨_, _, hnumerals, hname⟩ := references_list_named (.usual "data")
    { directory := "data", letters := some c } [] c rfl
  have hsecond : second ∈ c.verses := List.mem_cons_of_mem first List.mem_cons_self
  refine ⟨hnumerals second hsecond [' '] ['2'] [' '] [] ['\u0660', '\u0662'] []
    (List.all_eq_true.1 (by decide)) (by decide) (by decide) (by decide) (by decide), ?_⟩
  refine hname ⟨second, 0⟩ second.text hsecond ⟨?_, by decide,
    ⟨'\u0627', ['\u0644', '\u0628', '\u0642', '\u0631', '\u0629'], by decide, by decide⟩,
    by decide⟩
  have hrange : second.surahName.toList.all (fun d =>
      decide ('\u0621' ≤ d) && decide (d ≤ '\u0652')) = true := by decide
  intro d hd
  exact .inl (by simpa using List.all_eq_true.1 hrange d hd)

end VerseSearch
