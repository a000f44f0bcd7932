import VerseSearch.Proofs.HamzaSeats

/-!
# Question marks in letter queries

Cleaning removes the characters that an expression has as signs, so that what is left of a query
stands for itself. It leaves the question mark. Every other character of a cleaned query that is no
family is read as an item of its own, wherever it stands. A question mark always follows a wildcard
or nothing, where there is no item that it could repeat, so a query with one is refused whatever
else it has (`read_source_of_questionMark`).
-/

set_option autoImplicit false

namespace VerseSearch.Letters

open ReadState (settled)

variable {c : Char} {q : List Char} {ts : List Token}

/-! ## What cleaning keeps -/

theorem mem_foldInner (hc : c ≠ ' ') (h : c ∈ q) : c ∈ foldInner q := by
  fun_induction foldInner q with
  | case1 r ih =>
    simp only [List.mem_cons] at h ⊢
    tauto
  | case2 r ih =>
    simp only [List.mem_cons] at h ⊢
    tauto
  | case3 d r _ _ ih =>
    rcases List.mem_cons.1 h with rfl | h
    · exact List.mem_cons_self
    · exact List.mem_cons_of_mem d (ih h)
  | case4 => cases h

theorem mem_foldLeading (hc : c ≠ ' ') (h : c ∈ q) : c ∈ foldLeading q := by
  fun_cases foldLeading q with
  | case1 r =>
    simp only [List.mem_cons] at h ⊢
    tauto
  | case2 r =>
    simp only [List.mem_cons] at h ⊢
    tauto
  | case3 => exact h

/-- Only signs and spaces are lost. -/
theorem mem_clean (hsign : c ∉ signs) (hspace : c ≠ ' ') (h : c ∈ q) : c ∈ clean q :=
  mem_foldLeading hspace <| mem_foldInner hspace <|
    (perm_reorderMarks _).mem_iff.2 (mem_stripSigns.2 ⟨h, hsign⟩)

/-- A question mark is searched for as a letter. -/
theorem questionMark_mem_tokens (h : '?' ∈ q) : Token.letter '?' ∈ tokens (clean q) := by
  have hclean : '?' ∈ (clean q).map unseat :=
    List.mem_map.2 ⟨'?', mem_clean (by decide) (by decide) h, by decide⟩
  rw [← flatMap_letters_tokens, List.mem_flatMap] at hclean
  obtain ⟨t, ht, hmem⟩ := hclean
  cases t with
  | letter c =>
    rw [List.mem_singleton.1 hmem]
    exact ht
  | family f => cases f <;> exact absurd hmem (by decide)

/-! ## Places of plain letters -/

/-- The items of tokens, each with the wildcard behind it. -/
def itemsOf (ts : List Token) : List Regex := ts.flatMap fun t => t.items ++ [wildcard]

/-- The text of tokens, each with the wildcard behind it. -/
def textOf (ts : List Token) : List Char := emit nonConsonant.toList (segments ts)

/-- A letter that was found to be plain is one item of the expression. -/
theorem expression_append_letter (before after : List Token) (c : Char) :
    expression (before ++ .letter c :: after) =
      .concat (itemsOf before ++ .letter c :: wildcard :: itemsOf after) := by
  simp [expression, itemsOf, Token.items]

theorem textOf_append_letter (before after : List Token) (c : Char) :
    textOf (before ++ .letter c :: after) =
      textOf before ++ c :: (nonConsonant.toList ++ textOf after) := by
  simp [textOf, emit_eq_flatMap, Token.source]

/-! ## Reading a question mark -/

theorem run_nonConsonant (b : Branches) (around : List (Branches × Opener)) (n : Nat) :
    (settled b around n).run nonConsonant.toList = .ok ⟨b, around, .lazy wildcard, n⟩ := rfl

/-- Behind tokens that can be read there is a wildcard, or nothing. -/
theorem exists_run_textOf (h : ∀ c, .letter c ∈ ts → isLiteral c = true) :
    ∃ st : ReadState, ReadState.start.run (textOf ts) = .ok st ∧
      (st.tail = .settled ∨ st.tail = .lazy wildcard) := by
  obtain rfl | ⟨ts, t, rfl⟩ := List.eq_nil_or_concat ts
  · exact ⟨.start, rfl, .inl rfl⟩
  simp only [List.concat_eq_append, List.mem_append, List.mem_singleton] at h
  have hreads : Reads 2 0 (emit nonConsonant.toList (segments ts)) (itemsOf ts) 0 :=
    (reads_emit (fun c hc => h c (.inl hc)) 0).1
  obtain ⟨htoken, hstarts⟩ := Token.reads_source (fun c hc => h c (.inr hc.symm)) 0
  obtain ⟨st, hrun, hready, hst⟩ := hreads.append htoken hstarts .start [] (by decide)
  have htext : textOf (ts.concat t) =
      emit nonConsonant.toList (segments ts) ++ t.source ++ nonConsonant.toList := by
    simp [textOf, emit_eq_flatMap]
  have hwild : StartsItem nonConsonant.toList := startsItem_cons (by decide) _
  have hend := run_nonConsonant (Branches.start.addItems (itemsOf ts ++ t.items)) [] 0
  rw [← hst, ← ReadState.run_of_isReady hready hwild (by decide),
    ← ReadState.run_append_of_ok hrun, ← htext] at hend
  exact ⟨_, hend, .inr rfl⟩

/-- There is nothing to repeat then. -/
theorem step_questionMark {st : ReadState}
    (h : st.tail = .settled ∨ st.tail = .lazy wildcard) :
    st.step '?' = .error .nothingToRepeat := by
  obtain ⟨b, around, tail, n⟩ := st
  rcases h with rfl | rfl <;> rfl

/-- The text of a query with a question mark cannot be read. -/
theorem read_source_of_questionMark (h : '?' ∈ q) :
    Regex.read (source nonConsonant.toList q) = .error .nothingToRepeat := by
  -- what is before the first question mark can be read
  obtain ⟨before, after, htokens, hfirst⟩ :=
    List.eq_append_cons_of_mem (questionMark_mem_tokens h)
  have hletter : ∀ c, .letter c ∈ before → isLiteral c = true := by
    intro c hc
    have hmem : Token.letter c ∈ tokens (clean q) := htokens ▸ List.mem_append_left _ hc
    have hsign : c ∉ signs := (mem_of_mem_clean (mem_of_letter_mem_tokens hmem)).2
    refine isLiteral_of_not_mem_signs hsign ?_
    rintro rfl
    exact hfirst hc
  obtain ⟨st, hrun, htail⟩ := exists_run_textOf hletter
  have htext : source nonConsonant.toList q =
      textOf before ++ '?' :: (nonConsonant.toList ++ textOf after) := by
    rw [← textOf_append_letter, ← htokens]
    rfl
  rw [htext, Regex.read, ReadState.run_append_of_ok hrun, ReadState.run, step_questionMark htail]

theorem ofLetters_of_questionMark {keyword : String} (h : '?' ∈ keyword.toList) :
    Pattern.ofLetters nonConsonant keyword = .error .nothingToRepeat := by
  have hne : tokens (clean keyword.toList) ≠ [] :=
    List.ne_nil_of_mem (questionMark_mem_tokens h)
  rw [Pattern.ofLetters, Pattern.build, if_neg (source_ne_nil hne), read_source_of_questionMark h]

/-! ## All queries -/

theorem source_eq_nil_iff : source nonConsonant.toList q = [] ↔ tokens (clean q) = [] := by
  refine ⟨fun h => by_contra fun hne => source_ne_nil hne h, fun h => ?_⟩
  rw [source, h]
  rfl

/-- The pattern of a query with tokens is that of its tokens. -/
theorem eq_pattern_of_ofLetters {keyword : String} {p : Pattern}
    (hp : Pattern.ofLetters nonConsonant keyword = .ok p)
    (hne : tokens (clean keyword.toList) ≠ []) : p = pattern keyword := by
  have hmark : '?' ∉ keyword.toList := by
    intro hmark
    rw [ofLetters_of_questionMark hmark] at hp
    cases hp
  rcases ofLetters_eq_pattern_or hmark hne with h | ⟨h, -⟩ <;> rw [h] at hp <;> cases hp
  rfl

/-- Which letter queries are compiled, typed or not, and to what. Exactly those with a question mark
cannot be read; of the others only some of more than 3000 characters are refused, for their size.
In the pattern of a query every token that is no family stands for itself: its character follows the
text of the tokens before it, and is read as an item that is this character. -/
theorem compiles_unless_questionMark (keyword : String) :
    ('?' ∈ keyword.toList → Pattern.ofLetters nonConsonant keyword = .error .nothingToRepeat) ∧
    ('?' ∉ keyword.toList → (∃ p, Pattern.ofLetters nonConsonant keyword = .ok p) ∨
      (Pattern.ofLetters nonConsonant keyword = .error .tooLarge ∧
        3000 < keyword.toList.length)) ∧
    ∀ p, Pattern.ofLetters nonConsonant keyword = .ok p →
      (p.isEmpty = true ↔ tokens (clean keyword.toList) = []) ∧
      ∀ m ∈ p.matchers, m.marking = .group 1 m.counting ∧
        ∀ before c after, tokens (clean keyword.toList) = before ++ .letter c :: after →
          p.source.toList = textOf before ++ c :: (nonConsonant.toList ++ textOf after) ∧
          m.counting = .concat (itemsOf before ++ .letter c :: wildcard :: itemsOf after) := by
  refine ⟨ofLetters_of_questionMark, fun hmark => ?_, fun p hp => ?_⟩
  · by_cases hne : tokens (clean keyword.toList) = []
    · refine .inl ⟨⟨.letters, "", none⟩, ?_⟩
      rw [Pattern.ofLetters, source_eq_nil_iff.2 hne, Pattern.build_nil]
    · exact (ofLetters_eq_pattern_or hmark hne).imp_left fun h => ⟨_, h⟩
  · have hempty := (Pattern.isEmpty_of_build hp).trans source_eq_nil_iff
    refine ⟨hempty, fun m hm => ?_⟩
    have hne : tokens (clean keyword.toList) ≠ [] := by
      intro hnil
      rw [Option.isNone_iff_eq_none.1 (hempty.2 hnil)] at hm
      cases hm
    rw [eq_pattern_of_ofLetters hp hne] at hm ⊢
    cases hm
    refine ⟨rfl, fun before c after hts => ⟨?_, ?_⟩⟩
    · rw [← textOf_append_letter, ← hts]
      exact String.toList_ofList
    · rw [← expression_append_letter, ← hts]

/-- A qaf is searched for as itself, and not at all with a question mark behind it. -/
theorem compiles_qaf_unless_questionMark :
    Pattern.ofLetters nonConsonant "\u0642?" = .error .nothingToRepeat ∧
      ∃ p m, Pattern.ofLetters nonConsonant "\u0642" = .ok p ∧ p.matchers = some m ∧
        m.counting = .concat [.letter '\u0642', wildcard] := by
  refine ⟨(compiles_unless_questionMark "\u0642?").1 (by decide), ?_⟩
  obtain ⟨-, hcompile, hpattern⟩ := compiles_unless_questionMark "\u0642"
  rcases hcompile (by decide) with ⟨p, hp⟩ | ⟨-, hlong⟩
  · obtain ⟨hempty, hmatchers⟩ := hpattern p hp
    cases hm : p.matchers with
    | none => exact absurd (hempty.1 (by rw [Pattern.isEmpty, hm]; rfl)) (by decide)
    | some m => exact ⟨p, m, hp, hm, ((hmatchers m hm).2 [] '\u0642' [] rfl).2⟩
  · exact absurd hlong (by decide)

/-- A question mark behind a qaf and a lam is left by cleaning, and then there is no pattern. -/
theorem not_compiles_questionMark :
    let keyword := "\u0642\u0644?"
    clean keyword.toList = keyword.toList ∧
      Pattern.ofLetters nonConsonant keyword = .error .nothingToRepeat := by
  exact ⟨by decide, by decide +kernel⟩

end VerseSearch.Letters
