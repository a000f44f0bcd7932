import VerseSearch.Proofs.LetterMatches
import VerseSearch.Proofs.Tries

/-!
# Marks that are too many to try

The wildcard behind every letter of a query passes vowel marks. If the query has vowel marks itself,
each mark of a verse may be passed by the wildcard or be one of the query's, and where a verse has
fewer of them in a row than the query all these ways fail. Their number doubles with every mark
(`Regex.failsAfter_row`), so 19 marks are too much (`Letters.givesUp_fathas`).
-/

set_option autoImplicit false

namespace VerseSearch

namespace Regex

variable {set : CharSet} {c : Char} {k : Place → Nat → Attempt}

/-- So many times a character, each time with a lazy repetition behind it. -/
def row (set : CharSet) (c : Char) (n : Nat) : List Regex :=
  (List.replicate n [letter c, star false (one set)]).flatten

theorem explore_row {n : Nat} (hn : 0 < n) (p : Place) :
    explore (concat (row set c n)) k p =
      explore (letter c) (explore (concat (star false (one set) :: row set c (n - 1))) k) p := by
  obtain ⟨n, rfl⟩ : ∃ n', n = n' + 1 := ⟨n - 1, by omega⟩
  exact explore_concat_cons _ _ k p

/-- The tries of a lazy repetition and a longer row at so many characters. -/
def rowTries : Nat → Nat
  | 0 => 1
  | m + 1 => 2 * rowTries m + 1

theorem rowTries_le_rowTries {m n : Nat} (h : m ≤ n) : rowTries m ≤ rowTries n := by
  induction h with
  | refl => exact Nat.le_refl _
  | step _ ih =>
    rw [rowTries]
    omega

/-- A lazy repetition and a row of characters, in a text with fewer of them: each of the text's
characters is passed by a repetition or is one of the row, and in no way is the row completed. -/
theorem failsAfter_row (hc : set.contains c = true) {rest : List Char}
    (hrest : ∀ d ∈ rest.head?, set.contains d = false) {n m : Nat} (hnm : m < n) {p : Place}
    (hp : p.rest = List.replicate m c ++ rest) :
    FailsAfter (explore (concat (star false (one set) :: row set c n)) k p) (rowTries m) := by
  induction m generalizing n p with
  | zero =>
    have hset : p.advance? set = none := by
      refine Place.advance?_eq_none fun d hd => hrest d ?_
      rwa [hp] at hd
    have hletter : ∀ d ∈ p.rest.head?, d ≠ c := by
      rintro d hd rfl
      rw [hp] at hd
      rw [hrest d hd] at hc
      cases hc
    rw [explore_concat_cons, explore_lazy_of_none hset]
    refine FailsAfter.orTry ?_ failsAfter_failed
    rw [explore_row hnm]
    exact failsAfter_letter hletter
  | succ m ih =>
    have hp' : p.rest = c :: (List.replicate m c ++ rest) := hp
    obtain ⟨q, hq, hqrest, _⟩ := Place.exists_advance?_eq_some _ hp' hc
    obtain ⟨u, hu, hurest, _⟩ := Place.exists_advance?_eq_some (.only c) hp' (by simp)
    have hpassed := ih (n := n) (by omega) hqrest
    have htaken := ih (n := n - 1) (by omega) hurest
    have hdouble : rowTries (m + 1) = rowTries m + 1 + rowTries m := by
      rw [rowTries]
      omega
    rw [explore_concat_cons] at hpassed
    rw [explore_concat_cons, explore_lazy_of_some hq, hdouble]
    refine FailsAfter.orTry ?_ hpassed
    rw [explore_row (by omega), letter, explore_one_of_some hu]
    exact htaken

end Regex

namespace Letters

variable {n m : Nat} {rest : List Char}

/-- A yeh and so many fathas. -/
def yehFathas (n : Nat) : List Char := '\u064A' :: List.replicate n '\u064E'

/-- A tatweel, which may stand for a yeh, and so many fathas. -/
def tatweelFathas (n : Nat) : List Char := '\u0640' :: List.replicate n '\u064E'

theorem tokens_clean_yehFathas (n : Nat) : tokens (clean (yehFathas n)) =
    .family .yeh :: List.replicate n (.letter '\u064E') := by
  have hmem : ∀ c ∈ yehFathas n, c = '\u064A' ∨ c = '\u064E' := fun c hc =>
    (List.mem_cons.1 hc).imp_right List.eq_of_mem_replicate
  have hall : ∀ test : Char → Prop, test '\u064A' → test '\u064E' → ∀ c ∈ yehFathas n, test c := by
    intro test hyeh hfatha c hc
    rcases hmem c hc with rfl | rfl
    · exact hyeh
    · exact hfatha
  rw [tokens_clean_eq_map (hall _ (by decide) (by decide))
    (.inr (hall _ (by decide) (by decide))) (hall _ (by decide) (by decide)), yehFathas,
    List.map_cons, List.map_replicate]
  rfl

/-- The expression of a yeh and fathas, in its parts. -/
theorem expression_yehFathas (n : Nat) :
    expression (.family .yeh :: List.replicate n (.letter '\u064E')) =
      .concat (.alt (.concat (['\u0627', '\u06DF'].map .letter ++
          [.one (.complement (.ofChars [' ']))]))
        (.concat [oneOf ['\u0649', '\u064A', '\u06E6', '\u0640'],
          .look false (oneOf ['\u0670', '\u0654'])]) ::
        wildcard :: Regex.row fillers '\u064E' n) := by
  rw [expression, List.flatMap_cons, List.flatMap_replicate]
  rfl

/-- At a tatweel with fewer fathas behind it, all ways are tried and fail. -/
theorem failsAfter_yehFathas (hm : 0 < m) (hnm : m < n)
    (hrest : ∀ c ∈ rest.head?, isFiller c = false) {k : Place → Nat → Attempt} {p : Place}
    (hp : p.rest = tatweelFathas m ++ rest) :
    FailsAfter ((expression (.family .yeh :: List.replicate n (.letter '\u064E'))).explore k p)
      (Regex.rowTries m + 2) := by
  have hp' : p.rest = '\u0640' :: (List.replicate m '\u064E' ++ rest) := hp
  obtain ⟨q, hq, hqrest, _⟩ := Place.exists_advance?_eq_some
    (.ofChars ['\u0649', '\u064A', '\u06E6', '\u0640']) hp' (by decide)
  have hmark : q.advance? (.ofChars ['\u0670', '\u0654']) = none := by
    obtain ⟨m, rfl⟩ : ∃ m', m = m' + 1 := ⟨m - 1, by omega⟩
    refine Place.advance?_eq_none fun c hc => ?_
    rw [hqrest] at hc
    cases hc
    decide
  have hrow : ∀ k, FailsAfter
      (Regex.explore (.concat (wildcard :: Regex.row fillers '\u064E' n)) k q) (Regex.rowTries m) :=
    fun k => Regex.failsAfter_row (by decide)
      (fun c hc => (contains_fillers c).trans (hrest c hc)) hnm hqrest
  have hcost : Regex.rowTries m + 2 = 0 + 1 + (0 + 1 + Regex.rowTries m) := by omega
  rw [expression_yehFathas, Regex.explore_concat_cons, hcost]
  refine Regex.failsAfter_alt ?_ ?_
  · exact Regex.failsAfter_letter (by simp [hp'])
  · rw [Regex.explore_concat_cons, oneOf, Regex.explore_one_of_some hq]
    refine Regex.failsAfter_look_false ?_ (hrow k)
    rw [oneOf, Regex.explore_one_of_none hmark]
    exact failsAfter_failed

variable {keyword text : String}

/-- At the end of a text a yeh fails both ways it may be written. -/
theorem failsAfter_yeh_of_end (ts : List Token) {k : Place → Nat → Attempt} {p : Place}
    (hp : p.rest = []) : FailsAfter ((expression (.family .yeh :: ts)).explore k p) 1 := by
  have hnone : p.advance? (.ofChars ['\u0649', '\u064A', '\u06E6', '\u0640']) = none :=
    Place.advance?_eq_none (by simp [hp])
  refine Regex.failsAfter_alt (c := 0) (d := 0)
    (Regex.failsAfter_letter (c := '\u0627') (by simp [hp])) ?_
  show FailsAfter (Regex.explore (.one _) _ p) 0
  rw [Regex.explore_one_of_none hnone]
  exact failsAfter_failed

theorem isRegular_yehFathas (n : Nat) :
    (expression (.family .yeh :: List.replicate n (.letter '\u064E'))).isRegular = false := by
  rw [expression_yehFathas, Regex.isRegular_concat]
  rfl

/-- A yeh and fathas are a query. -/
theorem ofLetters_yehFathas (hkeyword : keyword.toList = yehFathas n) :
    Pattern.ofLetters nonConsonant keyword = .ok (pattern keyword) := by
  have htokens := tokens_clean_yehFathas n
  have hmark : '?' ∉ yehFathas n := by simp [yehFathas]
  have hne : tokens (clean (yehFathas n)) ≠ [] := by simp [htokens]
  rw [← hkeyword] at htokens hmark hne
  rw [ofLetters_eq hmark hne, htokens, if_pos (Regex.fits_of_not_isRegular (isRegular_yehFathas n))]

/-- A tatweel with 19 fathas or more is too much for a query of a yeh with more of them. -/
theorem givesUp_fathas (hkeyword : keyword.toList = yehFathas n)
    (htext : text.toList = tatweelFathas m) (hm : 19 ≤ m) (hnm : m < n) :
    (pattern keyword).givesUp text = true := by
  have hlimit : tryLimit ≤ Regex.rowTries m + 2 :=
    calc tryLimit
        ≤ Regex.rowTries 19 := by decide
      _ ≤ Regex.rowTries m := Regex.rowTries_le_rowTries hm
      _ ≤ Regex.rowTries m + 2 := Nat.le_add_right _ 2
  have hfails : FailsAfter ((expression (tokens (clean keyword.toList))).explore .found
      (.start text.toList)) (Regex.rowTries m + 2) := by
    rw [hkeyword, tokens_clean_yehFathas]
    exact failsAfter_yehFathas (by omega) hnm (by simp)
      (htext.trans (List.append_nil _).symm)
  have hregular : (expression (tokens (clean keyword.toList))).isRegular = false := by
    rw [hkeyword, tokens_clean_yehFathas, isRegular_yehFathas]
  have hcut : (expression (tokens (clean keyword.toList))).cut? text.toList = none := by
    rw [Regex.cut?, hregular]
    exact cutBy_eq_none hfails false hlimit
  rw [Pattern.givesUp, matchers_pattern]
  exact Option.isNone_iff_eq_none.2 hcut

end Letters

end VerseSearch
