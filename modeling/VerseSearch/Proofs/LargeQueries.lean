import VerseSearch.Proofs.Availability

/-!
# Queries that are refused for their size

A letter query of up to 3000 characters is never refused (`Letters.fits_of_length_le`). A longer one
is, once its tokens weigh too much (`Letters.not_fits_expression`), but only if none of them looks
at what follows (`Regex.fits_of_not_isRegular`). So a query that is refused may be accepted with one
more letter at its end: 6000 alef maddas are refused (`Letters.ofLetters_maddas`), and any number of
them with a yeh behind them is not (`Letters.ofLetters_maddas_yeh`).
-/

set_option autoImplicit false

namespace VerseSearch

namespace Regex

/-- A part weighs its weight where no repetition of it follows. -/
theorem partWeight_seq_seq (r s t : Regex) :
    (seq r (seq s t)).partWeight = r.partWeight + (seq s t).partWeight := rfl

/-- Parts in sequence weigh at least as much as those before the last two. -/
theorem totalWeight_le_partWeight_concat (rs : List Regex) (r s : Regex) :
    totalWeight rs ≤ (concat (rs ++ [r, s])).partWeight := by
  induction rs with
  | nil => exact Nat.zero_le _
  | cons t rs ih =>
    have hseq : ∃ u v, concat (rs ++ [r, s]) = seq u v := by
      rcases rs with _ | ⟨u, _ | ⟨v, rs⟩⟩ <;> exact ⟨_, _, rfl⟩
    have hconcat : concat (t :: rs ++ [r, s]) = seq t (concat (rs ++ [r, s])) := by
      cases rs <;> rfl
    have htotal : totalWeight (t :: rs) = t.partWeight + totalWeight rs := rfl
    obtain ⟨u, v, huv⟩ := hseq
    rw [huv] at ih hconcat
    rw [hconcat, partWeight_seq_seq, htotal]
    exact Nat.add_le_add_left ih _

theorem le_totalWeight_flatMap {α : Type} {f : α → List Regex} {n : Nat} {l : List α}
    (h : ∀ a ∈ l, n ≤ totalWeight (f a)) : l.length * n ≤ totalWeight (l.flatMap f) := by
  induction l with
  | nil => exact Nat.le_of_eq (Nat.zero_mul n)
  | cons a l ih =>
    obtain ⟨ha, hl⟩ := List.forall_mem_cons.1 h
    have hrest := ih hl
    rw [List.flatMap_cons, totalWeight_append, List.length_cons, Nat.succ_mul]
    omega

end Regex

namespace Letters

/-! ## How long a query may be -/

theorem Token.items_ne_nil (t : Token) : t.items ≠ [] := by
  cases t with
  | letter c => exact List.cons_ne_nil _ _
  | family f => cases f <;> exact List.cons_ne_nil _ _

/-- Tokens that weigh too much together, and without the last one, are refused, unless one of them
looks ahead. -/
theorem not_fits_expression {ts : List Token} {n : Nat}
    (hweight : ∀ t ∈ ts, n ≤ Regex.totalWeight (t.items ++ [wildcard]))
    (hlimit : Regex.weightLimit < (ts.length - 1) * n)
    (hregular : (expression ts).isRegular = true) : (expression ts).fits = false := by
  obtain rfl | ⟨ts, t, rfl⟩ := List.eq_nil_or_concat ts
  · simp at hlimit
  obtain hnil | ⟨items, item, hitems⟩ := List.eq_nil_or_concat t.items
  · exact absurd hnil t.items_ne_nil
  rw [List.length_concat, Nat.add_sub_cancel] at hlimit
  have hexpression : expression (ts.concat t) =
      .concat ((ts.flatMap (fun t => t.items ++ [wildcard]) ++ items) ++ [item, wildcard]) := by
    simp [expression, hitems]
  have htokens := Regex.le_totalWeight_flatMap (f := fun t => t.items ++ [wildcard]) (l := ts)
    fun t ht => hweight t (by simp [ht])
  have hparts := Regex.totalWeight_le_partWeight_concat
    (ts.flatMap (fun t => t.items ++ [wildcard]) ++ items) item wildcard
  rw [← hexpression, Regex.totalWeight_append] at hparts
  have hlarge : ¬ (expression (ts.concat t)).weight ≤ Regex.weightLimit := by
    rw [Regex.weight_eq_partWeight]
    omega
  rw [Regex.fits, hregular, decide_eq_false hlarge]
  rfl

/-- A query of up to 3000 characters is not too large. -/
theorem fits_of_length_le {q : List Char} (h : q.length ≤ 3000) :
    (expression (tokens (clean q))).fits = true :=
  fits_expression (((length_tokens_le _).trans (length_clean_le q)).trans h)

/-- A query has its pattern, or it is refused and has more than 3000 characters. -/
theorem ofLetters_eq_pattern_or {keyword : String} (hmark : '?' ∉ keyword.toList)
    (hne : tokens (clean keyword.toList) ≠ []) :
    Pattern.ofLetters nonConsonant keyword = .ok (pattern keyword) ∨
      (Pattern.ofLetters nonConsonant keyword = .error .tooLarge ∧
        3000 < keyword.toList.length) := by
  rw [ofLetters_eq hmark hne]
  split
  · exact .inl rfl
  · rename_i hfits
    exact .inr ⟨rfl, Nat.lt_of_not_le fun hle => hfits (fits_of_length_le hle)⟩

/-- A query that repeats one token too often is refused, unless the token looks ahead. -/
theorem ofLetters_of_replicate {keyword : String} {t : Token} {n m : Nat}
    (hmark : '?' ∉ keyword.toList) (htokens : tokens (clean keyword.toList) = List.replicate n t)
    (hweight : m ≤ Regex.totalWeight (t.items ++ [wildcard]))
    (hlimit : Regex.weightLimit < (n - 1) * m)
    (hregular : (t.items ++ [wildcard]).all Regex.isRegular = true) :
    Pattern.ofLetters nonConsonant keyword = .error .tooLarge := by
  have hall : (expression (List.replicate n t)).isRegular = true := by
    rw [expression, Regex.isRegular_concat, List.all_flatMap, List.all_eq_true]
    intro u hu
    rwa [List.eq_of_mem_replicate hu]
  have hlarge : (expression (List.replicate n t)).fits = false :=
    not_fits_expression (fun u hu => (List.eq_of_mem_replicate hu).symm ▸ hweight)
      (by rwa [List.length_replicate]) hall
  have hne : tokens (clean keyword.toList) ≠ [] := by
    rw [htokens, Ne, List.replicate_eq_nil_iff]
    rintro rfl
    simp at hlimit
  rw [ofLetters_eq hmark hne, htokens, hlarge]
  rfl

/-! ## Alef maddas with and without a yeh -/

/-- So many alef maddas. -/
def maddas (n : Nat) : List Char := List.replicate n '\u0622'

variable {n : Nat}

theorem mem_maddas_yeh {c : Char} (h : c ∈ maddas n ++ ['\u064A']) :
    c = '\u0622' ∨ c = '\u064A' := by
  rcases List.mem_append.1 h with h | h
  · exact .inl (List.eq_of_mem_replicate h)
  · exact .inr (List.mem_singleton.1 h)

theorem tokens_clean_maddas (n : Nat) :
    tokens (clean (maddas n)) = List.replicate n (.family .alefMadda) := by
  have hplain : ∀ c ∈ maddas n, isPlain c = true := by
    intro c hc
    rw [List.eq_of_mem_replicate hc]
    decide
  rw [tokens_clean_of_isPlain hplain, maddas, List.map_replicate]
  rfl

theorem tokens_clean_maddas_yeh (n : Nat) : tokens (clean (maddas n ++ ['\u064A'])) =
    List.replicate n (.family .alefMadda) ++ [.family .yeh] := by
  have hplain : ∀ c ∈ maddas n ++ ['\u064A'], isPlain c = true := by
    intro c hc
    rcases mem_maddas_yeh hc with rfl | rfl <;> decide
  rw [tokens_clean_of_isPlain hplain, maddas, List.map_append, List.map_replicate]
  rfl

variable {keyword : String}

/-- From 6000 on, alef maddas are refused. -/
theorem ofLetters_maddas (hkeyword : keyword.toList = maddas n) (h : 6000 ≤ n) :
    Pattern.ofLetters nonConsonant keyword = .error .tooLarge := by
  have hmark : '?' ∉ maddas n := fun hc => absurd (List.eq_of_mem_replicate hc) (by decide)
  have htokens := tokens_clean_maddas n
  rw [← hkeyword] at hmark htokens
  exact ofLetters_of_replicate (m := 2444) hmark htokens (by decide +kernel)
    (by rw [Regex.weightLimit]; omega) (by decide)

theorem isRegular_maddas_yeh (n : Nat) :
    (expression (List.replicate n (.family .alefMadda) ++ [.family .yeh])).isRegular = false := by
  rw [expression, Regex.isRegular_concat, List.all_flatMap, List.all_append, Bool.and_eq_false_iff]
  exact .inr (by decide)

/-- A yeh looks at the mark behind it, so no number of alef maddas before it is refused. -/
theorem ofLetters_maddas_yeh (hkeyword : keyword.toList = maddas n ++ ['\u064A']) :
    Pattern.ofLetters nonConsonant keyword = .ok (pattern keyword) := by
  have hmark : '?' ∉ maddas n ++ ['\u064A'] := fun hc => by
    rcases mem_maddas_yeh hc with h | h <;> exact absurd h (by decide)
  have hne : tokens (clean (maddas n ++ ['\u064A'])) ≠ [] := by
    simp [tokens_clean_maddas_yeh]
  rw [ofLetters_eq (hkeyword ▸ hmark) (hkeyword ▸ hne), hkeyword, tokens_clean_maddas_yeh,
    Regex.fits_of_not_isRegular (isRegular_maddas_yeh n)]
  rfl

/-- Where a text begins with an alef madda, its other spellings fail first. -/
theorem findsAfter_madda {p : Place} {s : List Char} (hp : p.rest = '\u0622' :: s) :
    ∃ q : Place, q.rest = s ∧ ∀ (rs : List Regex) (k : Place → Nat → Attempt) (e : Place) (c : Nat),
      FindsAfter (Regex.explore (.concat rs) k q) e c →
        FindsAfter (Regex.explore (.concat (Family.alefMadda.items ++ [wildcard] ++ rs)) k p) e
          (c + 2) := by
  obtain ⟨q, hq, hqrest, _⟩ := Place.exists_advance?_eq_some (.only '\u0622') hp (by decide)
  refine ⟨q, hqrest, fun rs k e c hbehind => ?_⟩
  have hcost : c + 2 = 0 + 1 + (0 + 1 + c) := by omega
  rw [List.append_assoc, Family.items, List.singleton_append, Regex.explore_concat_cons, hcost]
  refine Regex.findsAfter_alt ?_ (Regex.findsAfter_alt ?_ ?_)
  · exact Regex.failsAfter_letter (c := '\u0621') (by simp [hp])
  · exact Regex.failsAfter_letter (c := '\u0654') (by simp [hp])
  · refine FindsAfter.orTry ?_ _
    show FindsAfter (Regex.explore (.one (.only '\u0622')) _ p) e c
    rw [Regex.explore_one_of_some hq, List.singleton_append, Regex.explore_concat_cons]
    exact Regex.findsAfter_lazy hbehind

/-- Alef maddas and a yeh are found in themselves. -/
theorem findsAfter_maddas_yeh (n : Nat) {p : Place} (hp : p.rest = maddas n ++ ['\u064A']) :
    ∃ e : Place, e.rest = [] ∧ FindsAfter ((expression (List.replicate n (.family .alefMadda) ++
      [.family .yeh])).explore .found p) e (2 * n + 2) := by
  induction n generalizing p with
  | zero =>
    have hp : p.rest = ['\u064A'] := hp
    obtain ⟨q, hq, hqrest, _⟩ := Place.exists_advance?_eq_some
      (.ofChars ['\u0649', '\u064A', '\u06E6', '\u0640']) hp (by decide)
    have hmark : q.advance? (.ofChars ['\u0670', '\u0654']) = none :=
      Place.advance?_eq_none (by simp [hqrest])
    have hcost : 2 * 0 + 2 = 0 + 1 + (0 + 1 + 0) := rfl
    refine ⟨q, hqrest, ?_⟩
    rw [hcost]
    refine Regex.findsAfter_alt (Regex.failsAfter_letter (c := '\u0627') (by simp [hp])) ?_
    show FindsAfter (Regex.explore (.one _) _ p) q _
    rw [Regex.explore_one_of_some hq]
    refine Regex.findsAfter_look_false ?_ (Regex.findsAfter_lazy (findsAfter_found q))
    rw [oneOf, Regex.explore_one_of_none hmark]
    exact failsAfter_failed
  | succ n ih =>
    obtain ⟨q, hq, hbehind⟩ := findsAfter_madda (s := maddas n ++ ['\u064A']) hp
    obtain ⟨e, he, hfinds⟩ := ih hq
    exact ⟨e, he, hbehind _ _ e _ hfinds⟩

/-- At the end of a text no query of alef maddas and a yeh takes more than a few tries. -/
theorem failsAfter_maddas_yeh (n : Nat) {p : Place} (hp : p.rest = []) :
    ∃ c ≤ 3, FailsAfter ((expression (List.replicate n (.family .alefMadda) ++
      [.family .yeh])).explore .found p) c := by
  have hletter : ∀ (d : Char) (k : Place → Nat → Attempt),
      FailsAfter (Regex.explore (.letter d) k p) 0 := fun d k => Regex.failsAfter_letter (by simp [hp])
  cases n with
  | zero => exact ⟨1, by decide, failsAfter_yeh_of_end [] hp⟩
  | succ n =>
    exact ⟨0 + 1 + (0 + 1 + (0 + 1 + 0)), by decide, Regex.failsAfter_alt (hletter '\u0621' _)
      (Regex.failsAfter_alt (hletter '\u0654' _)
        (Regex.failsAfter_alt (hletter '\u0622' _) (hletter '\u0654' _)))⟩

/-- Up to half a million alef maddas with a yeh behind them are one occurrence of themselves. -/
theorem count_maddas_yeh (hkeyword : keyword.toList = maddas n ++ ['\u064A'])
    (hn : 2 * n + 2 ≤ tryLimit) : (pattern keyword).count keyword = .ok 1 := by
  obtain ⟨e, he, hfinds⟩ := findsAfter_maddas_yeh n (p := .start (maddas n ++ ['\u064A'])) rfl
  obtain ⟨c, hc, hfails⟩ := failsAfter_maddas_yeh n (p := e.fresh) he
  have hlimit : c < tryLimit := Nat.lt_of_le_of_lt hc (by decide)
  have hcut := Regex.cut?_eq_of_found (isRegular_maddas_yeh n) (by simp) (hfinds tryLimit hn) he
    hfails hlimit
  rw [← tokens_clean_maddas_yeh, ← hkeyword] at hcut
  exact Pattern.count_of_cut?_eq_some (matchers_pattern keyword) hcut

end Letters

end VerseSearch
