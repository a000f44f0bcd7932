import VerseSearch.Proofs.Narrowing

/-!
# The wildcard of marks generalizes

A `+` in place of a character of a mark query takes from a word whatever the character takes, and
leaves the same of it (`scanUnit_any`). What comes behind a shadda has to stand on the same letter;
behind a `+` in its place it may stand on a letter of its own, but need not (`scan_free`). So a word
that a query marks is marked by the wider query in the same way (`split?_set_any`), and no
occurrence is lost.
-/

set_option autoImplicit false

namespace VerseSearch.Marks

variable {test test' : Char → Bool} {attached : Bool} {c : Char} {q w rest first : List Char}

/-- A test that more characters pass is passed at the same place. -/
theorem scanMark_mono (htest : ∀ d, test d = true → test' d = true)
    (h : scanMark test w = some rest) : scanMark test' w = some rest := by
  cases w with
  | nil => cases h
  | cons m w =>
    rw [scanMark] at h ⊢
    split at h
    · rename_i hm
      rw [if_pos (htest m hm)]
      exact h
    · cases h

theorem scanMarked_mono (htest : ∀ d, test d = true → test' d = true)
    (h : scanMarked test w = some rest) : scanMarked test' w = some rest := by
  cases w with
  | nil => cases h
  | cons l w =>
    rw [scanMarked] at h ⊢
    split at h
    · rename_i hl
      rw [if_pos hl]
      exact scanMark_mono htest h
    · rename_i hl
      rw [if_neg hl]
      exact scanMark_mono htest h

/-- A mark that stands right at the front may have a letter before it. -/
theorem scanMarked_of_scanMark (htest : ∀ d, isLetter d = true → test d = false)
    (h : scanMark test w = some rest) : scanMarked test w = some rest := by
  cases w with
  | nil => cases h
  | cons m w =>
    have hm : test m = true := by
      by_contra hm
      rw [scanMark, if_neg hm] at h
      cases h
    have hl : ¬ isLetter m = true := fun hl => by
      rw [htest m hl] at hm
      cases hm
    rw [scanMarked, if_neg hl]
    exact h

/-- No letter is the mark that is looked for. -/
theorem decide_eq_false_of_isLetter (hc : isMark c = true) {d : Char} (hd : isLetter d = true) :
    decide (d = c) = false := by
  rw [decide_eq_false_iff_not]
  rintro rfl
  rw [isMark_of_isLetter hd] at hc
  cases hc

/-- A character of a query takes no less where it need not stand on the letter before. -/
theorem scanUnit_free (hc : Layer.keepsInMarks c = true) (h : scanUnit true c w = some rest) :
    scanUnit false c w = some rest := by
  unfold scanUnit at h ⊢
  by_cases hbare : c = '-'
  · rwa [if_pos hbare] at h ⊢
  by_cases hany : c = '+'
  · rwa [if_neg hbare, if_pos hany] at h ⊢
  rw [if_neg hbare, if_neg hany, if_pos rfl] at h
  rw [if_neg hbare, if_neg hany, if_neg Bool.false_ne_true]
  have hmark := isMark_of_keepsInMarks hc hbare hany
  exact scanMarked_of_scanMark (fun _ => decide_eq_false_of_isLetter hmark) h

/-- What a query leaves of a word behind a shadda, it leaves where there is none. -/
theorem scan_free (hq : ∀ c ∈ q, Layer.keepsInMarks c = true) (h : scan true q w = some rest) :
    scan false q w = some rest := by
  cases q with
  | nil => exact h
  | cons c q =>
    obtain ⟨u, hu, hrest⟩ := Option.bind_eq_some_iff.1 h
    exact Option.bind_eq_some_iff.2 ⟨u, scanUnit_free (List.forall_mem_cons.1 hq).1 hu, hrest⟩

/-- The wildcard takes what any character of a query takes. -/
theorem scanUnit_any (hc : Layer.keepsInMarks c = true) (h : scanUnit attached c w = some rest)
    (attached' : Bool) : scanUnit attached' '+' w = some rest := by
  have hany : scanUnit attached' '+' w = (scanMarked isMark w).or (scanBare w) := rfl
  rw [hany]
  by_cases hbare : c = '-'
  · rw [scanUnit, if_pos hbare] at h
    cases hmarked : scanMarked isMark w with
    | none => exact h
    | some rest' =>
      rw [scanBare_of_scanMarked hmarked] at h
      cases h
  by_cases hplus : c = '+'
  · rwa [scanUnit, if_neg hbare, if_pos hplus] at h
  have hmark := isMark_of_keepsInMarks hc hbare hplus
  have hmarked : scanMarked (fun d => d = c) w = some rest := by
    rw [scanUnit, if_neg hbare, if_neg hplus] at h
    split at h
    · exact scanMarked_of_scanMark (fun _ => decide_eq_false_of_isLetter hmark) h
    · exact h
  have hwider : scanMarked isMark w = some rest := by
    refine scanMarked_mono (fun d hd => ?_) hmarked
    rwa [of_decide_eq_true hd]
  rw [hwider, Option.some_or]

/-- A query leaves of a word what it left before one of its characters was made a wildcard. -/
theorem scan_set_any (hq : ∀ c ∈ q, Layer.keepsInMarks c = true) (i : Nat)
    (h : scan attached q w = some rest) : scan attached (q.set i '+') w = some rest := by
  induction q generalizing attached w i with
  | nil => exact h
  | cons c q ih =>
    obtain ⟨hc, hq⟩ := List.forall_mem_cons.1 hq
    obtain ⟨u, hu, hrest⟩ := Option.bind_eq_some_iff.1 h
    cases i with
    | zero =>
      refine Option.bind_eq_some_iff.2 ⟨u, scanUnit_any hc hu attached, ?_⟩
      -- the next character was bound to a shadda, or it was not
      cases hshadda : c == '\u0651' with
      | false => rwa [hshadda] at hrest
      | true =>
        rw [hshadda] at hrest
        exact scan_free hq hrest
    | succ i => exact Option.bind_eq_some_iff.2 ⟨u, hu, ih hq i hrest⟩

/-- A word is marked up to the same place. -/
theorem split?_set_any (hq : ∀ c ∈ q, Layer.keepsInMarks c = true) (i : Nat)
    (h : split? q w = some (first, rest)) : split? (q.set i '+') w = some (first, rest) := by
  obtain ⟨hscan, hline⟩ := scan_of_split? h
  rw [split?, hscan] at h
  rw [split?, scan_set_any hq i hscan]
  exact h

/-! ## Queries -/

variable {keyword : String}

/-- A mark query with a wildcard in place of a character. -/
def widen (keyword : String) (i : Nat) : String := String.ofList (keyword.toList.set i '+')

theorem toList_widen (keyword : String) (i : Nat) :
    (widen keyword i).toList = keyword.toList.set i '+' := String.toList_ofList

theorem keepsInMarks_of_mem_widen (hq : ∀ c ∈ keyword.toList, Layer.keepsInMarks c = true)
    {i : Nat} : ∀ c ∈ (widen keyword i).toList, Layer.keepsInMarks c = true := by
  intro c hc
  rw [toList_widen] at hc
  rcases List.mem_or_eq_of_mem_set hc with hmem | rfl
  · exact hq c hmem
  · rfl

theorem widen_ne_nil (hne : keyword.toList ≠ []) (i : Nat) : (widen keyword i).toList ≠ [] := by
  rw [toList_widen, Ne, List.set_eq_nil_iff]
  exact hne

/-- The words that the wider query marks are at least as many. -/
theorem countP_le_countP_widen (hq : ∀ c ∈ keyword.toList, Layer.keepsInMarks c = true) (i : Nat)
    (words : List (List Char)) :
    (words.countP fun w => (split? keyword.toList w).isSome) ≤
      words.countP fun w => (split? (widen keyword i).toList w).isSome := by
  refine List.countP_mono_left fun w _ h => ?_
  obtain ⟨⟨first, rest⟩, hsplit⟩ := Option.isSome_iff_exists.1 h
  rw [toList_widen, split?_set_any hq i hsplit]
  rfl

/-- The wider query finds in a library what the query finds, unless a long verse is too much for
it. -/
theorem find_widen (hne : keyword.toList ≠ [])
    (hq : ∀ c ∈ keyword.toList, Layer.keepsInMarks c = true) (i : Nat) {l : Library}
    {wildcard : String} {r : Results} (hr : l.find wildcard (.content .marks keyword) = .ok r) :
    (∃ r', l.find wildcard (.content .marks (widen keyword i)) = .ok r' ∧
      r.positions ⊆ r'.positions) ∨
    (l.find wildcard (.content .marks (widen keyword i)) = .error .givenUp ∧
      ∃ c, l.get? .marks = some c ∧ ∃ v ∈ c.verses, 249000 < v.text.toList.length) := by
  have hne' := widen_ne_nil hne i
  have hq' := keepsInMarks_of_mem_widen hq (i := i)
  have hcompile : Pattern.compile wildcard .marks keyword = .ok (pattern keyword) :=
    ofMarks_eq_ok hne hq
  have hcompile' : Pattern.compile wildcard .marks (widen keyword i) =
      .ok (pattern (widen keyword i)) := ofMarks_eq_ok hne' hq'
  obtain ⟨c, p, hc, hp, hall, rfl⟩ := Library.find_content_eq_ok_iff.1 hr
  cases hcompile.symm.trans hp
  by_cases hgiven : ∀ v ∈ c.verses, (pattern (widen keyword i)).givesUp v.text = false
  · left
    refine ⟨_, Library.find_content_eq_ok_iff.2 ⟨c, _, hc, hcompile', hgiven, rfl⟩, fun n hn => ?_⟩
    obtain ⟨v, m, hv, hcount, hpos⟩ := mem_positions_ofContent.1 hn
    rw [count_pattern hne hq, Pattern.unlessGivenUp_eq_ok] at hcount
    have hcount' := count_pattern hne' hq' v.text
    rw [Pattern.unlessGivenUp_of_false (hgiven v (List.mem_of_getElem? hv))] at hcount'
    have hle := countP_le_countP_widen hq i (Text.splitAt ' ' v.text.toList)
    exact mem_positions_ofContent.2 ⟨v, _, hv, hcount', Nat.lt_of_lt_of_le (hcount.2 ▸ hpos) hle⟩
  · right
    simp only [not_forall, Bool.not_eq_false] at hgiven
    obtain ⟨v, hv, hgiven⟩ := hgiven
    refine ⟨(Library.find_content_eq_error_iff hc).2 (.inr ⟨rfl, .marks, widen keyword i, c, _, rfl,
      hc, hcompile', v, hv, hgiven⟩), c, hc, v, hv, Nat.lt_of_not_le fun hshort => ?_⟩
    rw [givesUp_pattern hne' hq' hshort] at hgiven
    cases hgiven

/-- The wildcard `+` generalizes. A mark query and the same query with a `+` in place of one of its
characters both have a pattern. In every text that is not too much for them, and one of up to 249 000
characters never is, the second one occurs at least as often; a word that the first one marks is
marked by the second one up to the same place; and in every library the second one finds every verse
that the first one finds, unless a longer verse is too much for it. -/
theorem any_loses_nothing (keyword : String)
    (hq : ∀ c ∈ keyword.toList, Layer.keepsInMarks c = true) (i : Nat)
    (hi : i < keyword.toList.length) :
    ∃ p p', Pattern.ofMarks keyword = .ok p ∧ Pattern.ofMarks (widen keyword i) = .ok p' ∧
      (∀ text : String,
        (∃ n n', p.count text = p.unlessGivenUp text n ∧ p'.count text = p'.unlessGivenUp text n' ∧
          n ≤ n') ∧
        (text.toList.length ≤ 249000 → p.givesUp text = false ∧ p'.givesUp text = false)) ∧
      (∀ w parts, split? keyword.toList w = some parts →
        split? (widen keyword i).toList w = some parts) ∧
      ∀ (l : Library) (wildcard : String) (r : Results),
        l.find wildcard (.content .marks keyword) = .ok r →
        (∃ r', l.find wildcard (.content .marks (widen keyword i)) = .ok r' ∧
          r.positions ⊆ r'.positions) ∨
        (l.find wildcard (.content .marks (widen keyword i)) = .error .givenUp ∧
          ∃ c, l.get? .marks = some c ∧ ∃ v ∈ c.verses, 249000 < v.text.toList.length) := by
  have hne : keyword.toList ≠ [] := List.ne_nil_of_length_pos (Nat.zero_lt_of_lt hi)
  have hne' := widen_ne_nil hne i
  have hq' := keepsInMarks_of_mem_widen hq (i := i)
  refine ⟨pattern keyword, pattern (widen keyword i), ofMarks_eq_ok hne hq, ofMarks_eq_ok hne' hq',
    fun text => ⟨?_, fun htext => ?_⟩, fun w parts hsplit => ?_, fun l wildcard r => find_widen hne hq i⟩
  · exact ⟨_, _, count_pattern hne hq text, count_pattern hne' hq' text,
      countP_le_countP_widen hq i (Text.splitAt ' ' text.toList)⟩
  · exact ⟨givesUp_pattern hne hq htext, givesUp_pattern hne' hq' htext⟩
  · rw [toList_widen]
    exact split?_set_any hq i hsplit

/-- A fatha behind a shadda, which stands on a letter of its own once the shadda is a wildcard. -/
theorem any_for_shadda :
    ∃ p p', Pattern.ofMarks "\u0651\u064E" = .ok p ∧ Pattern.ofMarks "+\u064E" = .ok p' ∧
      ∀ text : String, text.toList.length ≤ 249000 →
        ∃ n n', p.count text = .ok n ∧ p'.count text = .ok n' ∧ n ≤ n' := by
  obtain ⟨p, p', hp, hp', hcount, _⟩ := any_loses_nothing "\u0651\u064E"
    (List.all_eq_true.1 (by decide)) 0 (by decide)
  refine ⟨p, p', hp, hp', fun text htext => ?_⟩
  obtain ⟨⟨n, n', hn, hn', hle⟩, hshort⟩ := hcount text
  obtain ⟨hgiven, hgiven'⟩ := hshort htext
  rw [Pattern.unlessGivenUp_of_false hgiven] at hn
  rw [Pattern.unlessGivenUp_of_false hgiven'] at hn'
  exact ⟨n, n', hn, hn', hle⟩

/-- Two verses, a letter and 350 000 spaces. -/
def letterAndSpaces : Corpus :=
  ⟨.marks, [⟨"\u0628", 1, 1, "\u0633"⟩, ⟨spaces 350000, 2, 1, "\u0633"⟩]⟩

/-- A `-` finds the letter, and the spaces are not too much for it. They are too much for a `+` in its
place, which then finds nothing. -/
theorem any_loses_letter_before_spaces :
    let l : Library := { directory := "data", marks := some letterAndSpaces }
    (∀ c ∈ "-".toList, Layer.keepsInMarks c = true) ∧ widen "-" 0 = "+" ∧
      (∃ r, l.find Letters.nonConsonant (.content .marks "-") = .ok r ∧ 0 ∈ r.positions) ∧
      l.find Letters.nonConsonant (.content .marks "+") = .error .givenUp := by
  intro l
  have hcorpus : l.get? .marks = some letterAndSpaces := rfl
  have hne : "-".toList ≠ [] := by decide
  have hkept : ∀ c ∈ "-".toList, Layer.keepsInMarks c = true := List.all_eq_true.1 (by decide)
  have hkept' : ∀ c ∈ "+".toList, Layer.keepsInMarks c = true := List.all_eq_true.1 (by decide)
  have hcompile : Pattern.compile Letters.nonConsonant .marks "-" = .ok (pattern "-") :=
    ofMarks_eq_ok hne hkept
  have hcompile' : Pattern.compile Letters.nonConsonant .marks "+" = .ok (pattern "+") :=
    ofMarks_eq_ok (by decide) hkept'
  have hletter : (pattern "-").givesUp "\u0628" = false := givesUp_pattern hne hkept (by decide)
  refine ⟨hkept, by decide, ?_, ?_⟩
  · have hcount : (pattern "-").count "\u0628" = .ok 1 := by
      rw [count_pattern hne hkept, Pattern.unlessGivenUp_of_false hletter]
      exact congrArg Except.ok (by decide)
    refine find_of_count hcorpus hcompile (fun v hv => ?_) rfl hcount Nat.one_pos
    rcases List.mem_cons.1 hv with rfl | hv
    · exact hletter
    · rw [List.mem_singleton.1 hv]
      exact givesUp_bare (by decide)
  · exact (Library.find_content_eq_error_iff hcorpus).2 (.inr ⟨rfl, .marks, "+", _, _, rfl, hcorpus,
      hcompile', _, List.mem_cons_of_mem _ List.mem_cons_self, givesUp_any (by decide)⟩)

end VerseSearch.Marks
