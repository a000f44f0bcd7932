import VerseSearch.Proofs.WordBounds

/-!
# A space in front of a letter query

A space in front of a letter query stands for the start of a word. It is kept through cleaning and
searched for as a space, so it finds the words of a verse that have a space before them
(`count_expression_space_pos_iff`). The verse is searched as it is, and there is no space before its
first word. So the query misses the beginning of a verse unless the rest of the verse has it, too
(`count_expression_behind_space_pos_iff`), and there is no query for which this makes no difference
(`exists_text_missed`): a verse that is the query itself has one space too few.
-/

set_option autoImplicit false

namespace VerseSearch.Letters

variable {ts : List Token} {span next : List Char}

/-! ## The query behind the space -/

theorem reorderMarks_space_cons (q : List Char) :
    reorderMarks (' ' :: q) = ' ' :: reorderMarks q := by
  cases q with
  | nil => rfl
  | cons m r => rfl

theorem head?_foldInner_space_cons (q : List Char) :
    (foldInner (' ' :: q)).head? = some ' ' := by
  unfold foldInner
  split
  · rfl
  · rfl
  · rename_i h
    rw [List.head?_cons, (List.cons.inj h).1]
  · rename_i h
    cases h

/-- A space in front is kept. -/
theorem exists_clean_space_cons (q : List Char) : ∃ r, clean (' ' :: q) = ' ' :: r := by
  have hstrip : stripSigns (' ' :: q) = ' ' :: stripSigns q := List.filter_cons_of_pos (by decide)
  obtain ⟨r, hr⟩ := List.head?_eq_some_iff.1
    (head?_foldInner_space_cons (reorderMarks (stripSigns q)))
  refine ⟨r, ?_⟩
  rw [clean, hstrip, reorderMarks_space_cons, foldVocative, hr]
  rfl

/-- What is searched for behind a space that is put in front of a query. -/
def behindSpace (q : List Char) : List Token := tokens (clean (' ' :: q)).tail

theorem tokens_clean_space_cons (q : List Char) :
    tokens (clean (' ' :: q)) = .letter ' ' :: behindSpace q := by
  obtain ⟨r, hr⟩ := exists_clean_space_cons q
  rw [behindSpace, hr]
  rfl

/-! ## Where it is found -/

/-- The text opens with the tokens, or with fillers and the tokens behind them. -/
def Opens (ts : List Token) (s : List Char) : Prop :=
  ∃ fill span rest, s = fill ++ (span ++ rest) ∧ (∀ c ∈ fill, isFiller c = true) ∧
    Carries ts span rest

/-- Tokens behind a space are carried where a space is, and the tokens behind it. -/
theorem exists_carries_space_iff {s : List Char} :
    (∃ span rest, s = span ++ rest ∧ Carries (.letter ' ' :: ts) span rest) ↔
      ∃ after, s = ' ' :: after ∧ Opens ts after := by
  constructor
  · rintro ⟨_, next, rfl, h⟩
    obtain ⟨first, fill, rest, rfl, hfirst, hfill, hrest⟩ := h.exists_parts
    obtain rfl : first = [' '] := beq_iff_eq.1 hfirst
    exact ⟨fill ++ (rest ++ next), by simp, fill, rest, next, rfl, hfill, hrest⟩
  · rintro ⟨_, rfl, fill, span, rest, rfl, hfill, hspan⟩
    cases ts with
    | nil => exact ⟨[' '], _, rfl, beq_self_eq_true _⟩
    | cons t ts =>
      exact ⟨' ' :: (fill ++ span), rest, by simp, [' '], fill, span, rfl, beq_self_eq_true _,
        hfill, hspan⟩

/-- Tokens with a space in front are found behind the spaces of a text. -/
theorem count_expression_space_pos_iff (ts : List Token) (text : List Char) :
    0 < (expression (.letter ' ' :: ts)).count text ↔
      ∃ before after, text = before ++ ' ' :: after ∧ Opens ts after := by
  rw [count_expression_pos_iff (List.cons_ne_nil _ _)]
  constructor
  · rintro ⟨before, span, rest, rfl, hspan⟩
    obtain ⟨after, hafter, hopens⟩ := exists_carries_space_iff.1 ⟨span, rest, rfl, hspan⟩
    exact ⟨before, after, by rw [List.append_assoc, hafter], hopens⟩
  · rintro ⟨before, after, rfl, hopens⟩
    obtain ⟨span, rest, hafter, hspan⟩ := exists_carries_space_iff.2 ⟨after, rfl, hopens⟩
    exact ⟨before, span, rest, by rw [hafter, List.append_assoc], hspan⟩

/-- With a space put in front, the text is searched from its beginning, too. -/
theorem count_expression_behind_space_pos_iff (ts : List Token) (text : List Char) :
    0 < (expression (.letter ' ' :: ts)).count (' ' :: text) ↔
      0 < (expression (.letter ' ' :: ts)).count text ∨ Opens ts text := by
  rw [count_expression_space_pos_iff, count_expression_space_pos_iff]
  constructor
  · rintro ⟨before, after, htext, hopens⟩
    rcases List.cons_eq_append_iff.1 htext with ⟨rfl, hafter⟩ | ⟨before, rfl, hrest⟩
    · cases hafter
      exact .inr hopens
    · exact .inl ⟨before, after, hrest, hopens⟩
  · rintro (⟨before, after, htext, hopens⟩ | hopens)
    · exact ⟨' ' :: before, after, by rw [htext]; rfl, hopens⟩
    · exact ⟨[], text, rfl, hopens⟩

/-! ## A text that is missed -/

/-- Every token has a spelling that may stand at the end of a text and before a tatweel. -/
theorem Token.exists_spelling (t : Token) : ∃ s, t.spells s [] = true ∧
    ∀ r, t.spells s ('\u0640' :: r) = true := by
  cases t with
  | letter c => exact ⟨[c], beq_self_eq_true _, fun _ => beq_self_eq_true _⟩
  | family f =>
    cases f with
    | articleRelative => exact ⟨_, beq_self_eq_true _, fun _ => beq_self_eq_true _⟩
    | articleLam => exact ⟨['\u0671', '\u0644', '\u0644', '\u0651'], rfl, fun _ => rfl⟩
    | alef => exact ⟨['\u0627'], rfl, fun _ => rfl⟩
    | yeh => exact ⟨['\u064A'], rfl, fun _ => rfl⟩
    | alefMaksura => exact ⟨['\u0649'], rfl, fun _ => rfl⟩
    | hamza => exact ⟨['\u0621'], rfl, fun _ => rfl⟩
    | alefMadda => exact ⟨['\u0622'], rfl, fun _ => rfl⟩
    | waw => exact ⟨['\u0648'], rfl, fun _ => rfl⟩
    | noon => exact ⟨['\u0646'], rfl, fun _ => rfl⟩

/-- Every list of tokens is carried by some text. -/
theorem exists_span_carries (ts : List Token) : ∃ span, Carries ts span [] := by
  induction ts with
  | nil => exact ⟨[], rfl⟩
  | cons t ts ih =>
    obtain ⟨first, hend, htatweel⟩ := t.exists_spelling
    obtain ⟨rest, hrest⟩ := ih
    cases ts with
    | nil => exact ⟨first, hend⟩
    | cons u us =>
      -- with the tatweel no mark that is searched for comes right behind a letter
      exact ⟨first ++ (['\u0640'] ++ rest), first, ['\u0640'], rest, rfl, htatweel _,
        List.all_eq_true.1 rfl, hrest⟩

/-- What carries the tokens has no space for them to be found behind. -/
theorem count_expression_space_of_carries (h : Carries ts span next) :
    (expression (.letter ' ' :: ts)).count span = 0 := by
  refine Nat.eq_zero_of_not_pos fun hpos => ?_
  obtain ⟨before, after, rfl, fill, found, rest, rfl, -, hfound⟩ :=
    (count_expression_space_pos_iff ts span).1 hpos
  have hspaces := count_space_of_carries h
  simp only [List.count_append, List.count_cons_self, count_space_of_carries hfound] at hspaces
  omega

/-- Some text begins with the tokens, but only with a space put in front they are found there. -/
theorem exists_text_missed (ts : List Token) :
    ∃ text, Opens ts text ∧ (expression (.letter ' ' :: ts)).count text = 0 := by
  obtain ⟨span, hspan⟩ := exists_span_carries ts
  exact ⟨span, ⟨[], span, [], by simp, List.forall_mem_nil _, hspan⟩,
    count_expression_space_of_carries hspan⟩

/-! ## Validated queries -/

/-- A validated letter query with a space in front. -/
def spaced (raw : List Char) : String := String.ofList (' ' :: Layer.validate .letters raw)

theorem toList_spaced (raw : List Char) :
    (spaced raw).toList = ' ' :: Layer.validate .letters raw := String.toList_ofList

theorem tokens_clean_spaced (raw : List Char) : tokens (clean (spaced raw).toList) =
    .letter ' ' :: behindSpace (Layer.validate .letters raw) := by
  rw [toList_spaced, tokens_clean_space_cons]

theorem questionMark_not_mem_spaced (raw : List Char) : '?' ∉ (spaced raw).toList := by
  rw [toList_spaced, List.mem_cons, not_or]
  exact ⟨by decide, Layer.questionMark_not_mem_validate raw⟩

/-- What such a query counts is what is found of a space and the tokens behind it. -/
theorem count_spaced (raw : List Char) (text : String) :
    (pattern (spaced raw)).count text = (pattern (spaced raw)).unlessGivenUp text
      ((expression (.letter ' ' :: behindSpace (Layer.validate .letters raw))).count
        text.toList) := by
  rw [count_pattern, tokens_clean_spaced]

/-- What a space in front of a validated letter query means. With the usual wildcard the query has a
pattern unless it is too large. It occurs in a text exactly if somewhere behind a space the text
goes on with the query. With a space put in front of it, a text has an occurrence exactly if it has
one as it is, or opens with the query. For every query there is a text where the two differ. All this
is said of texts that are not too much for the pattern, and the others have no number of
occurrences. -/
theorem finds_words_behind_spaces (raw : List Char) :
    (Pattern.ofLetters nonConsonant (spaced raw) = .ok (pattern (spaced raw)) ∨
      (Pattern.ofLetters nonConsonant (spaced raw) = .error .tooLarge ∧
        3000 < (spaced raw).toList.length)) ∧
    (∀ text : String, ∃ n,
      (pattern (spaced raw)).count text = (pattern (spaced raw)).unlessGivenUp text n ∧
      (0 < n ↔ ∃ before after, text.toList = before ++ ' ' :: after ∧
        Opens (behindSpace (Layer.validate .letters raw)) after)) ∧
    (∀ text : String, ∃ n n',
      (pattern (spaced raw)).count text = (pattern (spaced raw)).unlessGivenUp text n ∧
      (pattern (spaced raw)).count (" " ++ text) =
        (pattern (spaced raw)).unlessGivenUp (" " ++ text) n' ∧
      (0 < n' ↔ 0 < n ∨ Opens (behindSpace (Layer.validate .letters raw)) text.toList)) ∧
    ∃ text : String, Opens (behindSpace (Layer.validate .letters raw)) text.toList ∧
      (pattern (spaced raw)).count text = (pattern (spaced raw)).unlessGivenUp text 0 := by
  have hne : tokens (clean (spaced raw).toList) ≠ [] := by
    rw [tokens_clean_spaced]
    exact List.cons_ne_nil _ _
  refine ⟨ofLetters_eq_pattern_or (questionMark_not_mem_spaced raw) hne, fun text => ?_,
    fun text => ?_, ?_⟩
  · exact ⟨_, count_spaced raw text, count_expression_space_pos_iff _ text.toList⟩
  · have hspace : (" " ++ text).toList = ' ' :: text.toList := String.toList_append
    have hcount := count_spaced raw (" " ++ text)
    rw [hspace] at hcount
    exact ⟨_, _, count_spaced raw text, hcount,
      count_expression_behind_space_pos_iff _ text.toList⟩
  · obtain ⟨text, hopens, hzero⟩ := exists_text_missed (behindSpace (Layer.validate .letters raw))
    have htext : (String.ofList text).toList = text := String.toList_ofList
    have hcount := count_spaced raw (String.ofList text)
    rw [htext, hzero] at hcount
    exact ⟨String.ofList text, by rwa [htext], hcount⟩

/-- A qaf and a lam with a space in front are not found at the beginning of a verse. -/
theorem not_finds_first_word :
    let p := pattern " \u0642\u0644"
    spaced ['\u0642', '\u0644'] = " \u0642\u0644" ∧
      Pattern.ofLetters nonConsonant " \u0642\u0644" = .ok p ∧
      p.count "\u0642\u0644 \u0647\u0648" = .ok 0 ∧
      p.count " \u0642\u0644 \u0647\u0648" = .ok 1 := by
  intro p
  have hgiven : ∀ text, p.givesUp text = false :=
    Pattern.givesUp_of_isRegular (matchers_pattern " \u0642\u0644") (by decide)
  refine ⟨by decide, ?_, ?_, ?_⟩
  · exact (ofLetters_eq (by decide) (by decide)).trans (if_pos (fits_of_length_le (by decide)))
  · rw [count_pattern, Pattern.unlessGivenUp_of_false (hgiven _)]
    exact congrArg Except.ok (by decide +kernel)
  · rw [count_pattern, Pattern.unlessGivenUp_of_false (hgiven _)]
    exact congrArg Except.ok (by decide +kernel)

end VerseSearch.Letters
