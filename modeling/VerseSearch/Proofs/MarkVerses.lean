import VerseSearch.Proofs.MarkTries
import VerseSearch.Proofs.Renumbering

/-!
# What a mark query finds in a verse

A verse is cut word by word, and a word that the query marks is one occurrence. What is counted and
what is emphasized are told from the words alone (`count_and_emphasize_words`), unless the verse is
too much for the pattern, which one of up to 249 000 characters never is.
-/

set_option autoImplicit false

namespace VerseSearch.Marks

variable {q : List Char} {n : Nat}

/-- A padded verse is cut into its words. -/
theorem FindsWords.cutWords_pieces {r : Regex} (h : FindsWords q n r.matchAt?) (text : List Char) :
    CutWords q n (Text.splitAt ' ' text) (r.pieces (' ' :: text ++ [' '])) := by
  rw [Regex.pieces]
  refine h.cutWords false (fun w hw => Text.not_mem_of_mem_splitAt hw) ?_
  rw [← Text.cons_joinWith (Text.splitAt_ne_nil ' ' text), Text.joinWith_splitAt]
  rfl

/-- The pattern of a mark query. -/
def pattern (keyword : String) : Pattern :=
  let q := keyword.toList
  ⟨.marks (optionalCount q), String.ofList (source q),
    some ⟨.concat (wordItems 0 q), .group 1 (.concat (wordItems 1 q))⟩⟩

/-- The text of a query is read, and it is read in a group. -/
theorem read_source (hne : q ≠ []) (hq : ∀ c ∈ q, Layer.keepsInMarks c = true) :
    Regex.read (source q) = .ok (.concat (wordItems 0 q)) ∧
      Regex.read ('(' :: source q ++ [')']) = .ok (.group 1 (.concat (wordItems 1 q))) := by
  obtain ⟨hreads, hstarts⟩ := reads_source hne hq 1
  exact ⟨read_of_reads (reads_source hne hq 0).1 (by decide),
    read_of_reads (hreads.choices.capture (List.cons_ne_nil _ _) hstarts).reads (by decide)⟩

theorem source_ne_nil (hne : q ≠ []) (hq : ∀ c ∈ q, Layer.keepsInMarks c = true) :
    source q ≠ [] := by
  rw [source_eq_units hne (ne_placeholder hq)]
  exact List.cons_ne_nil _ _

/-- A mark query always has a pattern: it looks at what follows, so its size is not limited. -/
theorem ofMarks_eq_ok {keyword : String} (hne : keyword.toList ≠ [])
    (hq : ∀ c ∈ keyword.toList, Layer.keepsInMarks c = true) :
    Pattern.ofMarks keyword = .ok (pattern keyword) := by
  obtain ⟨hcounting, hmarking⟩ := read_source hne hq
  have hfits : (Regex.concat (wordItems 0 keyword.toList)).fits = true := by
    simp [Regex.fits, isRegular_wordItems]
  rw [Pattern.ofMarks, Pattern.build, if_neg (source_ne_nil hne hq), hcounting, hmarking]
  exact if_pos hfits

/-! ## Counting and emphasizing -/

/-- No item of a query refers to a group. -/
theorem refers_items (n : Nat) (attached : Bool) (q : List Char) :
    (items n attached q).any Regex.refers = false := by
  induction q generalizing n attached with
  | nil => rfl
  | cons c q ih =>
    have hunit : (unitItems n attached c).any Regex.refers = false := by
      unfold unitItems
      split
      · rfl
      split
      · rfl
      split <;> rfl
    rw [items, List.any_append, hunit, ih]
    rfl

theorem refers_wordItems (n : Nat) (q : List Char) :
    (Regex.concat (wordItems n q)).refers = false := by
  have hmarks : (Regex.concat (items (n + 1) false q)).refers = false := by
    rw [Regex.refers_concat, refers_items]
  rw [wordItems, Regex.refers_concat, List.any_cons, List.any_cons, Regex.refers, hmarks]
  rfl

theorem isPlain_wordItems (n : Nat) (q : List Char) :
    (Regex.concat (wordItems n q)).isPlain = true := by
  rw [Regex.isPlain, refers_wordItems, isRegular_wordItems]
  rfl

variable {keyword : String}

/-- Both expressions of a query, the second one told from the first. -/
theorem matchers_pattern (hne : keyword.toList ≠ [])
    (hq : ∀ c ∈ keyword.toList, Layer.keepsInMarks c = true) :
    (pattern keyword).matchers = some ⟨.concat (wordItems 0 keyword.toList),
      .group 1 (Regex.concat (wordItems 0 keyword.toList)).raise⟩ := by
  obtain ⟨hcounting, hmarking⟩ := read_source hne hq
  rw [← Regex.read_group_eq (source_ne_nil hne hq) hcounting hmarking]
  rfl

theorem count_pattern (hne : keyword.toList ≠ [])
    (hq : ∀ c ∈ keyword.toList, Layer.keepsInMarks c = true) (text : String) :
    (pattern keyword).count text = (pattern keyword).unlessGivenUp text
      ((Text.splitAt ' ' text.toList).countP fun w => (split? keyword.toList w).isSome) := by
  have hwords := (findsWords_wordItems hne hq 0).cutWords_pieces text.toList
  rw [← hwords.countP_isHit]
  exact Pattern.count_eq_unlessGivenUp (matchers_pattern hne hq) (isPlain_wordItems 0 _) text

theorem emphasize_pattern (hne : keyword.toList ≠ [])
    (hq : ∀ c ∈ keyword.toList, Layer.keepsInMarks c = true) (text : String) (m : Markers) :
    m.emphasize (some (pattern keyword)) text = (pattern keyword).unlessGivenUp text
      (String.ofList (Text.joinWith ' '
        ((Text.splitAt ' ' text.toList).map (m.markWord keyword.toList)))) := by
  have hmatchers := matchers_pattern hne hq
  rcases Pattern.searched_or_givenUp hmatchers (refers_wordItems 0 _) text with
    ⟨hgiven, _, hemphasize⟩ | ⟨ps, qs, hgiven, _, hqs, _, _, hemphasize⟩
  · rw [hemphasize, Pattern.unlessGivenUp_of_true hgiven]
  · have hmarking : Regex.group 1 (Regex.concat (wordItems 0 keyword.toList)).raise =
        .group 1 (.concat (wordItems 1 keyword.toList)) :=
      congrArg Matchers.marking (Option.some.inj hmatchers).symm
    rw [hmarking] at hqs
    have hplain : (Regex.group 1 (.concat (wordItems 1 keyword.toList))).isPlain = true :=
      isPlain_wordItems 1 _
    obtain rfl := Regex.eq_pieces_of_cut? hplain hqs
    have hfinds := (findsWords_wordItems hne hq 1).group (Nat.le_refl 1)
    have hreplaced := (hfinds.cutWords_pieces text.toList).flatMap_replacement m
    have hunpad := congrArg Markers.unpad hreplaced
    rw [Markers.unpad_words (Text.splitAt_ne_nil ' ' text.toList)] at hunpad
    rw [hemphasize, Pattern.unlessGivenUp_of_false hgiven, ← hunpad]
    rfl

/-- A verse of up to 249 000 characters is not too much for a mark query. -/
theorem givesUp_pattern (hne : keyword.toList ≠ [])
    (hq : ∀ c ∈ keyword.toList, Layer.keepsInMarks c = true) {text : String}
    (htext : text.toList.length ≤ 249000) : (pattern keyword).givesUp text = false := by
  have htries : 4 * (text.toList.length + 3) ≤ tryLimit := by
    unfold tryLimit
    omega
  have hsome := isSome_cut? hne hq htries
  rw [← Option.not_isNone, Bool.not_eq_true'] at hsome
  exact hsome

/-- What a mark pattern matches is a word, with the space before it, that the query marks. -/
theorem exists_word_of_cut? (hne : keyword.toList ≠ [])
    (hq : ∀ c ∈ keyword.toList, Layer.keepsInMarks c = true) {m : Matchers}
    (hm : m ∈ (pattern keyword).matchers) {r : Regex} (hr : r ∈ [m.counting, m.marking])
    {text span : List Char} {ps : List Piece} {groups : Groups}
    (hcut : r.cut? (' ' :: text ++ [' ']) = some ps) (hit : .hit span groups ∈ ps) :
    ∃ w ∈ Text.splitAt ' ' text, span = ' ' :: w ∧ (split? keyword.toList w).isSome = true := by
  cases hm
  rcases List.mem_cons.1 hr with rfl | hr
  · obtain rfl := Regex.eq_pieces_of_cut? (isPlain_wordItems 0 _) hcut
    exact ((findsWords_wordItems hne hq 0).cutWords_pieces text).exists_word hit
  · rw [List.mem_singleton.1 hr] at hcut
    have hplain : (Regex.group 1 (.concat (wordItems 1 keyword.toList))).isPlain = true :=
      isPlain_wordItems 1 _
    obtain rfl := Regex.eq_pieces_of_cut? hplain hcut
    have hfinds := (findsWords_wordItems hne hq 1).group (Nat.le_refl 1)
    exact (hfinds.cutWords_pieces text).exists_word hit

/-- What a mark query matches and marks. The pattern exists. A verse of up to 249 000 characters is
not too much for it, and in one that is not it occurs once in each word whose beginning the scan
accepts with no line feed behind it, also in the first and the last word, and nowhere else; emphasis
puts the markers around these beginnings and changes nothing else. If a verse is too much for it,
counting and emphasis say so. -/
theorem count_and_emphasize_words (keyword : String) (hne : keyword.toList ≠ [])
    (hq : ∀ c ∈ keyword.toList, Layer.keepsInMarks c = true) :
    let q := keyword.toList
    let p := pattern keyword
    Pattern.ofMarks keyword = .ok p ∧ ∀ text : String,
      let words := Text.splitAt ' ' text.toList
      (text.toList.length ≤ 249000 → p.givesUp text = false) ∧
      p.count text = p.unlessGivenUp text (words.countP fun w => (split? q w).isSome) ∧
      (∀ m : Markers, m.emphasize (some p) text =
        p.unlessGivenUp text (String.ofList (Text.joinWith ' ' (words.map (m.markWord q))))) ∧
      (∀ m ∈ p.matchers, ∀ r ∈ [m.counting, m.marking],
        ∀ ps, r.cut? (p.kind.subject text.toList) = some ps →
          ∀ span groups, .hit span groups ∈ ps →
            ∃ w ∈ words, span = ' ' :: w ∧ (split? q w).isSome = true) ∧
      ∀ (text' : String) (n n' : Nat), p.count text = .ok n → p.count text' = .ok n' →
        p.count (text ++ " " ++ text') = p.unlessGivenUp (text ++ " " ++ text') (n + n') := by
  intro q p
  refine ⟨ofMarks_eq_ok hne hq, fun text => ⟨givesUp_pattern hne hq, count_pattern hne hq text,
    emphasize_pattern hne hq text, ?_, ?_⟩⟩
  · intro m hm r hr ps hps span groups hit
    exact exists_word_of_cut? hne hq hm hr hps hit
  · intro text' n n' hn hn'
    have happend : (text ++ " " ++ text').toList = text.toList ++ ' ' :: text'.toList := by
      simp
    rw [count_pattern hne hq, Pattern.unlessGivenUp_eq_ok] at hn hn'
    rw [count_pattern hne hq, happend, Text.splitAt_append, List.countP_append, hn.2, hn'.2]

/-- A letter with a fatha and a bare letter behind it, in the second of three words. -/
theorem fatha_bare_in_words :
    Pattern.ofMarks "\u064E-" = .ok (pattern "\u064E-") ∧
      (pattern "\u064E-").count "\u0628\u0650 \u0628\u064E\u0644\u0645  " = .ok 1 ∧
      Markers.emphasize {} (some (pattern "\u064E-")) "\u0628\u0650 \u0628\u064E\u0644\u0645  " =
        .ok "\u0628\u0650 <mark>\u0628\u064E\u0644</mark>\u0645  " := by
  obtain ⟨hcompile, hwords⟩ := count_and_emphasize_words "\u064E-" (by decide)
    (List.all_eq_true.1 (by decide))
  obtain ⟨hgiven, hcount, hmarked, _⟩ := hwords "\u0628\u0650 \u0628\u064E\u0644\u0645  "
  have hends := hgiven (by decide)
  rw [Pattern.unlessGivenUp_of_false hends] at hcount
  refine ⟨hcompile, hcount.trans (congrArg Except.ok (by decide)), (hmarked {}).trans ?_⟩
  rw [Pattern.unlessGivenUp_of_false hends]
  exact congrArg Except.ok (by decide)

/-! ### A verse that is too much -/

/-- So many spaces. -/
def spaces (n : Nat) : String := String.ofList (List.replicate n ' ')

theorem toList_spaces (m : Nat) : (spaces m).toList = List.replicate m ' ' := String.toList_ofList

theorem splitAt_spaces (m : Nat) : Text.splitAt ' ' (spaces m).toList = List.replicate (m + 1) [] := by
  rw [toList_spaces]
  induction m with
  | zero => rfl
  | succ m ih => rw [List.replicate_succ, Text.splitAt, if_pos rfl, ih, ← List.replicate_succ]

/-- They are padded with two more. -/
theorem padded_spaces (m : Nat) :
    ' ' :: (spaces m).toList ++ [' '] = List.replicate (m + 2) ' ' := by
  rw [toList_spaces, ← List.replicate_succ, ← List.replicate_succ']

/-- A third of a million spaces are too much for a `+`. -/
theorem givesUp_any {m : Nat} (h : tryLimit < 3 * (m + 2)) :
    (pattern "+").givesUp (spaces m) = true := by
  have hcut := cut?_any (n := 0) (fun _ => List.eq_of_mem_replicate) (by rwa [List.length_replicate])
  rw [← padded_spaces] at hcut
  rw [Pattern.givesUp, matchers_pattern (by decide) (List.all_eq_true.1 (by decide))]
  exact Option.isNone_iff_eq_none.2 hcut

/-- For a `-` a million are. -/
theorem givesUp_bare {m : Nat} (h : m + 3 ≤ tryLimit) :
    (pattern "-").givesUp (spaces m) = false := by
  have hcut := isSome_cut?_bare (n := 0) (fun _ => List.eq_of_mem_replicate)
    (by rwa [List.length_replicate])
  rw [← padded_spaces, ← Option.not_isNone, Bool.not_eq_true'] at hcut
  rw [Pattern.givesUp, matchers_pattern (by decide) (List.all_eq_true.1 (by decide))]
  exact hcut

/-- No word of 350 000 spaces is marked by a `+`, but neither counting nor emphasis comes to its
end. -/
theorem not_counts_spaces :
    (∀ c ∈ "+".toList, Layer.keepsInMarks c = true) ∧
    ((Text.splitAt ' ' (spaces 350000).toList).countP fun w => (split? "+".toList w).isSome) = 0 ∧
    ∃ p, Pattern.ofMarks "+" = .ok p ∧ p.count (spaces 350000) = .error .givenUp ∧
      Markers.emphasize {} (some p) (spaces 350000) = .error .givenUp := by
  have hne : "+".toList ≠ [] := by decide
  have hkept : ∀ c ∈ "+".toList, Layer.keepsInMarks c = true := List.all_eq_true.1 (by decide)
  have hgiven : (pattern "+").givesUp (spaces 350000) = true := givesUp_any (by decide)
  refine ⟨hkept, ?_, pattern "+", ofMarks_eq_ok hne hkept, ?_, ?_⟩
  · rw [splitAt_spaces, List.countP_eq_zero]
    intro w hw
    rw [List.eq_of_mem_replicate hw]
    decide
  · rw [count_pattern hne hkept, Pattern.unlessGivenUp_of_true hgiven]
  · rw [emphasize_pattern hne hkept, Pattern.unlessGivenUp_of_true hgiven]

end VerseSearch.Marks
