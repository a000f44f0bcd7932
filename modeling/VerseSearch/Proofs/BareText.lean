import VerseSearch.Proofs.LargeQueries

/-!
# Marks do not affect plain letters

A letter that has one spelling only is searched for as it is, and what may stand between letters is
passed over. So a query of such letters and spaces is counted in a verse as its text is in the bare
verse, from which vowel marks, small signs and all else that is neither a consonant nor a space is
erased (`Letters.count_expression_eq_occurrences`). What is erased makes no difference, wherever it
stands (`Letters.counts_in_bare_text`).

Nothing of this is lost where matches end: a match ends with its last letter, and the marks behind
it are erased in any case. Only a query of more than 3000 letters may be refused instead
(`Letters.not_counts_qafs`).
-/

set_option autoImplicit false

namespace VerseSearch

/-! ## Occurrences of a text -/

namespace Text

/-- Counts the occurrences of `part` after `skip` characters that an occurrence before them has
used up. -/
def occurrencesAfter (part : List Char) : Nat → List Char → Nat
  | _, [] => 0
  | skip + 1, _ :: r => occurrencesAfter part skip r
  | 0, c :: r =>
    if part.isPrefixOf (c :: r) then occurrencesAfter part (part.length - 1) r + 1
    else occurrencesAfter part 0 r

/-- How often the text `part`, which is not empty, occurs in another one. Occurrences are counted
from left to right and do not overlap. -/
def occurrences (part s : List Char) : Nat := occurrencesAfter part 0 s

example : occurrences "\u0642\u0644\u0642".toList "\u0642\u0644\u0642\u0644\u0642".toList = 1 := by
  decide

variable {part : List Char}

theorem occurrencesAfter_eq_drop (part : List Char) (n : Nat) (s : List Char) :
    occurrencesAfter part n s = occurrences part (s.drop n) := by
  induction s generalizing n with
  | nil => cases n <;> simp [occurrences, occurrencesAfter]
  | cons c r ih =>
    cases n with
    | zero => rfl
    | succ n => rw [occurrencesAfter, ih, List.drop_succ_cons]

/-- An occurrence at the front is counted, and the count goes on behind it. -/
theorem occurrences_append (h : part ≠ []) (s : List Char) :
    occurrences part (part ++ s) = occurrences part s + 1 := by
  obtain ⟨c, r, rfl⟩ := List.exists_cons_of_ne_nil h
  have hp : (c :: r).isPrefixOf (c :: (r ++ s)) = true :=
    List.isPrefixOf_iff_prefix.2 (List.prefix_append (c :: r) s)
  rw [List.cons_append, occurrences, occurrencesAfter, if_pos hp, occurrencesAfter_eq_drop]
  simp

theorem occurrences_cons {c : Char} {r : List Char} (h : ¬ part <+: c :: r) :
    occurrences part (c :: r) = occurrences part r := by
  rw [← List.isPrefixOf_iff_prefix] at h
  rw [occurrences, occurrencesAfter, if_neg h]
  rfl

end Text

namespace Letters

/-! ## Bare texts -/

/-- The text without what may stand between letters. -/
def bare (text : List Char) : List Char := text.filter fun c => !isFiller c

theorem bare_append (s t : List Char) : bare (s ++ t) = bare s ++ bare t := List.filter_append s t

theorem bare_cons_of_filler {c : Char} (hc : isFiller c = true) (s : List Char) :
    bare (c :: s) = bare s := List.filter_cons_of_neg (by simp [hc])

theorem bare_cons {c : Char} (hc : isFiller c = false) (s : List Char) :
    bare (c :: s) = c :: bare s := List.filter_cons_of_pos (by simp [hc])

theorem bare_of_fillers {fill : List Char} (h : ∀ c ∈ fill, isFiller c = true) : bare fill = [] :=
  List.filter_eq_nil_iff.2 fun c hc => by simp [h c hc]

/-- The fillers at the front of a text are none of the bare text. -/
theorem bare_dropWhile (s : List Char) : bare (s.dropWhile isFiller) = bare s := by
  have hfill : ∀ c ∈ s.takeWhile isFiller, isFiller c = true :=
    List.all_eq_true.1 List.all_takeWhile
  conv => rhs; rw [← List.takeWhile_append_dropWhile (p := isFiller) (l := s)]
  rw [bare_append, bare_of_fillers hfill, List.nil_append]

theorem isFiller_of_head?_dropWhile {s : List Char} {c : Char}
    (h : c ∈ (s.dropWhile isFiller).head?) : isFiller c = false := by
  have hnot := List.head?_dropWhile_not isFiller s
  rw [Option.mem_def.1 h] at hnot
  exact hnot

variable {q s span next : List Char}

/-- A span that carries letters is bare these letters. -/
theorem bare_of_carries (hq : ∀ c ∈ q, isFiller c = false)
    (h : Carries (q.map .letter) span next) : bare span = q := by
  induction q generalizing span with
  | nil =>
    have hspan : span = [] := h
    rw [hspan]
    rfl
  | cons c q ih =>
    obtain ⟨hc, hrest⟩ := List.forall_mem_cons.1 hq
    cases q with
    | nil =>
      have hspan : span = [c] := eq_of_beq h
      rw [hspan, bare_cons hc]
      rfl
    | cons d q =>
      obtain ⟨first, fill, rest, rfl, hfirst, hfill, hcarries⟩ := h
      obtain rfl : first = [c] := eq_of_beq hfirst
      rw [List.singleton_append, bare_cons hc, bare_append, bare_of_fillers hfill,
        ih hrest hcarries, List.nil_append]

/-- Letters that the bare text begins with are carried by a text that begins with no filler. -/
theorem exists_carries (hne : q ≠ []) (hq : ∀ c ∈ q, isFiller c = false)
    (hhead : ∀ c ∈ s.head?, isFiller c = false) (h : q <+: bare s) :
    ∃ span next, s = span ++ next ∧ Carries (q.map .letter) span next := by
  induction q generalizing s with
  | nil => exact absurd rfl hne
  | cons c q ih =>
    obtain ⟨hc, hrest⟩ := List.forall_mem_cons.1 hq
    cases s with
    | nil => exact absurd (List.prefix_nil.1 h) (List.cons_ne_nil c q)
    | cons d s =>
      rw [bare_cons (hhead d rfl), List.cons_prefix_cons] at h
      obtain ⟨rfl, h⟩ := h
      cases q with
      | nil => exact ⟨[c], s, rfl, beq_self_eq_true [c]⟩
      | cons c' q =>
        -- the fillers behind the first letter are passed over
        obtain ⟨span, next, hspan, hcarries⟩ := ih (List.cons_ne_nil c' q) hrest
          (s := s.dropWhile isFiller) (fun _ => isFiller_of_head?_dropWhile)
          (by rwa [bare_dropWhile])
        refine ⟨[c] ++ (s.takeWhile isFiller ++ span), next, ?_, [c], s.takeWhile isFiller, span,
          rfl, beq_self_eq_true [c], List.all_eq_true.1 List.all_takeWhile, hcarries⟩
        rw [List.append_assoc, List.append_assoc, ← hspan, List.takeWhile_append_dropWhile]
        rfl

/-! ## Counting -/

/-- An occurrence of letters takes up a span that is bare these letters. -/
theorem exists_span_of_matchAt? (hq : ∀ c ∈ q, isFiller c = false) {p e : Place}
    (h : (Regex.concat (body (q.map .letter))).matchAt? p = some e) :
    ∃ span, p.rest = span ++ e.rest ∧ bare span = q := by
  obtain ⟨span, hspan, hcovers⟩ := Regex.covers_of_matchAt? h
  exact ⟨span, hspan, bare_of_carries hq (covers_body.1 hcovers)⟩

theorem bare_of_matchAt? (hq : ∀ c ∈ q, isFiller c = false) {p e : Place}
    (h : (Regex.concat (body (q.map .letter))).matchAt? p = some e) :
    bare p.rest = q ++ bare e.rest := by
  obtain ⟨span, hspan, hbare⟩ := exists_span_of_matchAt? hq h
  rw [hspan, bare_append, hbare]

theorem left_lt_of_matchAt? (hne : q ≠ []) (hq : ∀ c ∈ q, isFiller c = false) {p e : Place}
    (h : (Regex.concat (body (q.map .letter))).matchAt? p = some e) : e.left < p.left := by
  obtain ⟨span, hspan, hbare⟩ := exists_span_of_matchAt? hq h
  have hpos : 0 < span.length := by
    refine List.length_pos_iff.2 ?_
    rintro rfl
    exact hne hbare.symm
  rw [e.left_eq, p.left_eq, hspan, List.length_append]
  omega

/-- Where no occurrence begins the bare text has none at its front either. -/
theorem not_prefix_of_matchAt?_eq_none (hne : q ≠ []) (hq : ∀ c ∈ q, isFiller c = false)
    {p : Place} (h : (Regex.concat (body (q.map .letter))).matchAt? p = none)
    (hhead : ∀ c ∈ p.rest.head?, isFiller c = false) : ¬ q <+: bare p.rest := by
  intro hprefix
  obtain ⟨span, next, hspan, hcarries⟩ := exists_carries hne hq hhead hprefix
  exact Regex.rest_ne_append_of_covers h (covers_body.2 hcarries) hspan

/-- From any place on, the search counts what the bare text has there. -/
theorem countP_isHit_piecesBy (hne : q ≠ []) (hq : ∀ c ∈ q, isFiller c = false) (afterHit : Bool)
    (p : Place) :
    (piecesBy (Regex.concat (body (q.map .letter))).matchAt? afterHit p).countP Piece.isHit =
      Text.occurrences q (bare p.rest) := by
  -- by induction on how much text is left
  obtain ⟨n, hn⟩ : ∃ n, p.left = n := ⟨_, rfl⟩
  induction n using Nat.strongRecOn generalizing p afterHit with
  | _ n ih =>
    rcases piecesBy_cases (Regex.concat (body (q.map .letter))).matchAt? afterHit p with
      ⟨e, he, hlt, heq⟩ | ⟨e, he, hle, -⟩ | ⟨hno, heq⟩
    · rw [heq, List.countP_cons_of_pos rfl, ih e.left (hn ▸ hlt) true e.fresh rfl,
        bare_of_matchAt? hq he, Text.occurrences_append hne]
      rfl
    · exact absurd (left_lt_of_matchAt? hne hq he) hle
    · have hnone : (Regex.concat (body (q.map .letter))).matchAt? p = none := by
        rw [Option.eq_none_iff_forall_ne_some]
        exact fun e he => (hno e he).1 (left_lt_of_matchAt? hne hq he)
      have hfront := not_prefix_of_matchAt?_eq_none hne hq hnone
      rw [heq]
      cases hnext : p.next? with
      | none =>
        rw [onward_of_end hnext, Place.next?_eq_none.1 hnext]
        rfl
      | some cp =>
        obtain ⟨c, p'⟩ := cp
        have hleft := Place.left_of_next? hnext
        have hrest := (Place.next?_eq_some.1 hnext).1
        rw [onward_of_next? hnext, List.countP_cons_of_neg (by simp [Piece.isHit]),
          ih p'.left (by omega) false p' rfl, hrest]
        rw [hrest] at hfront
        cases hc : isFiller c with
        | true => rw [bare_cons_of_filler hc]
        | false =>
          rw [bare_cons hc] at hfront ⊢
          refine (Text.occurrences_cons (hfront fun d hd => ?_)).symm
          rw [← Option.some.inj hd, hc]

/-- Letters with spaces between them are counted as their text is in the bare text. -/
theorem count_expression_eq_occurrences (hne : q ≠ []) (hq : ∀ c ∈ q, isFiller c = false)
    (text : List Char) :
    (expression (q.map .letter)).count text = Text.occurrences q (bare text) := by
  have hletters : q.map Token.letter ≠ [] := by simpa using hne
  rw [Regex.count, Regex.pieces_congr (matchAt?_expression hletters), Regex.pieces]
  exact countP_isHit_piecesBy hne hq false (.start text)

/-! ## Letters with one spelling -/

/-- The consonants. Tatweel is none. -/
def isConsonant (c : Char) : Bool :=
  decide ('\u0621' ≤ c) && decide (c ≤ '\u063A') || decide ('\u0641' ≤ c) && decide (c ≤ '\u064A')

/-- The letters that have families of spellings. -/
def varied : List Char :=
  ['\u0627', '\u064A', '\u0649', '\u0623', '\u0621', '\u0624', '\u0626', '\u0622', '\u0648',
    '\u0646']

/-- A space, or a consonant with one spelling only. -/
def isSteady (c : Char) : Bool := (isConsonant c || c == ' ') && !varied.contains c

variable {c : Char}

theorem isFiller_of_isSteady (h : isSteady c = true) : isFiller c = false := by
  simp only [isSteady, isConsonant, Bool.and_eq_true, Bool.or_eq_true, beq_iff_eq] at h
  obtain ⟨(h | h) | rfl, -⟩ := h
  · simp [isFiller, h]
  · simp [isFiller, h]
  · decide

theorem not_mem_signs_of_isSteady (h : isSteady c = true) : c ∉ signs := by
  have hsigns : signs.all (fun d => !isSteady d) = true := by decide
  intro hc
  have hnot := List.all_eq_true.1 hsigns c hc
  rw [h] at hnot
  cases hnot

theorem isVowel_of_isSteady (h : isSteady c = true) : isVowel c = false := by
  rw [Bool.eq_false_iff]
  intro hvowel
  simp only [isVowel, Bool.or_eq_true, beq_iff_eq] at hvowel
  rcases hvowel with (rfl | rfl) | rfl <;> exact absurd h (by decide)

theorem not_mem_varied (h : isSteady c = true) : c ∉ varied := by
  simp only [isSteady, Bool.and_eq_true, Bool.not_eq_true', List.contains_eq_mem,
    decide_eq_false_iff_not] at h
  exact h.2

theorem mem_varied_of_ofLetter? {f : Family} (h : Family.ofLetter? c = some f) : c ∈ varied := by
  unfold Family.ofLetter? at h
  split at h <;> first | decide | cases h

theorem ofLetter_of_isSteady (h : isSteady c = true) : Token.ofLetter c = .letter c := by
  have hnone : Family.ofLetter? c = none :=
    Option.eq_none_iff_forall_ne_some.2 fun _ hf => not_mem_varied h (mem_varied_of_ofLetter? hf)
  rw [Token.ofLetter, hnone]

/-- Spaces and consonants with one spelling are searched for as they are. -/
theorem tokens_clean_of_isSteady (h : ∀ c ∈ q, isSteady c = true) :
    tokens (clean q) = q.map .letter := by
  have halef : ∀ c ∈ q, c ≠ '\u0627' := fun c hc halef =>
    not_mem_varied (h c hc) (halef ▸ by decide)
  rw [tokens_clean_eq_map (fun c hc => not_mem_signs_of_isSteady (h c hc))
    (.inl fun c hc => isVowel_of_isSteady (h c hc)) halef]
  exact List.map_congr_left fun c hc => ofLetter_of_isSteady (h c hc)

/-- Letters as they are do not look at what follows. -/
theorem isRegular_expression_letters (q : List Char) :
    (expression (q.map .letter)).isRegular = true := by
  simp [expression, Regex.isRegular_concat, Token.items, wildcard, Regex.letter, Regex.isRegular]

/-- What such a query is compiled to counts its text in the bare text, and gives no verse up. -/
theorem count_pattern_eq_occurrences {keyword : String} (hne : keyword.toList ≠ [])
    (h : ∀ c ∈ keyword.toList, isSteady c = true) (text : String) :
    (pattern keyword).count text = .ok (Text.occurrences keyword.toList (bare text.toList)) := by
  have htokens := tokens_clean_of_isSteady h
  have hregular : (expression (tokens (clean keyword.toList))).isRegular = true :=
    htokens ▸ isRegular_expression_letters keyword.toList
  rw [count_pattern, Pattern.unlessGivenUp_of_false
    (Pattern.givesUp_of_isRegular (matchers_pattern keyword) hregular text), htokens,
    count_expression_eq_occurrences hne (fun c hc => isFiller_of_isSteady (h c hc))]

/-- Marks do not affect plain letters: a query of spaces and of consonants with one spelling is
counted in a verse as its text is in the bare verse, so fillers in the verse make no difference.
Only a query of more than 3000 characters may be refused instead. -/
theorem counts_in_bare_text (keyword : String) (hne : keyword.toList ≠ [])
    (h : ∀ c ∈ keyword.toList, isSteady c = true) :
    (∃ p, Pattern.ofLetters nonConsonant keyword = .ok p ∧
      (∀ text : String,
        p.count text = .ok (Text.occurrences keyword.toList (bare text.toList))) ∧
      ∀ before fill after : String, (∀ c ∈ fill.toList, isFiller c = true) →
        p.count (before ++ fill ++ after) = p.count (before ++ after)) ∨
    (Pattern.ofLetters nonConsonant keyword = .error .tooLarge ∧ 3000 < keyword.toList.length) := by
  have hmark : '?' ∉ keyword.toList := fun hc => absurd (h '?' hc) (by decide)
  have htokens : tokens (clean keyword.toList) ≠ [] := by
    simpa [tokens_clean_of_isSteady h] using hne
  have hread := ofLetters_eq hmark htokens
  cases hfits : (expression (tokens (clean keyword.toList))).fits with
  | false =>
    refine .inr ⟨by rw [hread, hfits]; rfl, Nat.lt_of_not_le fun hle => ?_⟩
    rw [fits_of_length_le hle] at hfits
    cases hfits
  | true =>
    have hcount := count_pattern_eq_occurrences hne h
    refine .inl ⟨pattern keyword, by rw [hread, hfits]; rfl, hcount, ?_⟩
    intro before fill after hfill
    rw [hcount, hcount]
    simp only [String.toList_append, bare_append, bare_of_fillers hfill, List.append_nil]

/-- A qaf and a lam are counted once where a damma and a sukun are written on them. -/
theorem counts_qaf_lam : ∃ p, Pattern.ofLetters nonConsonant "\u0642\u0644" = .ok p ∧
    p.count "\u0642\u064F\u0644\u0652" = .ok 1 := by
  obtain ⟨p, hp, hcount, -⟩ := (counts_in_bare_text "\u0642\u0644" (by decide)
    (List.all_eq_true.1 (by decide))).resolve_right fun h => absurd h.2 (by decide)
  exact ⟨p, hp, (hcount _).trans (congrArg Except.ok (by decide))⟩

/-- Ten thousand qafs. -/
def qafs : String := String.ofList (List.replicate 10000 '\u0642')

theorem toList_qafs : qafs.toList = List.replicate 10000 '\u0642' := String.toList_ofList

theorem isSteady_of_mem_qafs (h : c ∈ qafs.toList) : isSteady c = true := by
  rw [toList_qafs] at h
  rw [List.eq_of_mem_replicate h]
  decide

/-- They are refused for their size, and so nothing counts them. -/
theorem not_counts_qafs : qafs.toList ≠ [] ∧ (∀ c ∈ qafs.toList, isSteady c = true) ∧
    Pattern.ofLetters nonConsonant qafs = .error .tooLarge ∧
    ¬ ∃ p, Pattern.ofLetters nonConsonant qafs = .ok p ∧
      ∀ text : String,
        p.count text = .ok (Text.occurrences qafs.toList (bare text.toList)) := by
  have hne : qafs.toList ≠ [] :=
    List.ne_nil_of_length_pos (by rw [toList_qafs, List.length_replicate]; decide)
  have hmark : '?' ∉ qafs.toList := fun hc => absurd (isSteady_of_mem_qafs hc) (by decide)
  have htokens : tokens (clean qafs.toList) = List.replicate 10000 (.letter '\u0642') := by
    rw [tokens_clean_of_isSteady fun c hc => isSteady_of_mem_qafs hc, toList_qafs,
      List.map_replicate]
  have hrefused : Pattern.ofLetters nonConsonant qafs = .error .tooLarge :=
    ofLetters_of_replicate (m := 1416) hmark htokens (by decide +kernel)
      (by rw [Regex.weightLimit]; omega) (by decide)
  refine ⟨hne, fun c hc => isSteady_of_mem_qafs hc, hrefused, ?_⟩
  rintro ⟨p, hp, -⟩
  rw [hrefused] at hp
  cases hp

end Letters

end VerseSearch
