import VerseSearch.Proofs.MarkUnits
import VerseSearch.Proofs.Reading
import VerseSearch.Proofs.Remainders
import VerseSearch.Query

/-!
# Scanning a word for marks

`scan` goes through a word from left to right, one character of the query at a time, and says what
is left of the word behind the marks. The expression of a mark query does the same: its items leave
what the scan leaves, in one way or in none (`rests_items`).
-/

set_option autoImplicit false

namespace VerseSearch.Marks

/-! ## The scan -/

/-- Behind one character that passes the test. -/
def scanMark (test : Char → Bool) : List Char → Option (List Char)
  | [] => none
  | m :: w => if test m then some w else none

/-- Behind a character that passes the test and the letter before it, if there is one. -/
def scanMarked (test : Char → Bool) : List Char → Option (List Char)
  | [] => none
  | l :: w => if isLetter l then scanMark test w else scanMark test (l :: w)

/-- Behind one letter with no mark on it. -/
def scanBare : List Char → Option (List Char)
  | [] => none
  | l :: w => if isLetter l && !w.head?.any isMark then some w else none

/-- Behind what one character of a query stands for. The flag says whether a shadda comes before it
in the query. -/
def scanUnit (attached : Bool) (c : Char) (w : List Char) : Option (List Char) :=
  if c = '-' then scanBare w
  else if c = '+' then (scanMarked isMark w).or (scanBare w)
  else if attached then scanMark (fun d => d = c) w
  else scanMarked (fun d => d = c) w

/-- What is left of a word behind the marks of a query. -/
def scan : Bool → List Char → List Char → Option (List Char)
  | _, [], w => some w
  | attached, c :: q, w => (scanUnit attached c w).bind (scan (c == '\u0651') q)

/-- The beginning of a word that a query marks, and the rest of the word. The rest must not go over
the end of a line. -/
def split? (q w : List Char) : Option (List Char × List Char) :=
  match scan false q w with
  | none => none
  | some rest => if '\n' ∈ rest then none else some (w.take (w.length - rest.length), rest)

variable {test : Char → Bool} {w rest : List Char}

theorem suffix_of_scanMark (h : scanMark test w = some rest) : rest <:+ w := by
  unfold scanMark at h
  split at h
  · cases h
  · split at h <;> cases h
    exact List.suffix_cons _ _

theorem suffix_of_scanMarked (h : scanMarked test w = some rest) : rest <:+ w := by
  unfold scanMarked at h
  split at h
  · cases h
  · split at h
    · exact (suffix_of_scanMark h).trans (List.suffix_cons _ _)
    · exact suffix_of_scanMark h

theorem suffix_of_scanBare (h : scanBare w = some rest) : rest <:+ w := by
  unfold scanBare at h
  split at h
  · cases h
  · split at h <;> cases h
    exact List.suffix_cons _ _

theorem suffix_of_scanUnit {attached : Bool} {c : Char} (h : scanUnit attached c w = some rest) :
    rest <:+ w := by
  unfold scanUnit at h
  split at h
  · exact suffix_of_scanBare h
  split at h
  · rcases Option.or_eq_some_iff.1 h with h | ⟨_, h⟩
    · exact suffix_of_scanMarked h
    · exact suffix_of_scanBare h
  split at h
  · exact suffix_of_scanMark h
  · exact suffix_of_scanMarked h

/-- What is left is an end of the word. -/
theorem suffix_of_scan {attached : Bool} {q : List Char} (h : scan attached q w = some rest) :
    rest <:+ w := by
  induction q generalizing attached w with
  | nil => exact Option.some.inj h ▸ List.suffix_refl w
  | cons c q ih =>
    obtain ⟨u, hu, hrest⟩ := Option.bind_eq_some_iff.1 h
    exact (ih hrest).trans (suffix_of_scanUnit hu)

theorem scan_of_split? {q first : List Char} (h : split? q w = some (first, rest)) :
    scan false q w = some rest ∧ '\n' ∉ rest := by
  unfold split? at h
  split at h
  · cases h
  · rename_i u hu
    split at h <;> cases h
    exact ⟨hu, ‹_›⟩

/-- The two parts of a word are the word. -/
theorem append_of_split? {q first : List Char} (h : split? q w = some (first, rest)) :
    first ++ rest = w := by
  unfold split? at h
  split at h
  · cases h
  · rename_i u hu
    split at h <;> cases h
    obtain ⟨before, rfl⟩ := suffix_of_scan hu
    simp

/-! ## The items of an expression -/

/-- The letters, as a set. -/
def letters : CharSet := .range '\u0621' '\u064A'

/-- The marks, as a set. -/
def marks : CharSet := .range '\u064B' '\u0652'

/-- A letter without a mark. -/
def bareItems : List Regex := [.one letters, .look true (.one (.complement marks))]

/-- A letter with a mark, a mark alone, or a letter without a mark, as a numbered group. -/
def anyItem (number : Nat) : Regex :=
  .group number (.choice [.concat [.alt (.one letters) .empty, .one marks], .concat bareItems])

/-- The items of one character of a query, where `n` groups are numbered before. -/
def unitItems (n : Nat) (attached : Bool) (c : Char) : List Regex :=
  if c = '-' then bareItems
  else if c = '+' then [anyItem (n + 1)]
  else if attached then [.letter c]
  else [.alt (.one letters) .empty, .letter c]

/-- The items of a query. -/
def items : Nat → Bool → List Char → List Regex
  | _, _, [] => []
  | n, attached, c :: q =>
    unitItems n attached c ++ items (if c = '+' then n + 1 else n) (c == '\u0651') q

/-! ## Reading the text of a query -/

theorem readsItem_letters (n : Nat) : ReadsItem 0 n consonant.toList (.one letters) n :=
  fun _ _ _ => rfl

theorem readsItem_marks (n : Nat) : ReadsItem 0 n mark.toList (.one marks) n := fun _ _ _ => rfl

theorem readsItem_notMarks (n : Nat) :
    ReadsItem 0 n notMark.toList (.one (.complement marks)) n := fun _ _ _ => rfl

theorem reads_optional (n : Nat) :
    Reads 0 n (consonant.toList ++ ['?']) [.alt (.one letters) .empty] n :=
  (readsItem_letters n).optional rfl

theorem reads_bare (n : Nat) : Reads 1 n (bare consonant.toList) bareItems n := by
  have hlook := (readsItem_notMarks n).reads.choices.look (List.cons_ne_nil _ _)
  exact ((readsItem_letters n).reads.mono (by decide)).append hlook.reads
    (startsItem_cons (by decide) _)

variable {n : Nat} {attached : Bool} {c : Char} {q : List Char}

/-- What a mark query keeps is a mark or one of the two wildcards. -/
theorem isMark_of_keepsInMarks (hc : Layer.keepsInMarks c = true) (hbare : c ≠ '-')
    (hany : c ≠ '+') : isMark c = true := by
  simpa [Layer.keepsInMarks, hbare, hany] using hc

/-- A mark stands for itself. -/
theorem isLiteral_of_isMark (h : isMark c = true) : isLiteral c = true := by
  have hmarks : operators.any isMark = false := by decide
  refine isLiteral_of_not_mem_operators ?_
  intro hc
  exact List.any_eq_false.1 hmarks c hc h

theorem startsItem_unit (hc : Layer.keepsInMarks c = true) :
    StartsItem (unit consonant.toList attached c) := by
  by_cases hbare : c = '-'
  · rw [hbare]
    exact startsItem_cons (by decide) _
  by_cases hany : c = '+'
  · rw [hany]
    exact startsItem_cons (by decide) _
  rw [unit, if_neg hbare, if_neg hany]
  cases attached with
  | true => exact startsItem_letter (isLiteral_of_isMark (isMark_of_keepsInMarks hc hbare hany))
  | false => exact startsItem_cons (by decide) _

/-- The text of a character of a query is read as its items. -/
theorem reads_unit (hc : Layer.keepsInMarks c = true) :
    Reads 2 n (unit consonant.toList attached c) (unitItems n attached c)
      (if c = '+' then n + 1 else n) := by
  by_cases hbare : c = '-'
  · rw [hbare]
    exact (reads_bare n).mono (by decide)
  by_cases hany : c = '+'
  · rw [hany]
    have hmarked := (reads_optional (n + 1)).append (readsItem_marks (n + 1)).reads
      (startsItem_cons (by decide) _)
    have hchoices := (hmarked.mono (by decide)).bar (reads_bare (n + 1)).choices
    have hgroup := hchoices.capture (List.cons_ne_nil _ _) (startsItem_cons (by decide) _)
    exact hgroup.reads
  · have hlit := isLiteral_of_isMark (isMark_of_keepsInMarks hc hbare hany)
    rw [if_neg hany, unit, unitItems, if_neg hbare, if_neg hbare, if_neg hany, if_neg hany]
    cases attached with
    | true => exact (readsItem_letter hlit).reads.mono (by decide)
    | false =>
      have hmark := (reads_optional n).append (readsItem_letter hlit).reads (startsItem_letter hlit)
      exact hmark.mono (by decide)

/-- The text of a query is read as its items. Each `+` numbers a group. -/
theorem reads_units (hq : ∀ c ∈ q, Layer.keepsInMarks c = true) (n : Nat) (attached : Bool) :
    Reads 2 n (units consonant.toList attached q) (items n attached q) (n + q.count '+') ∧
      StartsItem (units consonant.toList attached q) := by
  induction q generalizing n attached with
  | nil => exact ⟨.nil, startsItem_nil⟩
  | cons c q ih =>
    obtain ⟨hc, hq⟩ := List.forall_mem_cons.1 hq
    have hcount : n + (c :: q).count '+' = (if c = '+' then n + 1 else n) + q.count '+' := by
      rw [List.count_cons]
      by_cases hany : c = '+'
      · simp [hany]
        omega
      · simp [hany]
    obtain ⟨hreads, hstarts⟩ := ih hq (if c = '+' then n + 1 else n) (c == '\u0651')
    rw [hcount]
    exact ⟨(reads_unit hc).append hreads hstarts, (startsItem_unit hc).append hstarts⟩

/-! ## What the items leave -/

/-- No letter is a mark. -/
theorem isMark_of_isLetter (h : isLetter c = true) : isMark c = false := by
  simp only [isLetter, Bool.and_eq_true, decide_eq_true_eq] at h
  simp only [isMark, Bool.and_eq_false_iff, decide_eq_false_iff_not]
  exact .inl fun hle => absurd (Char.le_trans hle h.2) (by decide)

theorem contains_letters (c : Char) : letters.contains c = isLetter c := rfl

theorem contains_marks (c : Char) : marks.contains c = isMark c := rfl

variable {set : CharSet} {more : List Char}

/-- What is left of a word, with what is behind the word. -/
def behind (more : List Char) (left : Option (List Char)) : List (List Char) :=
  left.toList.map fun rest => rest ++ ' ' :: more

@[simp] theorem behind_none : behind more none = [] := rfl

@[simp] theorem behind_some : behind more (some rest) = [rest ++ ' ' :: more] := rfl

theorem rests_one (more : List Char) (hspace : set.contains ' ' = false) (w : List Char) :
    (Regex.one set).rests (w ++ ' ' :: more) = behind more (scanMark set.contains w) := by
  cases w with
  | nil => simp [scanMark, hspace]
  | cons m w =>
    rw [List.cons_append, Regex.rests_one_cons, scanMark]
    split <;> rfl

theorem rests_marked (more : List Char) (hspace : set.contains ' ' = false)
    (hletter : ∀ c, isLetter c = true → set.contains c = false) (w : List Char) :
    (Regex.concat [.alt (.one letters) .empty, .one set]).rests (w ++ ' ' :: more) =
      behind more (scanMarked set.contains w) := by
  rw [Regex.rests_concat_cons, Regex.rests_alt, Regex.rests_empty]
  show List.flatMap (Regex.one set).rests _ = _
  cases w with
  | nil =>
    have hno : letters.contains ' ' = false := by decide
    simp [scanMarked, hno, hspace]
  | cons l w =>
    have hset := rests_one more hspace
    rw [List.cons_append, Regex.rests_one_cons, contains_letters, scanMarked]
    by_cases hl : isLetter l = true
    · -- the letter cannot be the mark itself
      have hself : (Regex.one set).rests (l :: (w ++ ' ' :: more)) = [] := by
        rw [Regex.rests_one_cons, hletter l hl]
        rfl
      rw [if_pos hl, if_pos hl, List.flatMap_append, List.flatMap_singleton, List.flatMap_singleton,
        hself, List.append_nil]
      exact hset w
    · rw [if_neg hl, if_neg hl, List.nil_append, List.flatMap_singleton]
      exact hset (l :: w)

theorem rests_bareItems (w : List Char) :
    (Regex.concat bareItems).rests (w ++ ' ' :: more) = behind more (scanBare w) := by
  rw [bareItems, Regex.rests_concat_cons]
  show List.flatMap (Regex.look true (.one (.complement marks))).rests _ = _
  cases w with
  | nil =>
    have hno : letters.contains ' ' = false := by decide
    simp [scanBare, hno]
  | cons l w =>
    have hlook : (Regex.look true (.one (.complement marks))).rests (w ++ ' ' :: more) =
        if w.head?.any isMark then [] else [w ++ ' ' :: more] := by
      have hspace : marks.contains ' ' = false := by decide
      rw [Regex.rests_look]
      cases w with
      | nil => simp [CharSet.contains, hspace]
      | cons d w =>
        cases h : isMark d <;> simp [CharSet.contains, contains_marks, h]
    rw [List.cons_append, Regex.rests_one_cons, contains_letters, scanBare]
    by_cases hl : isLetter l = true
    · rw [if_pos hl, List.flatMap_singleton, hlook, hl]
      cases w.head?.any isMark <;> rfl
    · simp [hl]

/-- What carries a mark is no letter without one. -/
theorem scanBare_of_scanMarked (h : scanMarked isMark w = some rest) : scanBare w = none := by
  cases w with
  | nil => rfl
  | cons l w =>
    cases hl : isLetter l with
    | false => simp [scanBare, hl]
    | true =>
      rw [scanMarked, if_pos hl] at h
      cases w with
      | nil => cases h
      | cons m w =>
        cases hm : isMark m with
        | false => simp [scanMark, hm] at h
        | true => simp [scanBare, hm]

/-- A character of a query leaves what the scan leaves. -/
theorem rests_unitItems (hc : Layer.keepsInMarks c = true) (w : List Char) :
    (Regex.concat (unitItems n attached c)).rests (w ++ ' ' :: more) =
      behind more (scanUnit attached c w) := by
  unfold unitItems scanUnit
  by_cases hbare : c = '-'
  · rw [if_pos hbare, if_pos hbare]
    exact rests_bareItems w
  rw [if_neg hbare, if_neg hbare]
  by_cases hany : c = '+'
  · rw [if_pos hany, if_pos hany]
    show (anyItem (n + 1)).rests _ = _
    rw [anyItem, Regex.rests_group, Regex.choice, Regex.rests_alt,
      rests_marked more (by decide) (fun _ => isMark_of_isLetter)]
    show behind more (scanMarked isMark w) ++ (Regex.concat bareItems).rests _ = _
    rw [rests_bareItems]
    cases hmarked : scanMarked isMark w with
    | none => rfl
    | some rest => rw [scanBare_of_scanMarked hmarked, behind_none, List.append_nil, Option.some_or]
  rw [if_neg hany, if_neg hany]
  have hmark := isMark_of_keepsInMarks hc hbare hany
  have hset : (CharSet.only c).contains = fun d => decide (d = c) :=
    funext fun d => CharSet.contains_only c d
  have hspace : (CharSet.only c).contains ' ' = false := by
    rw [CharSet.contains_only, decide_eq_false_iff_not]
    rintro rfl
    cases hmark
  cases attached with
  | true =>
    have hone := rests_one more hspace w
    rw [hset] at hone
    exact hone
  | false =>
    have hletter : ∀ d, isLetter d = true → (CharSet.only c).contains d = false := by
      intro d hd
      rw [CharSet.contains_only, decide_eq_false_iff_not]
      rintro rfl
      rw [isMark_of_isLetter hd] at hmark
      cases hmark
    have hmarked := rests_marked more hspace hletter w
    rw [hset] at hmarked
    exact hmarked

/-- The items of a query leave what the scan leaves, in one way or in none. -/
theorem rests_items (hq : ∀ c ∈ q, Layer.keepsInMarks c = true) (w : List Char) :
    (Regex.concat (items n attached q)).rests (w ++ ' ' :: more) =
      behind more (scan attached q w) := by
  induction q generalizing n attached w with
  | nil => rfl
  | cons c q ih =>
    obtain ⟨hc, hq⟩ := List.forall_mem_cons.1 hq
    rw [items, Regex.rests_concat_append, rests_unitItems hc, scan]
    cases scanUnit attached c w with
    | none => rfl
    | some rest => exact (List.flatMap_singleton _ _).trans (ih hq rest)

/-- At the end of a text there are no marks. -/
theorem rests_unitItems_nil : (Regex.concat (unitItems n attached c)).rests [] = [] := by
  unfold unitItems
  split
  · rfl
  split
  · rfl
  split <;> rfl

theorem rests_items_nil (hne : q ≠ []) :
    (Regex.concat (items n attached q)).rests [] = [] := by
  obtain ⟨c, q, rfl⟩ := List.exists_cons_of_ne_nil hne
  rw [items, Regex.rests_concat_append, rests_unitItems_nil]
  rfl

end VerseSearch.Marks
