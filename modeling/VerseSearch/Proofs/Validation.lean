import Mathlib.Data.List.Chain
import VerseSearch.Query

/-!
# What validation makes canonical

A validated letter query holds only characters that a letter query has a use for, and a second
validation makes it what validation makes of the text without its other characters
(`validate_validate_letters`). The first validation is not always that far: a discarded character
ends a run of blanks, so where discarded characters stand between two blanks, two spaces are left
side by side. `validate_fixed_iff` says that this is the only way in which validation can fall
short.
-/

set_option autoImplicit false

namespace VerseSearch

/-! ## Digits -/

namespace Numeral

/-- A digit of a value below ten in the Arabic-Indic row. -/
theorem arabicIndic_row {d : Nat} (h : d < 10) :
    Text.isBlank (Char.ofNat (arabicIndicZero + d)) = false ∧
      isDigit (Char.ofNat (arabicIndicZero + d)) = true ∧
      asciiDigit? (Char.ofNat (arabicIndicZero + d)) = none := by
  have hrow : (List.range 10).all (fun d =>
      !Text.isBlank (Char.ofNat (arabicIndicZero + d)) &&
        isDigit (Char.ofNat (arabicIndicZero + d)) &&
        (asciiDigit? (Char.ofNat (arabicIndicZero + d))).isNone) = true := by decide
  have hd := List.all_eq_true.1 hrow d (List.mem_range.2 h)
  simpa [and_assoc] using hd

theorem asciiDigit?_eq_some {c : Char} {d : Nat} (h : asciiDigit? c = some d) :
    d < 10 ∧ Text.isBlank c = false ∧ isDigit c = true := by
  have hdigit : isDigit c = true := by simp [isDigit, digit?, h]
  unfold asciiDigit? at h
  split at h
  · rename_i hc
    have hlow : 48 ≤ c.toNat := hc.1
    have hhigh : c.toNat ≤ 57 := hc.2
    cases h
    have htable : (List.range 10).all (fun d => !Text.isBlank (Char.ofNat (48 + d))) = true := by
      decide
    have hblank := List.all_eq_true.1 htable (c.toNat - 48) (List.mem_range.2 (by omega))
    have hc : Char.ofNat (48 + (c.toNat - 48)) = c := by
      rw [Nat.add_sub_cancel' hlow, Char.ofNat_toNat]
    rw [hc] at hblank
    exact ⟨by omega, by simpa using hblank, hdigit⟩
  · cases h

/-- Writing a digit in the other row is all that can happen to a character. -/
theorem arabicIndicChar_cases (c : Char) :
    arabicIndicChar c = c ∨
      ∃ d < 10, asciiDigit? c = some d ∧ arabicIndicChar c = Char.ofNat (arabicIndicZero + d) := by
  unfold arabicIndicChar
  split
  · rename_i d h
    exact .inr ⟨d, (asciiDigit?_eq_some h).1, h, rfl⟩
  · exact .inl rfl

@[simp] theorem isBlank_arabicIndicChar (c : Char) :
    Text.isBlank (arabicIndicChar c) = Text.isBlank c := by
  rcases arabicIndicChar_cases c with h | ⟨d, hd, hc, h⟩
  · rw [h]
  · rw [h, (arabicIndic_row hd).1, (asciiDigit?_eq_some hc).2.1]

@[simp] theorem isDigit_arabicIndicChar (c : Char) :
    isDigit (arabicIndicChar c) = isDigit c := by
  rcases arabicIndicChar_cases c with h | ⟨d, hd, hc, h⟩
  · rw [h]
  · rw [h, (arabicIndic_row hd).2.1, (asciiDigit?_eq_some hc).2.2]

theorem asciiDigit?_arabicIndicChar (c : Char) : asciiDigit? (arabicIndicChar c) = none := by
  cases hc : asciiDigit? c with
  | none => simp [arabicIndicChar, hc]
  | some d =>
    have hd := (asciiDigit?_eq_some hc).1
    simp [arabicIndicChar, hc, (arabicIndic_row hd).2.2]

theorem arabicIndicChar_arabicIndicChar (c : Char) :
    arabicIndicChar (arabicIndicChar c) = arabicIndicChar c := by
  rw [arabicIndicChar.eq_1 (arabicIndicChar c), asciiDigit?_arabicIndicChar]

/-- Digits that are written in the second row are left there. -/
theorem toArabicIndic_toArabicIndic (s : List Char) :
    toArabicIndic (toArabicIndic s) = toArabicIndic s := by
  simp [toArabicIndic, arabicIndicChar_arabicIndicChar]

end Numeral

namespace Layer

open Numeral (arabicIndicChar toArabicIndic arabicIndicChar_cases arabicIndic_row
  asciiDigit?_eq_some)

/-! ## Characters of a letter query -/

/-- A character that validation of a letter query does not discard. -/
def isUseful (c : Char) : Bool := Text.isBlank c || keepsInLetters c

@[simp] theorem keepsInLetters_arabicIndicChar (c : Char) :
    keepsInLetters (arabicIndicChar c) = keepsInLetters c := by
  rcases arabicIndicChar_cases c with h | ⟨d, hd, hc, h⟩
  · rw [h]
  · rw [h]
    simp [keepsInLetters, (arabicIndic_row hd).2.1, (asciiDigit?_eq_some hc).2.2]

theorem arabicIndicChar_eq_space_iff {c : Char} : arabicIndicChar c = ' ' ↔ c = ' ' := by
  rcases arabicIndicChar_cases c with h | ⟨d, hd, hc, h⟩
  · rw [h]
  · constructor
    · intro hspace
      have hblank := (arabicIndic_row hd).1
      rw [← h, hspace] at hblank
      cases hblank
    · rintro rfl
      cases hc

theorem ne_space_of_keepsInLetters {c : Char} (h : keepsInLetters c = true) : c ≠ ' ' := by
  rintro rfl
  cases h

/-! ## One step of collapsing -/

variable {afterBlank : Bool} {c : Char} {s : List Char}

theorem collapse_blank_cons (h : Text.isBlank c = true) :
    collapse afterBlank (c :: s) =
      if afterBlank then collapse true s else ' ' :: collapse true s := by
  rw [collapse, if_pos h]

theorem collapse_kept_cons (hb : Text.isBlank c = false) (h : keepsInLetters c = true) :
    collapse afterBlank (c :: s) = c :: collapse false s := by
  rw [collapse, hb, if_neg Bool.false_ne_true, if_pos h]

theorem collapse_discarded_cons (h : isUseful c = false) :
    collapse afterBlank (c :: s) = collapse false s := by
  obtain ⟨hb, hk⟩ := Bool.or_eq_false_iff.1 h
  rw [collapse, hb, hk, if_neg Bool.false_ne_true, if_neg Bool.false_ne_true]

/-- A character is blank, kept or discarded. -/
theorem blank_or_kept_or_discarded (c : Char) :
    Text.isBlank c = true ∨ (Text.isBlank c = false ∧ keepsInLetters c = true) ∨
      isUseful c = false := by
  cases hb : Text.isBlank c <;> cases hk : keepsInLetters c <;> simp [isUseful, hb, hk]

/-- What is left was kept, or is a space. -/
theorem mem_collapse {d : Char} (h : d ∈ collapse afterBlank s) :
    d = ' ' ∨ (Text.isBlank d = false ∧ keepsInLetters d = true) := by
  induction s generalizing afterBlank with
  | nil => simp at h
  | cons c s ih =>
    rcases blank_or_kept_or_discarded c with hc | ⟨hb, hk⟩ | hc
    · rw [collapse_blank_cons hc] at h
      split at h
      · exact ih h
      · rcases List.mem_cons.1 h with rfl | h
        · exact .inl rfl
        · exact ih h
    · rw [collapse_kept_cons hb hk] at h
      rcases List.mem_cons.1 h with rfl | h
      · exact .inr ⟨hb, hk⟩
      · exact ih h
    · rw [collapse_discarded_cons hc] at h
      exact ih h

/-- The row in which digits are written makes no difference to collapsing. -/
theorem collapse_toArabicIndic (afterBlank : Bool) (s : List Char) :
    collapse afterBlank (toArabicIndic s) = toArabicIndic (collapse afterBlank s) := by
  induction s generalizing afterBlank with
  | nil => simp
  | cons c s ih =>
    have hspace : arabicIndicChar ' ' = ' ' := arabicIndicChar_eq_space_iff.2 rfl
    rw [Numeral.toArabicIndic_cons]
    rcases blank_or_kept_or_discarded c with hc | ⟨hb, hk⟩ | hc
    · rw [collapse_blank_cons hc, collapse_blank_cons (by simpa using hc), ih]
      cases afterBlank <;> simp [hspace]
    · rw [collapse_kept_cons hb hk, collapse_kept_cons (by simpa using hb) (by simpa using hk), ih,
        Numeral.toArabicIndic_cons]
    · have hc' : isUseful (arabicIndicChar c) = false := by simpa [isUseful] using hc
      rw [collapse_discarded_cons hc, collapse_discarded_cons hc', ih]

/-! ## Spaces side by side -/

/-- No two spaces stand side by side. -/
def SpacesApart (s : List Char) : Prop := s.IsChain fun c d => ¬(c = ' ' ∧ d = ' ')

instance (s : List Char) : Decidable (SpacesApart s) :=
  inferInstanceAs (Decidable (List.IsChain _ s))

theorem spacesApart_cons_of_ne (h : c ≠ ' ') : SpacesApart (c :: s) ↔ SpacesApart s := by
  rw [SpacesApart, List.isChain_cons]
  simp [SpacesApart, h]

theorem spacesApart_space_cons :
    SpacesApart (' ' :: s) ↔ s.head? ≠ some ' ' ∧ SpacesApart s := by
  rw [SpacesApart, List.isChain_cons]
  refine and_congr ?_ Iff.rfl
  cases s with
  | nil => simp
  | cons d s => simp

theorem spacesApart_toArabicIndic : SpacesApart (toArabicIndic s) ↔ SpacesApart s := by
  rw [SpacesApart, toArabicIndic, List.isChain_map]
  simp only [arabicIndicChar_eq_space_iff]
  rfl

/-- A text without discarded characters has its spaces apart afterwards. -/
theorem spacesApart_collapse_of_useful (h : ∀ c ∈ s, isUseful c = true) :
    SpacesApart (collapse false s) ∧ SpacesApart (' ' :: collapse true s) := by
  induction s with
  | nil => exact ⟨by decide, by decide⟩
  | cons c s ih =>
    obtain ⟨hc, hs⟩ := List.forall_mem_cons.1 h
    obtain ⟨hplain, hafter⟩ := ih hs
    rcases blank_or_kept_or_discarded c with hb | ⟨hb, hk⟩ | hd
    · rw [collapse_blank_cons hb, collapse_blank_cons hb]
      exact ⟨hafter, hafter⟩
    · have hne := ne_space_of_keepsInLetters hk
      rw [collapse_kept_cons hb hk, collapse_kept_cons hb hk, spacesApart_space_cons,
        spacesApart_cons_of_ne hne]
      exact ⟨hplain, by simpa using hne, hplain⟩
    · rw [hc] at hd
      cases hd

/-- A text that holds nothing to discard, and whose spaces stand apart, is left as it is. -/
theorem collapse_eq_self
    (hs : ∀ c ∈ s, c = ' ' ∨ (Text.isBlank c = false ∧ keepsInLetters c = true)) :
    (SpacesApart s → collapse false s = s) ∧
      (SpacesApart (' ' :: s) → collapse true s = s) := by
  induction s with
  | nil => exact ⟨fun _ => rfl, fun _ => rfl⟩
  | cons c s ih =>
    obtain ⟨hc, hs⟩ := List.forall_mem_cons.1 hs
    obtain ⟨hplain, hafter⟩ := ih hs
    rcases hc with rfl | ⟨hb, hk⟩
    · refine ⟨fun h => ?_, fun h => absurd rfl (spacesApart_space_cons.1 h).1⟩
      rw [collapse_blank_cons Text.isBlank_space, if_neg Bool.false_ne_true, hafter h]
    · have hne := ne_space_of_keepsInLetters hk
      have hrest : SpacesApart (c :: s) → collapse false s = s :=
        fun h => hplain ((spacesApart_cons_of_ne hne).1 h)
      refine ⟨fun h => ?_, fun h => ?_⟩
      · rw [collapse_kept_cons hb hk, hrest h]
      · rw [collapse_kept_cons hb hk, hrest (spacesApart_space_cons.1 h).2]

/-- Collapsing twice is collapsing once what is not discarded. The second time remembers a blank
wherever the first time does. -/
theorem collapse_collapse {b f : Bool} (h : b = true → f = true) (s : List Char) :
    collapse f (collapse b s) = collapse f (s.filter isUseful) := by
  induction s generalizing b f with
  | nil => simp
  | cons c s ih =>
    rcases blank_or_kept_or_discarded c with hc | ⟨hb, hk⟩ | hc
    · have huseful : isUseful c = true := by simp [isUseful, hc]
      have hafter := ih (b := true) (f := true) id
      rw [List.filter_cons_of_pos huseful, collapse_blank_cons hc, collapse_blank_cons hc]
      cases b with
      | true =>
        rw [h rfl]
        exact hafter
      | false =>
        rw [if_neg Bool.false_ne_true, collapse_blank_cons Text.isBlank_space, hafter]
    · have huseful : isUseful c = true := by simp [isUseful, hk]
      rw [List.filter_cons_of_pos huseful, collapse_kept_cons hb hk, collapse_kept_cons hb hk,
        collapse_kept_cons hb hk, ih id]
    · rw [List.filter_cons_of_neg (by simpa using hc), collapse_discarded_cons hc]
      exact ih Bool.false_ne_true.elim

/-! ## Discarded characters between blanks -/

/-- Somewhere discarded characters, and nothing else, stand between two blanks. -/
def SplitsBlanks (raw : List Char) : Prop :=
  ∃ before b discarded b' after, raw = before ++ b :: (discarded ++ b' :: after) ∧
    Text.isBlank b = true ∧ Text.isBlank b' = true ∧ discarded ≠ [] ∧
    ∀ d ∈ discarded, isUseful d = false

theorem SplitsBlanks.cons (h : SplitsBlanks s) (c : Char) : SplitsBlanks (c :: s) := by
  obtain ⟨before, b, discarded, b', after, rfl, hall⟩ := h
  exact ⟨c :: before, b, discarded, b', after, rfl, hall⟩

/-- It does not matter which blank a text begins with. -/
theorem SplitsBlanks.change_blank {d : Char} (h : SplitsBlanks (c :: s))
    (hd : Text.isBlank d = true) : SplitsBlanks (d :: s) := by
  obtain ⟨before, b, discarded, b', after, heq, hb, hb', hne, hall⟩ := h
  cases before with
  | nil => exact ⟨[], d, discarded, b', after, congrArg (d :: ·) (List.cons.inj heq).2, hd, hb', hne,
      hall⟩
  | cons e before =>
    exact ⟨d :: before, b, discarded, b', after, congrArg (d :: ·) (List.cons.inj heq).2, hb, hb',
      hne, hall⟩

/-- What is left begins with a space only if nothing but discarded characters stands before a
blank. -/
theorem exists_discarded_of_head? (h : (collapse false s).head? = some ' ') :
    ∃ discarded b after, s = discarded ++ b :: after ∧ Text.isBlank b = true ∧
      ∀ d ∈ discarded, isUseful d = false := by
  induction s with
  | nil => simp at h
  | cons c s ih =>
    rcases blank_or_kept_or_discarded c with hc | ⟨hb, hk⟩ | hc
    · exact ⟨[], c, s, rfl, hc, fun _ hd => nomatch hd⟩
    · rw [collapse_kept_cons hb hk] at h
      exact absurd (Option.some.inj h) (ne_space_of_keepsInLetters hk)
    · rw [collapse_discarded_cons hc] at h
      obtain ⟨discarded, b, after, rfl, hb, hall⟩ := ih h
      exact ⟨c :: discarded, b, after, rfl, hb, List.forall_mem_cons.2 ⟨hc, hall⟩⟩

/-- Where no blanks are split the spaces stand apart afterwards. -/
theorem spacesApart_collapse_of_not_splits :
    (¬SplitsBlanks s → SpacesApart (collapse false s)) ∧
      (¬SplitsBlanks (' ' :: s) → SpacesApart (' ' :: collapse true s)) := by
  induction s with
  | nil => exact ⟨fun _ => by decide, fun _ => by decide⟩
  | cons c s ih =>
    obtain ⟨hplain, hafter⟩ := ih
    rcases blank_or_kept_or_discarded c with hc | ⟨hb, hk⟩ | hc
    · have hrest : ¬SplitsBlanks (c :: s) → SpacesApart (' ' :: collapse true s) :=
        fun h => hafter fun hs => h (hs.change_blank hc)
      rw [collapse_blank_cons hc, collapse_blank_cons hc]
      exact ⟨hrest, fun h => hrest fun hs => h (hs.cons ' ')⟩
    · have hne := ne_space_of_keepsInLetters hk
      have hrest : ¬SplitsBlanks (c :: s) → SpacesApart (c :: collapse false s) :=
        fun h => (spacesApart_cons_of_ne hne).2 (hplain fun hs => h (hs.cons c))
      rw [collapse_kept_cons hb hk, collapse_kept_cons hb hk]
      refine ⟨hrest, fun h => spacesApart_space_cons.2 ⟨by simpa using hne, ?_⟩⟩
      exact hrest fun hs => h (hs.cons ' ')
    · have hrest : ¬SplitsBlanks (c :: s) → SpacesApart (collapse false s) :=
        fun h => hplain fun hs => h (hs.cons c)
      rw [collapse_discarded_cons hc, collapse_discarded_cons hc]
      refine ⟨hrest, fun h => spacesApart_space_cons.2 ⟨fun hhead => ?_, ?_⟩⟩
      · obtain ⟨discarded, b, after, rfl, hb, hall⟩ := exists_discarded_of_head? hhead
        exact h ⟨[], ' ', c :: discarded, b, after, rfl, Text.isBlank_space, hb,
          List.cons_ne_nil _ _, List.forall_mem_cons.2 ⟨hc, hall⟩⟩
      · exact hrest fun hs => h (hs.cons ' ')

/-- Discarded characters and then a blank leave a space. -/
theorem collapse_discarded_append {discarded : List Char} (hne : discarded ≠ [])
    (h : ∀ d ∈ discarded, isUseful d = false) :
    collapse afterBlank (discarded ++ s) = collapse false s := by
  induction discarded generalizing afterBlank with
  | nil => exact absurd rfl hne
  | cons d discarded ih =>
    obtain ⟨hd, hrest⟩ := List.forall_mem_cons.1 h
    rw [List.cons_append, collapse_discarded_cons hd]
    cases discarded with
    | nil => rfl
    | cons e discarded => exact ih (List.cons_ne_nil _ _) hrest

/-- Where blanks are split two spaces stand side by side afterwards. -/
theorem not_spacesApart_collapse {before discarded after : List Char} {b b' : Char}
    (hb : Text.isBlank b = true) (hb' : Text.isBlank b' = true) (hne : discarded ≠ [])
    (hall : ∀ d ∈ discarded, isUseful d = false) :
    let s := before ++ b :: (discarded ++ b' :: after)
    ¬SpacesApart (collapse false s) ∧ ¬SpacesApart (' ' :: collapse true s) := by
  intro s
  subst s
  induction before with
  | nil =>
    have htwo : ¬SpacesApart (' ' :: collapse true (discarded ++ b' :: after)) := by
      rw [collapse_discarded_append hne hall, collapse_blank_cons hb', if_neg Bool.false_ne_true,
        spacesApart_space_cons]
      exact fun h => h.1 rfl
    rw [List.nil_append, collapse_blank_cons hb, collapse_blank_cons hb]
    exact ⟨htwo, htwo⟩
  | cons c before ih =>
    obtain ⟨hplain, hafter⟩ := ih
    rw [List.cons_append]
    rcases blank_or_kept_or_discarded c with hc | ⟨hcb, hk⟩ | hc
    · rw [collapse_blank_cons hc, collapse_blank_cons hc]
      exact ⟨hafter, hafter⟩
    · have htwo := mt (spacesApart_cons_of_ne (ne_space_of_keepsInLetters hk)).1 hplain
      rw [collapse_kept_cons hcb hk, collapse_kept_cons hcb hk]
      exact ⟨htwo, fun h => htwo (spacesApart_space_cons.1 h).2⟩
    · rw [collapse_discarded_cons hc, collapse_discarded_cons hc]
      exact ⟨hplain, fun h => hplain (spacesApart_space_cons.1 h).2⟩

/-- Spaces stand apart afterwards exactly if no blanks are split. -/
theorem spacesApart_collapse_iff : SpacesApart (collapse false s) ↔ ¬SplitsBlanks s := by
  constructor
  · rintro h ⟨before, b, discarded, b', after, rfl, hb, hb', hne, hall⟩
    exact (not_spacesApart_collapse hb hb' hne hall).1 h
  · exact spacesApart_collapse_of_not_splits.1

/-! ## Validation -/

theorem spacesApart_validate_iff : SpacesApart (validate .letters s) ↔ ¬SplitsBlanks s :=
  spacesApart_toArabicIndic.trans spacesApart_collapse_iff

/-- Validating a letter query twice is validating it once without what is discarded. -/
theorem validate_validate_letters (raw : List Char) :
    validate .letters (validate .letters raw) = validate .letters (raw.filter isUseful) := by
  simp only [validate]
  rw [collapse_toArabicIndic, Numeral.toArabicIndic_toArabicIndic,
    collapse_collapse Bool.false_ne_true.elim]

/-- A letter query is canonical after the first validation exactly if its spaces stand apart then.
-/
theorem validate_validate_letters_eq_iff (raw : List Char) :
    validate .letters (validate .letters raw) = validate .letters raw ↔
      SpacesApart (validate .letters raw) := by
  constructor
  · intro h
    rw [← h, validate_validate_letters, validate, spacesApart_toArabicIndic]
    exact (spacesApart_collapse_of_useful fun c hc => (List.mem_filter.1 hc).2).1
  · intro h
    have hself := (collapse_eq_self fun _ => mem_collapse).1 (spacesApart_toArabicIndic.1 h)
    simp only [validate]
    rw [collapse_toArabicIndic, Numeral.toArabicIndic_toArabicIndic, hself]

/-- A character of a validated letter query is a space, a colon, a letter or mark, or an
Arabic-Indic digit. -/
theorem mem_validate_letters {raw : List Char} {c : Char} (h : c ∈ validate .letters raw) :
    c = ' ' ∨ c = ':' ∨ ('\u0621' ≤ c ∧ c ≤ '\u0652') ∨ ('\u0660' ≤ c ∧ c ≤ '\u0669') := by
  obtain ⟨d, hd, rfl⟩ := List.mem_map.1 h
  rcases mem_collapse hd with rfl | ⟨_, hk⟩
  · exact .inl (arabicIndicChar_eq_space_iff.2 rfl)
  · have hnone := Numeral.asciiDigit?_arabicIndicChar d
    rw [← keepsInLetters_arabicIndicChar] at hk
    generalize arabicIndicChar d = c at hk hnone ⊢
    simp only [keepsInLetters, isLetter, isMark, Numeral.isDigit, Numeral.digit?, hnone,
      Bool.or_eq_true, Bool.and_eq_true, decide_eq_true_eq, beq_iff_eq] at hk
    rcases hk with ((⟨hlow, hhigh⟩ | ⟨hlow, hhigh⟩) | hdigit) | hcolon
    · exact .inr (.inr (.inl ⟨hlow, Char.le_trans hhigh (by decide)⟩))
    · exact .inr (.inr (.inl ⟨Char.le_trans (by decide) hlow, hhigh⟩))
    · refine .inr (.inr (.inr ?_))
      by_cases hrow : '\u0660' ≤ c ∧ c ≤ '\u0669'
      · exact hrow
      · simp [Numeral.arabicIndicDigit?, hrow] at hdigit
    · exact .inr (.inl hcolon)

/-- How far validation makes a text canonical. A mark query is left as it is by a second validation,
and a validated letter query holds letters, marks, Arabic-Indic digits, colons and spaces only. A
second validation of a letter query leads to what validation makes of the text without its discarded
characters. The first one is already that far, and its spaces stand apart, exactly if nowhere
discarded characters stand between two blanks. -/
theorem validate_fixed_iff (raw : List Char) :
    validate .marks (validate .marks raw) = validate .marks raw ∧
      (∀ c ∈ validate .letters raw, c = ' ' ∨ c = ':' ∨ ('\u0621' ≤ c ∧ c ≤ '\u0652') ∨
        ('\u0660' ≤ c ∧ c ≤ '\u0669')) ∧
      validate .letters (validate .letters raw) = validate .letters (raw.filter isUseful) ∧
      (validate .letters (validate .letters raw) = validate .letters raw ↔ ¬SplitsBlanks raw) ∧
      (SpacesApart (validate .letters raw) ↔ ¬SplitsBlanks raw) ∧
      (validate .letters raw = validate .letters (raw.filter isUseful) ↔ ¬SplitsBlanks raw) := by
  have hfixed := (validate_validate_letters_eq_iff raw).trans spacesApart_validate_iff
  refine ⟨validate_marks_validate_marks raw, fun c => mem_validate_letters,
    validate_validate_letters raw, hfixed, spacesApart_validate_iff, ?_⟩
  rw [← validate_validate_letters, eq_comm]
  exact hfixed

/-- Two letters with a Latin letter between them, and a blank on either side of it: two spaces are
left, a second validation takes one of them away, and so does leaving the Latin letter out. -/
theorem validate_latin_between_blanks :
    let raw := ['\u0628', ' ', 'x', ' ', '\u0628']
    validate .letters raw = ['\u0628', ' ', ' ', '\u0628'] ∧
      validate .letters (validate .letters raw) = ['\u0628', ' ', '\u0628'] ∧
      validate .letters (raw.filter isUseful) = ['\u0628', ' ', '\u0628'] ∧
      ¬SpacesApart (validate .letters raw) := by decide

end Layer

end VerseSearch
