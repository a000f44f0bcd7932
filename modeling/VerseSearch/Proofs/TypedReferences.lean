import Mathlib.Data.List.TakeWhile
import VerseSearch.Proofs.Finding

/-!
# What a typed reference is read as

A reference is typed with blanks around its parts, with digits of either row and with leading
zeros. Validation writes the blanks as spaces and the digits in one row, and reading trims the
parts, so numerals are read as if they had been typed alone (`Query.ofInput_of_numerals`). A plain
name with a number, which is how references are shown, is left as it is (`Query.ofInput_of_name`).
-/

set_option autoImplicit false

namespace VerseSearch

/-! ## Trimming -/

namespace Text

/-- Blanks around a text that neither begins nor ends with one are trimmed. -/
theorem trim_around {before after s : List Char} (hbefore : ∀ c ∈ before, isBlank c = true)
    (hafter : ∀ c ∈ after, isBlank c = true) (hne : s ≠ [])
    (hhead : ∀ c ∈ s.head?, isBlank c = false) (hlast : ∀ c ∈ s.getLast?, isBlank c = false) :
    trim (before ++ (s ++ after)) = s := by
  have hstart : trimStart (before ++ (s ++ after)) = s ++ after := by
    obtain ⟨c, r, rfl⟩ := List.exists_cons_of_ne_nil hne
    rw [trimStart, List.dropWhile_append_of_pos hbefore, List.cons_append,
      List.dropWhile_cons_of_neg (Bool.not_eq_true _ ▸ hhead c rfl)]
  rw [trim, hstart, trimEnd, List.reverse_append,
    List.dropWhile_append_of_pos fun c hc => hafter c (List.mem_reverse.1 hc)]
  rcases List.eq_nil_or_concat s with rfl | ⟨r, c, rfl⟩
  · exact absurd rfl hne
  · have hc : isBlank c = false := hlast c (by simp)
    rw [List.concat_eq_append, List.reverse_append, List.reverse_singleton, List.singleton_append,
      List.dropWhile_cons_of_neg (by simp [hc])]
    simp

/-- A text that neither begins nor ends with a blank is left alone. -/
theorem trim_eq_self {s : List Char} (hne : s ≠ []) (hhead : ∀ c ∈ s.head?, isBlank c = false)
    (hlast : ∀ c ∈ s.getLast?, isBlank c = false) : trim s = s := by
  have h := trim_around (List.forall_mem_nil _) (List.forall_mem_nil _) hne hhead hlast
  rwa [List.nil_append, List.append_nil] at h

end Text

/-! ## Numerals -/

namespace Numeral

/-- A digit has the same value in either row. -/
theorem digit?_arabicIndicChar (c : Char) : digit? (arabicIndicChar c) = digit? c := by
  have hrow : (List.range 10).all (fun d =>
      digit? (Char.ofNat (arabicIndicZero + d)) == some d) = true := by decide
  rcases arabicIndicChar_cases c with h | ⟨d, hd, hc, h⟩
  · rw [h]
  · have hvalue := List.all_eq_true.1 hrow d (List.mem_range.2 hd)
    rw [h, beq_iff_eq.1 hvalue, digit?, hc]
    rfl

theorem isNumeral_toArabicIndic (s : List Char) : isNumeral (toArabicIndic s) = isNumeral s := by
  have hdigit : isDigit ∘ arabicIndicChar = isDigit := funext isDigit_arabicIndicChar
  simp [isNumeral, toArabicIndic, List.all_map, hdigit]

theorem decimal_toArabicIndic (s : List Char) : decimal (toArabicIndic s) = decimal s := by
  simp only [decimal, toArabicIndic, List.foldl_map, digit?_arabicIndicChar]

/-- A text has a value if it is a numeral and the value fits. -/
theorem value?_eq_some_iff {s : List Char} {n : UInt32} :
    value? s = some n ↔ isNumeral s = true ∧ decimal s = n.toNat := by
  rw [value?]
  split
  · rename_i h
    obtain ⟨hnumeral, hfits⟩ := Bool.and_eq_true_iff.1 h
    have hlt : decimal s < UInt32.size := of_decide_eq_true hfits
    rw [Option.some.injEq, ← UInt32.toNat_inj, UInt32.toNat_ofNat', Nat.mod_eq_of_lt hlt]
    simp [hnumeral]
  · rename_i h
    refine iff_of_false (by simp) ?_
    rintro ⟨hnumeral, hvalue⟩
    have hlt : decimal s < UInt32.size := hvalue ▸ n.toNat_lt
    exact h (by simp [hnumeral, hlt])

theorem asciiDigit?_of_isDigit {c : Char} (h : c.isDigit = true) :
    asciiDigit? c = some (c.toNat - 48) := by
  have hbounds : (48 : UInt32) ≤ c.val ∧ c.val ≤ 57 := by simpa [Char.isDigit] using h
  have hc : '0' ≤ c ∧ c ≤ '9' := hbounds
  rw [asciiDigit?, if_pos hc]

theorem arabicIndicDigit?_eq_some {c : Char} {d : Nat} (h : arabicIndicDigit? c = some d) :
    d < 10 ∧ c = Char.ofNat (arabicIndicZero + d) := by
  unfold arabicIndicDigit? at h
  split at h
  · rename_i hc
    have hlow : arabicIndicZero ≤ c.toNat := hc.1
    have hhigh : c.toNat ≤ 0x669 := hc.2
    have hd : c.toNat = arabicIndicZero + d := by
      have hvalue := Option.some.inj h
      omega
    rw [← hd, Char.ofNat_toNat]
    unfold arabicIndicZero at hd
    exact ⟨by omega, rfl⟩
  · cases h

/-- No digit is blank. -/
theorem isBlank_of_isDigit {c : Char} (h : isDigit c = true) : Text.isBlank c = false := by
  obtain ⟨d, hd⟩ := Option.isSome_iff_exists.1 h
  cases hascii : asciiDigit? c with
  | some d' => exact (asciiDigit?_eq_some hascii).2.1
  | none =>
    rw [digit?, hascii] at hd
    obtain ⟨hlt, rfl⟩ := arabicIndicDigit?_eq_some hd
    exact (arabicIndic_row hlt).1

/-- A written number is a numeral. -/
theorem isNumeral_written (n : Nat) : isNumeral (written n) = true := by
  rw [written, isNumeral_toArabicIndic, isNumeral, Bool.and_eq_true, List.all_eq_true]
  refine ⟨by simp [Nat.toDigits_ne_nil], fun c hc => ?_⟩
  rw [isDigit, digit?, asciiDigit?_of_isDigit (Nat.isDigit_of_mem_toDigits (by decide) (by decide) hc)]
  rfl

/-- Reading a written number gives the number. -/
theorem decimal_written (n : Nat) : decimal (written n) = n := by
  have hdigits : decimal (Nat.toDigits 10 n) = Nat.ofDigitChars 10 (Nat.toDigits 10 n) 0 := by
    rw [Nat.ofDigitChars_eq_foldl]
    refine List.foldl_ext _ _ 0 fun k c hc => ?_
    rw [digit?, asciiDigit?_of_isDigit (Nat.isDigit_of_mem_toDigits (by decide) (by decide) hc)]
    rfl
  rw [written, decimal_toArabicIndic, hdigits, Nat.ofDigitChars_ten_toDigits]

end Numeral

/-! ## Validated parts -/

namespace Layer

open Numeral (toArabicIndic)

/-- Blanks become spaces, and what is behind them does not depend on how many they were. -/
theorem collapse_blanks_append {b : List Char} (hb : ∀ c ∈ b, Text.isBlank c = true) (f : Bool) :
    ∃ b' f', (∀ c ∈ b', c = ' ') ∧ ∀ s, collapse f (b ++ s) = b' ++ collapse f' s := by
  induction b generalizing f with
  | nil => exact ⟨[], f, by simp, fun _ => rfl⟩
  | cons c b ih =>
    obtain ⟨hc, hb⟩ := List.forall_mem_cons.1 hb
    obtain ⟨b', f', hspaces, hrest⟩ := ih hb true
    cases f with
    | true => exact ⟨b', f', hspaces, fun s => (collapse_blank_cons hc).trans (hrest s)⟩
    | false =>
      refine ⟨' ' :: b', f', List.forall_mem_cons.2 ⟨rfl, hspaces⟩, fun s => ?_⟩
      rw [List.cons_append, collapse_blank_cons hc, if_neg Bool.false_ne_true, hrest s]
      rfl

/-- Characters that are kept stay as they are. -/
theorem collapse_kept_append {k : List Char}
    (hk : ∀ c ∈ k, Text.isBlank c = false ∧ keepsInLetters c = true) (f : Bool) :
    ∃ f', ∀ s, collapse f (k ++ s) = k ++ collapse f' s := by
  induction k generalizing f with
  | nil => exact ⟨f, fun _ => rfl⟩
  | cons c k ih =>
    obtain ⟨⟨hb, hc⟩, hk⟩ := List.forall_mem_cons.1 hk
    obtain ⟨f', hrest⟩ := ih hk false
    refine ⟨f', fun s => ?_⟩
    rw [List.cons_append, collapse_kept_cons hb hc, hrest s, List.cons_append]

/-- A text that is kept, between blanks, stands between spaces afterwards. -/
theorem collapse_around {before s after : List Char} (hbefore : ∀ c ∈ before, Text.isBlank c = true)
    (hs : ∀ c ∈ s, Text.isBlank c = false ∧ keepsInLetters c = true)
    (hafter : ∀ c ∈ after, Text.isBlank c = true) (f : Bool) :
    ∃ before' after' f', (∀ c ∈ before', c = ' ') ∧ (∀ c ∈ after', c = ' ') ∧
      ∀ r, collapse f (before ++ (s ++ (after ++ r))) =
        before' ++ (s ++ (after' ++ collapse f' r)) := by
  obtain ⟨before', f₁, hspaces, h₁⟩ := collapse_blanks_append hbefore f
  obtain ⟨f₂, h₂⟩ := collapse_kept_append hs f₁
  obtain ⟨after', f₃, hspaces', h₃⟩ := collapse_blanks_append hafter f₂
  exact ⟨before', after', f₃, hspaces, hspaces', fun r => by rw [h₁, h₂, h₃]⟩

/-- A digit is kept. -/
theorem kept_of_isDigit {c : Char} (h : Numeral.isDigit c = true) :
    Text.isBlank c = false ∧ keepsInLetters c = true :=
  ⟨Numeral.isBlank_of_isDigit h, by simp [keepsInLetters, h]⟩

/-- A text is typed in the letter layer if a digit or a letter is its first character that is not
blank. -/
theorem ofInput?_eq_letters {b r : List Char} {c : Char} (hb : ∀ d ∈ b, Text.isBlank d = true)
    (hc : Text.isBlank c = false) (hfirst : isLetter c = true ∨ Numeral.isDigit c = true) :
    ofInput? (b ++ c :: r) = some .letters := by
  have hclass : ofFirst? c = some .letters := by
    rcases hfirst with h | h <;> simp [ofFirst?, h]
  rw [ofInput?, Text.trimStart, List.dropWhile_append_of_pos hb,
    List.dropWhile_cons_of_neg (by simp [hc])]
  exact hclass

end Layer

/-! ## References -/

namespace Query

open Numeral (isNumeral toArabicIndic)

/-- The reference to a surah part and a verse part. An empty verse part is none. -/
def referenceTo (surah number : List Char) : Query :=
  .reference (String.ofList surah) (if number.isEmpty then none else some (String.ofList number))

/-- The validated text has a surah part and a verse part: one before and one behind its only colon,
or it is a numeral between blanks, which is a surah part. -/
inductive RefersTo : List Char → List Char → List Char → Prop where
  | parts {surah number : List Char} : ':' ∉ surah → ':' ∉ number →
      RefersTo (surah ++ ':' :: number) surah number
  | numeral {surah : List Char} : ':' ∉ surah → isNumeral (Text.trim surah) = true →
      RefersTo surah surah []

variable {raw : String} {value surah number : List Char}

/-- The texts with parts are those with one colon, and the numerals between blanks. -/
theorem exists_refersTo_iff : (∃ surah number, RefersTo value surah number) ↔
    value.count ':' = 1 ∨ (value.count ':' = 0 ∧ isNumeral (Text.trim value) = true) := by
  constructor
  · rintro ⟨surah, number, h⟩
    cases h with
    | parts hsurah hnumber =>
      left
      rw [List.count_append, List.count_cons_self, List.count_eq_zero.2 hsurah,
        List.count_eq_zero.2 hnumber]
    | numeral hsurah hnumeral => exact .inr ⟨List.count_eq_zero.2 hsurah, hnumeral⟩
  · rintro (hone | ⟨hnone, hnumeral⟩)
    · obtain ⟨surah, number, rfl, hsurah⟩ :=
        List.eq_append_cons_of_mem (List.count_pos_iff.1 (Nat.lt_of_lt_of_eq Nat.one_pos hone.symm))
      rw [List.count_append, List.count_cons_self, List.count_eq_zero.2 hsurah] at hone
      exact ⟨surah, number, .parts hsurah (List.count_eq_zero.1 (by omega))⟩
    · exact ⟨value, [], .numeral (List.count_eq_zero.1 hnone) hnumeral⟩

theorem bne_colon {s : List Char} (h : ':' ∉ s) : ∀ c ∈ s, (c != ':') = true := by
  intro c hc
  simpa using fun heq : c = ':' => h (heq ▸ hc)

/-- A part without a colon is what stands before the first colon. -/
theorem takeWhile_append_colon {s : List Char} (h : ':' ∉ s) (r : List Char) :
    (s ++ ':' :: r).takeWhile (· != ':') = s := by
  simp [List.takeWhile_append_of_pos (bne_colon h)]

theorem dropWhile_append_colon {s : List Char} (h : ':' ∉ s) (r : List Char) :
    (s ++ ':' :: r).dropWhile (· != ':') = ':' :: r := by
  simp [List.dropWhile_append_of_pos (bne_colon h)]

theorem RefersTo.ofReference (h : RefersTo value surah number) :
    ofReference value = referenceTo (Text.trim surah) (Text.trim number) := by
  cases h with
  | parts hsurah hnumber =>
    rw [Query.ofReference, takeWhile_append_colon hsurah, dropWhile_append_colon hsurah,
      List.tail_cons, List.takeWhile_eq_self_iff.2 (bne_colon hnumber)]
    rfl
  | numeral hsurah _ =>
    rw [Query.ofReference, List.takeWhile_eq_self_iff.2 (bne_colon hsurah),
      List.dropWhile_eq_nil_iff.2 (bne_colon hsurah)]
    rfl

theorem RefersTo.isReference (h : RefersTo value surah number) : isReference value = true := by
  cases h with
  | parts _ _ => simp [Query.isReference]
  | numeral _ hnumeral => simp [Query.isReference, hnumeral]

/-- A text of the letter layer with parts is read as the reference to its trimmed parts. -/
theorem RefersTo.ofInput (h : RefersTo (Layer.validate .letters raw.toList) surah number)
    (hlayer : Layer.ofInput? raw.toList = some .letters) :
    ofInput raw = referenceTo (Text.trim surah) (Text.trim number) := by
  rw [Query.ofInput, hlayer]
  exact (if_pos ⟨rfl, h.isReference⟩).trans h.ofReference

/-! ## Parts as they are typed -/

theorem nonempty_of_isNumeral {s : List Char} (h : isNumeral s = true) :
    s ≠ [] ∧ ∀ c ∈ s, Numeral.isDigit c = true := by
  obtain ⟨hne, hall⟩ := Bool.and_eq_true_iff.1 h
  exact ⟨by simpa using hne, List.all_eq_true.1 hall⟩

/-- A numeral between blanks is trimmed to the numeral. -/
theorem trim_numeral {before digits after : List Char}
    (hbefore : ∀ c ∈ before, Text.isBlank c = true) (hafter : ∀ c ∈ after, Text.isBlank c = true)
    (hdigits : isNumeral digits = true) : Text.trim (before ++ (digits ++ after)) = digits := by
  obtain ⟨hne, hall⟩ := nonempty_of_isNumeral hdigits
  exact Text.trim_around hbefore hafter hne
    (fun c hc => Numeral.isBlank_of_isDigit (hall c (List.mem_of_mem_head? hc)))
    (fun c hc => Numeral.isBlank_of_isDigit (hall c (List.mem_of_mem_getLast? hc)))

/-- So it is after the digits are written in one row. -/
theorem trim_toArabicIndic {before after s : List Char} (hbefore : ∀ c ∈ before, c = ' ')
    (hafter : ∀ c ∈ after, c = ' ') (hs : isNumeral s = true) :
    Text.trim (toArabicIndic (before ++ (s ++ after))) = toArabicIndic s := by
  have hspaces : ∀ b : List Char, (∀ c ∈ b, c = ' ') → ∀ c ∈ toArabicIndic b,
      Text.isBlank c = true := by
    intro b hb c hc
    obtain ⟨d, hd, rfl⟩ := List.mem_map.1 hc
    rw [hb d hd]
    decide
  have hnumeral : isNumeral (toArabicIndic s) = true := by rw [Numeral.isNumeral_toArabicIndic, hs]
  rw [Numeral.toArabicIndic_append, Numeral.toArabicIndic_append]
  exact trim_numeral (hspaces before hbefore) (hspaces after hafter) hnumeral

theorem colon_not_mem_toArabicIndic {s : List Char} (h : ':' ∉ s) : ':' ∉ toArabicIndic s := by
  intro hmem
  obtain ⟨c, hc, heq⟩ := List.mem_map.1 hmem
  rcases Numeral.arabicIndicChar_cases c with hsame | ⟨d, hd, _, hrow⟩
  · exact h (heq ▸ hsame.symm ▸ hc)
  · have hdigit := (Numeral.arabicIndic_row hd).2.1
    rw [← hrow, heq] at hdigit
    exact absurd hdigit (by decide)

theorem colon_not_mem_around {before s after : List Char} (hbefore : ∀ c ∈ before, c = ' ')
    (hafter : ∀ c ∈ after, c = ' ') (hs : isNumeral s = true) :
    ':' ∉ toArabicIndic (before ++ (s ++ after)) := by
  refine colon_not_mem_toArabicIndic fun hmem => ?_
  rcases List.mem_append.1 hmem with h | h
  · exact absurd (hbefore _ h) (by decide)
  rcases List.mem_append.1 h with h | h
  · exact absurd ((nonempty_of_isNumeral hs).2 _ h) (by decide)
  · exact absurd (hafter _ h) (by decide)

/-- Two numerals with a colon between them, and blanks around all three, are a reference to the
numerals. -/
theorem ofInput_of_numerals {before surah after before' number after' : List Char}
    (hbefore : ∀ c ∈ before, Text.isBlank c = true) (hafter : ∀ c ∈ after, Text.isBlank c = true)
    (hbefore' : ∀ c ∈ before', Text.isBlank c = true)
    (hafter' : ∀ c ∈ after', Text.isBlank c = true)
    (hsurah : isNumeral surah = true) (hnumber : isNumeral number = true)
    (hraw : raw.toList =
      before ++ (surah ++ (after ++ ':' :: (before' ++ (number ++ after'))))) :
    ofInput raw = referenceTo (toArabicIndic surah) (toArabicIndic number) := by
  obtain ⟨hne, hdigits⟩ := nonempty_of_isNumeral hsurah
  have hkept := fun c hc => Layer.kept_of_isDigit (hdigits c hc)
  have hkept' := fun c hc => Layer.kept_of_isDigit ((nonempty_of_isNumeral hnumber).2 c hc)
  obtain ⟨s₁, s₂, f, hs₁, hs₂, hcollapse⟩ := Layer.collapse_around hbefore hkept hafter false
  obtain ⟨s₃, s₄, f', hs₃, hs₄, hcollapse'⟩ := Layer.collapse_around hbefore' hkept' hafter' false
  have hlast := hcollapse' []
  rw [List.append_nil, Layer.collapse_nil, List.append_nil] at hlast
  have hvalue : Layer.validate .letters raw.toList =
      toArabicIndic (s₁ ++ (surah ++ s₂)) ++ ':' :: toArabicIndic (s₃ ++ (number ++ s₄)) := by
    rw [Layer.validate, hraw, hcollapse, Layer.collapse_kept_cons (by decide) (by decide), hlast]
    simp [show Numeral.arabicIndicChar ':' = ':' from rfl]
  have hrefers := RefersTo.parts (colon_not_mem_around hs₁ hs₂ hsurah)
    (colon_not_mem_around hs₃ hs₄ hnumber)
  rw [← hvalue] at hrefers
  have hlayer : Layer.ofInput? raw.toList = some .letters := by
    obtain ⟨c, r, rfl⟩ := List.exists_cons_of_ne_nil hne
    have hc := hdigits c List.mem_cons_self
    rw [hraw, List.cons_append]
    exact Layer.ofInput?_eq_letters hbefore (Numeral.isBlank_of_isDigit hc) (.inr hc)
  rw [hrefers.ofInput hlayer, trim_toArabicIndic hs₁ hs₂ hsurah, trim_toArabicIndic hs₃ hs₄ hnumber]

/-! ## References as they are shown -/

/-- A surah name whose characters are letters and marks with single spaces between them, from a
letter on. -/
structure IsPlainName (name : List Char) : Prop where
  chars : ∀ c ∈ name, ('\u0621' ≤ c ∧ c ≤ '\u0652') ∨ c = ' '
  spaces : Layer.SpacesApart name
  first : ∃ c r, name = c :: r ∧ isLetter c = true
  last : name.getLast? ≠ some ' '

/-- Letters and marks are kept, and are no digits. -/
theorem kept_of_mem_range {c : Char} (hlow : '\u0621' ≤ c) (hhigh : c ≤ '\u0652') :
    Text.isBlank c = false ∧ Layer.keepsInLetters c = true ∧ Numeral.arabicIndicChar c = c ∧
      c ≠ ':' := by
  have hblank : Text.isBlank c = false := by
    have hranges : Text.blankRanges.all (fun r =>
        decide (r.2 < '\u0621') || decide ('\u0652' < r.1)) = true := by decide
    rw [← Bool.not_eq_true, Text.isBlank, Text.mem_inRanges]
    rintro ⟨r, hr, hfirst, hsecond⟩
    have hout := List.all_eq_true.1 hranges r hr
    simp only [Bool.or_eq_true, decide_eq_true_eq] at hout
    rcases hout with hout | hout
    · exact absurd (Char.le_trans hlow hsecond) (Char.not_le.2 hout)
    · exact absurd (Char.le_trans hfirst hhigh) (Char.not_le.2 hout)
  have hkept : isLetter c = true ∨ isMark c = true := by
    by_cases hletter : c ≤ '\u064A'
    · exact .inl (by simp [isLetter, hlow, hletter])
    · have hmark : '\u064B' ≤ c := by
        have hlt : 0x64A < c.toNat := Char.lt_def.1 (Char.not_le.1 hletter)
        exact Char.le_def.2 hlt
      exact .inr (by simp [isMark, hmark, hhigh])
  have hascii : Numeral.asciiDigit? c = none := by
    have hnot : ¬('0' ≤ c ∧ c ≤ '9') := fun h =>
      absurd (Char.le_trans hlow h.2) (by decide)
    rw [Numeral.asciiDigit?, if_neg hnot]
  refine ⟨hblank, ?_, ?_, ?_⟩
  · rcases hkept with h | h <;> simp [Layer.keepsInLetters, h]
  · rw [Numeral.arabicIndicChar, hascii]
  · rintro rfl
    exact absurd hlow (by decide)

theorem spacesApart_of_ne {s : List Char} (h : ∀ c ∈ s, c ≠ ' ') : Layer.SpacesApart s := by
  induction s with
  | nil => exact .nil
  | cons c s ih =>
    obtain ⟨hc, hs⟩ := List.forall_mem_cons.1 h
    exact (Layer.spacesApart_cons_of_ne hc).2 (ih hs)

variable {name digits : List Char}

/-- A plain name, a colon and digits are left as they are by validation. -/
theorem IsPlainName.validate (h : IsPlainName name)
    (hdigits : ∀ c ∈ digits, Numeral.isDigit c = true) (hrow : toArabicIndic digits = digits) :
    Layer.validate .letters (name ++ ':' :: digits) = name ++ ':' :: digits := by
  have hkept : ∀ c ∈ name ++ ':' :: digits,
      c = ' ' ∨ (Text.isBlank c = false ∧ Layer.keepsInLetters c = true) := by
    intro c hc
    rcases List.mem_append.1 hc with hc | hc
    · rcases h.chars c hc with ⟨hlow, hhigh⟩ | hspace
      · obtain ⟨hblank, hkeeps, _⟩ := kept_of_mem_range hlow hhigh
        exact .inr ⟨hblank, hkeeps⟩
      · exact .inl hspace
    · rcases List.mem_cons.1 hc with rfl | hc
      · exact .inr ⟨by decide, by decide⟩
      · exact .inr (Layer.kept_of_isDigit (hdigits c hc))
  have hspaces : Layer.SpacesApart (name ++ ':' :: digits) := by
    refine List.isChain_append.2 ⟨h.spaces, ?_, ?_⟩
    · refine spacesApart_of_ne (List.forall_mem_cons.2 ⟨by decide, ?_⟩)
      rintro c hc rfl
      exact absurd (hdigits _ hc) (by decide)
    · rintro c - d hd ⟨-, rfl⟩
      exact absurd (Option.mem_some.1 hd) (by decide)
  have hname : toArabicIndic name = name := by
    refine (List.map_congr_left fun c hc => ?_).trans (List.map_id name)
    rcases h.chars c hc with ⟨hlow, hhigh⟩ | rfl
    · exact (kept_of_mem_range hlow hhigh).2.2.1
    · rfl
  rw [Layer.validate, (Layer.collapse_eq_self hkept).1 hspaces, Numeral.toArabicIndic_append, hname,
    Numeral.toArabicIndic_cons, hrow]
  rfl

/-- No letter is a digit. -/
theorem isDigit_of_isLetter {c : Char} (h : isLetter c = true) : Numeral.isDigit c = false := by
  have hrange : '\u0621' ≤ c ∧ c ≤ '\u064A' := by simpa [isLetter] using h
  have hascii : Numeral.asciiDigit? c = none :=
    if_neg fun hdigit => absurd (Char.le_trans hrange.1 hdigit.2) (by decide)
  have harabic : Numeral.arabicIndicDigit? c = none :=
    if_neg fun hdigit => absurd (Char.le_trans hdigit.1 hrange.2) (by decide)
  rw [Numeral.isDigit, Numeral.digit?, hascii, harabic]
  rfl

theorem IsPlainName.isNumeral (h : IsPlainName name) : isNumeral name = false := by
  obtain ⟨c, r, rfl, hletter⟩ := h.first
  simp [Numeral.isNumeral, isDigit_of_isLetter hletter]

theorem IsPlainName.trim_eq (h : IsPlainName name) : Text.trim name = name := by
  obtain ⟨c, r, hname, hletter⟩ := h.first
  have hblank : ∀ d ∈ name, d ≠ ' ' → Text.isBlank d = false := fun d hd hne =>
    (h.chars d hd).elim (fun hrange => (kept_of_mem_range hrange.1 hrange.2).1)
      (fun hspace => absurd hspace hne)
  refine Text.trim_eq_self (by simp [hname]) ?_ ?_
  · intro d hd
    refine hblank d (List.mem_of_mem_head? hd) ?_
    rintro rfl
    rw [hname] at hd
    rw [Option.mem_some.1 hd] at hletter
    exact absurd hletter (by decide)
  · intro d hd
    refine hblank d (List.mem_of_mem_getLast? hd) ?_
    rintro rfl
    exact h.last hd

/-- A plain name with a number behind a colon, as references are shown, is a reference to both. -/
theorem ofInput_of_name (h : IsPlainName name) (n : Nat)
    (hraw : raw.toList = name ++ ':' :: Numeral.written n) :
    ofInput raw = referenceTo name (Numeral.written n) := by
  obtain ⟨c, r, hname, hletter⟩ := h.first
  obtain ⟨hne, hdigits⟩ := nonempty_of_isNumeral (Numeral.isNumeral_written n)
  have hrow : toArabicIndic (Numeral.written n) = Numeral.written n :=
    Numeral.toArabicIndic_toArabicIndic _
  have hcolon : ∀ s : List Char, (∀ d ∈ s, d ≠ ':') → ':' ∉ s := fun s hs hmem => hs _ hmem rfl
  have hrefers : RefersTo (Layer.validate .letters raw.toList) name (Numeral.written n) := by
    rw [hraw, h.validate hdigits hrow]
    refine .parts (hcolon _ fun d hd => ?_) (hcolon _ fun d hd => ?_)
    · rcases h.chars d hd with ⟨hlow, hhigh⟩ | rfl
      · exact (kept_of_mem_range hlow hhigh).2.2.2
      · decide
    · rintro rfl
      exact absurd (hdigits _ hd) (by decide)
  have hlayer : Layer.ofInput? raw.toList = some .letters := by
    have hc := h.chars c (hname ▸ List.mem_cons_self)
    have hblank : Text.isBlank c = false := by
      rcases hc with ⟨hlow, hhigh⟩ | rfl
      · exact (kept_of_mem_range hlow hhigh).1
      · exact absurd hletter (by decide)
    rw [hraw, hname, List.cons_append, ← List.nil_append (c :: _)]
    exact Layer.ofInput?_eq_letters (List.forall_mem_nil _) hblank (.inl hletter)
  have hblank : ∀ d ∈ Numeral.written n, Text.isBlank d = false := fun d hd =>
    Numeral.isBlank_of_isDigit (hdigits d hd)
  have hnumber : Text.trim (Numeral.written n) = Numeral.written n :=
    Text.trim_eq_self hne (fun d hd => hblank d (List.mem_of_mem_head? hd))
      (fun d hd => hblank d (List.mem_of_mem_getLast? hd))
  rw [hrefers.ofInput hlayer, h.trim_eq, hnumber]

end Query

end VerseSearch
