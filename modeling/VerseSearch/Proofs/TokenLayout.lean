import Mathlib.Data.List.Chain
import VerseSearch.Json.Token

/-!
# How tokens are written

The grammar of JSON, up to its tokens, as a relation: which texts a token may be written as
(`Token.Written`), and which texts lay a list of tokens out, with any blanks between them (`Laid`). A
string has many written forms, since most characters may be escaped or not; a number has one value
for all the texts of its digits.

Main statement: a text that lays tokens out is read as these tokens (`tokens_of_laid`). A number goes
on as far as it can, so this needs that no two numbers follow one another, which no JSON value does.
-/

set_option autoImplicit false

namespace VerseSearch.Json

/-! ## Strings -/

/-- How a unit of a string is written. -/
inductive TextUnit.Written : TextUnit → List Char → Prop where
  | plain {c : Char} : c ≠ '"' → c ≠ '\\' → ¬ c < ' ' → Written (.char c) [c]
  | escape {c e : Char} : escape? e = some c → Written (.char c) ['\\', e]
  | code {a b c d : Char} {u : Nat} : codeUnit? a b c d = some u →
      Written (.ofCode u) ['\\', 'u', a, b, c, d]

/-- How the units of a string are written, without the quotes around them. -/
inductive WrittenUnits : List TextUnit → List Char → Prop where
  | nil : WrittenUnits [] []
  | cons {u : TextUnit} {us : List TextUnit} {s r : List Char} : u.Written s → WrittenUnits us r →
      WrittenUnits (u :: us) (s ++ r)

theorem stringBody_plain {c : Char} (hquote : c ≠ '"') (hbackslash : c ≠ '\\') (hcontrol : ¬ c < ' ')
    (r : List Char) : stringBody (c :: r) = (stringBody r).map fun p => (.char c :: p.1, p.2) := by
  rw [stringBody]
  · rw [if_neg hcontrol]
  · exact hquote
  · exact fun _ _ _ _ _ h => absurd h hbackslash
  · exact fun _ _ h => absurd h hbackslash

theorem stringBody_escape {c e : Char} (h : escape? e = some c) (r : List Char) :
    stringBody ('\\' :: e :: r) = (stringBody r).map fun p => (.char c :: p.1, p.2) := by
  rw [stringBody]
  · rw [h]
  · rintro a b c' d r' hu
    cases hu
    cases h

theorem stringBody_code {a b c d : Char} {u : Nat} (h : codeUnit? a b c d = some u) (r : List Char) :
    stringBody ('\\' :: 'u' :: a :: b :: c :: d :: r) =
      (stringBody r).map fun p => (.ofCode u :: p.1, p.2) := by
  rw [stringBody, h]

/-- The body of a string is read up to the quote that closes it. -/
theorem stringBody_of_written {us : List TextUnit} {s : List Char} (h : WrittenUnits us s)
    (r : List Char) : stringBody (s ++ '"' :: r) = some (us, r) := by
  induction h with
  | nil => rw [List.nil_append, stringBody]
  | cons hu _ ih =>
    rw [List.append_assoc]
    cases hu with
    | plain hquote hbackslash hcontrol =>
      rw [List.singleton_append, stringBody_plain hquote hbackslash hcontrol, ih]
      rfl
    | escape he =>
      rw [List.cons_append, List.singleton_append, stringBody_escape he, ih]
      rfl
    | code hcode =>
      simp only [List.cons_append, List.nil_append]
      rw [stringBody_code hcode, ih]
      rfl

/-- Every character can be written in a string, a control character by its code. -/
theorem TextUnit.exists_written (c : Char) : ∃ s, (TextUnit.char c).Written s := by
  by_cases hquote : c = '"'
  · subst hquote
    exact ⟨['\\', '"'], .escape rfl⟩
  by_cases hbackslash : c = '\\'
  · subst hbackslash
    exact ⟨['\\', '\\'], .escape rfl⟩
  by_cases hcontrol : c < ' '
  · have hcodes : (List.range 32).all (fun n =>
        codeUnit? '0' '0' (Nat.digitChar (n / 16)) (Nat.digitChar (n % 16)) == some n &&
          TextUnit.ofCode n == .char (Char.ofNat n)) = true := by decide
    have hlt : c.toNat < 32 := hcontrol
    have hcode := List.all_eq_true.1 hcodes c.toNat (List.mem_range.2 hlt)
    rw [Bool.and_eq_true, beq_iff_eq, beq_iff_eq, Char.ofNat_toNat] at hcode
    rw [← hcode.2]
    exact ⟨_, .code hcode.1⟩
  · exact ⟨[c], .plain hquote hbackslash hcontrol⟩

theorem exists_writtenUnits (s : List Char) : ∃ r, WrittenUnits (s.map .char) r := by
  induction s with
  | nil => exact ⟨[], .nil⟩
  | cons c s ih =>
    obtain ⟨r, hr⟩ := ih
    obtain ⟨unit, hunit⟩ := TextUnit.exists_written c
    exact ⟨unit ++ r, .cons hunit hr⟩

theorem content_map_char (s : List Char) : content (s.map .char) = some s := by
  induction s with
  | nil => rfl
  | cons c s ih => rw [List.map_cons, content, ih]; rfl

/-! ## Numbers -/

/-- One digit or more. -/
def IsDigits (s : List Char) : Prop := s ≠ [] ∧ ∀ c ∈ s, c.isDigit = true

/-- Digits, of which the first one is zero only if it is the only one. -/
def IsInteger (s : List Char) : Prop := IsDigits s ∧ (s.head? = some '0' → s = ['0'])

/-- A point and digits, or nothing. -/
inductive IsFraction : List Char → Prop where
  | none : IsFraction []
  | digits {s : List Char} : IsDigits s → IsFraction ('.' :: s)

/-- The sign of an exponent, or nothing. -/
inductive IsSign : List Char → Prop where
  | none : IsSign []
  | plus : IsSign ['+']
  | minus : IsSign ['-']

/-- An exponent of ten, or nothing. -/
inductive IsExponent : List Char → Prop where
  | none : IsExponent []
  | digits {e : Char} {sign s : List Char} : e = 'e' ∨ e = 'E' → IsSign sign → IsDigits s →
      IsExponent (e :: (sign ++ s))

/-- How a number is written. It counts as a natural number if it is digits only. -/
inductive WrittenNumber : Option Nat → List Char → Prop where
  | natural {s : List Char} : IsInteger s → WrittenNumber (some (Nat.ofDigitChars 10 s 0)) s
  | other {minus s fraction exponent : List Char} : minus = [] ∨ minus = ['-'] → IsInteger s →
      IsFraction fraction → IsExponent exponent →
      minus ≠ [] ∨ fraction ≠ [] ∨ exponent ≠ [] →
      WrittenNumber none (minus ++ (s ++ (fraction ++ exponent)))

/-- A number in front of the text ends where the text begins. -/
def EndsNumber (r : List Char) : Prop :=
  ∀ c ∈ r.head?, c.isDigit = false ∧ c ≠ '.' ∧ c ≠ 'e' ∧ c ≠ 'E'

variable {s r fraction exponent : List Char}

theorem digitNext_eq_false (h : ∀ c ∈ r.head?, c.isDigit = false) : digitNext r = false := by
  cases r with
  | nil => rfl
  | cons c r => exact h c rfl

theorem digitNext_append (h : IsDigits s) (r : List Char) : digitNext (s ++ r) = true := by
  obtain ⟨hne, hdigits⟩ := h
  obtain ⟨c, s, rfl⟩ := List.exists_cons_of_ne_nil hne
  exact hdigits c List.mem_cons_self

theorem skipDigits_append (h : IsDigits s) (hr : digitNext r = false) : skipDigits (s ++ r) = r := by
  rw [skipDigits, List.dropWhile_append_of_pos h.2]
  cases r with
  | nil => rfl
  | cons c r => exact List.dropWhile_cons_of_neg (by simpa [digitNext] using hr)

theorem takeWhile_digits_append (h : IsDigits s) (hr : digitNext r = false) :
    (s ++ r).takeWhile Char.isDigit = s := by
  rw [List.takeWhile_append_of_pos h.2]
  cases r with
  | nil => simp
  | cons c r =>
    rw [List.takeWhile_cons_of_neg (by simpa [digitNext] using hr), List.append_nil]

theorem integerPart_append (h : IsInteger s) (hr : digitNext r = false) :
    integerPart (s ++ r) = some (s, r) := by
  obtain ⟨hdigits, hzero⟩ := h
  by_cases hhead : s.head? = some '0'
  · rw [hzero hhead, List.singleton_append, integerPart, hr]
    rfl
  · have hfirst : ∀ r', s ++ r ≠ '0' :: r' := by
      intro r' heq
      obtain ⟨c, s, rfl⟩ := List.exists_cons_of_ne_nil hdigits.1
      exact hhead (congrArg some (List.cons.inj heq).1)
    rw [integerPart.eq_2 _ hfirst, digitNext_append hdigits, if_pos rfl,
      takeWhile_digits_append hdigits hr, skipDigits_append hdigits hr]

theorem fractionPart_append (h : IsFraction fraction) (hdigit : digitNext r = false)
    (hpoint : ∀ c ∈ r.head?, c ≠ '.') :
    fractionPart (fraction ++ r) = some (!fraction.isEmpty, r) := by
  cases h with
  | none =>
    rw [List.nil_append, fractionPart.eq_2 r]
    · rfl
    · rintro r' rfl
      exact hpoint '.' rfl rfl
  | digits hs =>
    rw [List.cons_append, fractionPart, digitNext_append hs, if_pos rfl, skipDigits_append hs hdigit]
    rfl

theorem skipSign_append {sign : List Char} (hsign : IsSign sign) (hs : IsDigits s) (r : List Char) :
    skipSign (sign ++ (s ++ r)) = s ++ r := by
  cases hsign with
  | none =>
    obtain ⟨hne, hdigits⟩ := hs
    obtain ⟨c, s, rfl⟩ := List.exists_cons_of_ne_nil hne
    have hc : c.isDigit = true := hdigits c List.mem_cons_self
    rw [List.nil_append, List.cons_append, skipSign.eq_3]
    · rintro r' h
      rw [(List.cons.inj h).1] at hc
      cases hc
    · rintro r' h
      rw [(List.cons.inj h).1] at hc
      cases hc
  | plus => rfl
  | minus => rfl

theorem exponentPart_append (h : IsExponent exponent) (hr : EndsNumber r) :
    exponentPart (exponent ++ r) = some (!exponent.isEmpty, r) := by
  cases h with
  | none =>
    cases r with
    | nil => rfl
    | cons c r =>
      obtain ⟨_, _, he, hE⟩ := hr c rfl
      rw [List.nil_append, exponentPart, if_neg (not_or.2 ⟨he, hE⟩)]
      rfl
  | @digits e sign s he hsign hs =>
    rw [List.cons_append, List.append_assoc, exponentPart, if_pos he, skipSign_append hsign hs,
      digitNext_append hs, if_pos rfl,
      skipDigits_append hs (digitNext_eq_false fun c hc => (hr c hc).1)]
    rfl

/-- The first character of a fraction, an exponent, or what is behind the number. -/
theorem head?_append_endsNumber (hexponent : IsExponent exponent) (hr : EndsNumber r) :
    ∀ c ∈ (exponent ++ r).head?, c.isDigit = false ∧ c ≠ '.' := by
  cases hexponent with
  | none => exact fun c hc => ⟨(hr c hc).1, (hr c hc).2.1⟩
  | digits he _ _ =>
    intro c hc
    cases hc
    rcases he with rfl | rfl <;> decide

/-- The parts of a number are read one after another. -/
theorem number_append (hs : IsInteger s) (hfraction : IsFraction fraction)
    (hexponent : IsExponent exponent) (hr : EndsNumber r) (negative : Bool) :
    number negative (s ++ (fraction ++ (exponent ++ r))) =
      some (.number (if negative || !fraction.isEmpty || !exponent.isEmpty then none
        else some (Nat.ofDigitChars 10 s 0)), r) := by
  have hbehind := head?_append_endsNumber hexponent hr
  have hdigit : digitNext (fraction ++ (exponent ++ r)) = false := by
    cases hfraction with
    | none => exact digitNext_eq_false fun c hc => (hbehind c hc).1
    | digits _ => rfl
  rw [number, integerPart_append hs hdigit]
  simp only
  rw [fractionPart_append hfraction (digitNext_eq_false fun c hc => (hbehind c hc).1)
    fun c hc => (hbehind c hc).2]
  simp only
  rw [exponentPart_append hexponent hr]

/-! ## Tokens -/

/-- How a token is written. The broken token is never written. -/
inductive Token.Written : Token → List Char → Prop where
  | openArray : Written .openArray ['[']
  | closeArray : Written .closeArray [']']
  | openObject : Written .openObject ['\x7b']
  | closeObject : Written .closeObject ['\x7d']
  | comma : Written .comma [',']
  | colon : Written .colon [':']
  | wordNull : Written .null ['n', 'u', 'l', 'l']
  | wordTrue : Written (.bool true) ['t', 'r', 'u', 'e']
  | wordFalse : Written (.bool false) ['f', 'a', 'l', 's', 'e']
  | number {natural : Option Nat} {s : List Char} : WrittenNumber natural s →
      Written (.number natural) s
  | text {us : List TextUnit} {s : List Char} : WrittenUnits us s →
      Written (.text (content us)) ('"' :: (s ++ ['"']))

/-- Every text can be written as a string. -/
theorem Token.exists_written_text (s : List Char) : ∃ r, Token.Written (.text (some s)) r := by
  obtain ⟨r, hr⟩ := exists_writtenUnits s
  rw [← content_map_char s]
  exact ⟨_, .text hr⟩

/-- Whether the token is a number. -/
def Token.isNumber : Token → Bool
  | .number _ => true
  | _ => false

theorem sign?_of_isDigit {c : Char} (h : c.isDigit = true) : sign? c = none := by
  unfold sign?
  split
  iterate 6 cases h
  rfl

theorem IsInteger.exists_cons (h : IsInteger s) : ∃ c s', s = c :: s' ∧ c.isDigit = true := by
  obtain ⟨⟨hne, hdigits⟩, -⟩ := h
  obtain ⟨c, s', rfl⟩ := List.exists_cons_of_ne_nil hne
  exact ⟨c, s', rfl, hdigits c List.mem_cons_self⟩

theorem next?_of_isDigit {c : Char} (h : c.isDigit = true) (r : List Char) :
    next? (c :: r) = number false (c :: r) := by
  have hquote : c ≠ '"' := by
    rintro rfl
    cases h
  have hminus : c ≠ '-' := by
    rintro rfl
    cases h
  rw [next?, sign?_of_isDigit h]
  simp only
  rw [if_neg hquote, if_neg hminus, if_pos h]

theorem next?_minus (r : List Char) : next? ('-' :: r) = number true r := rfl

theorem next?_of_writtenNumber {natural : Option Nat} (h : WrittenNumber natural s)
    (hr : EndsNumber r) : next? (s ++ r) = some (.number natural, r) := by
  cases h with
  | natural hs =>
    obtain ⟨c, s', rfl, hc⟩ := hs.exists_cons
    rw [List.cons_append, next?_of_isDigit hc]
    exact number_append hs .none .none hr false
  | @other minus s fraction exponent hminus hs hfraction hexponent hnot =>
    rw [List.append_assoc, List.append_assoc, List.append_assoc]
    rcases hminus with rfl | rfl
    · have hlong : (!fraction.isEmpty || !exponent.isEmpty) = true := by
        simpa [List.isEmpty_iff, Bool.eq_false_iff] using hnot
      have hnumber := number_append hs hfraction hexponent hr false
      rw [Bool.false_or, hlong, if_pos rfl] at hnumber
      obtain ⟨c, s', rfl, hc⟩ := hs.exists_cons
      rw [List.nil_append, List.cons_append, next?_of_isDigit hc]
      exact hnumber
    · rw [List.singleton_append, next?_minus, number_append hs hfraction hexponent hr true]
      rfl

/-- A token that is written at the front of a text is the one that is read. -/
theorem next?_of_written {t : Token} (h : t.Written s)
    (hr : t.isNumber = true → EndsNumber r) : next? (s ++ r) = some (t, r) := by
  cases h with
  | number hs => exact next?_of_writtenNumber hs (hr rfl)
  | @text us s hs =>
    rw [List.cons_append, List.append_assoc, List.singleton_append, next?]
    simp only [sign?, if_pos]
    rw [stringBody_of_written hs]
    rfl
  | _ => rfl

/-- No token begins with a blank. -/
theorem Token.Written.exists_cons {t : Token} (h : t.Written s) :
    ∃ c s', s = c :: s' ∧ isSpace c = false ∧
      (t.isNumber = false → c.isDigit = false ∧ c ≠ '.' ∧ c ≠ 'e' ∧ c ≠ 'E') := by
  have hdigit : ∀ {c : Char}, c.isDigit = true → isSpace c = false := by
    intro c hc
    refine Bool.eq_false_iff.2 fun hspace => ?_
    simp only [isSpace, Bool.or_eq_true, beq_iff_eq] at hspace
    rcases hspace with ((rfl | rfl) | rfl) | rfl <;> cases hc
  cases h with
  | number hs =>
    cases hs with
    | natural hs =>
      obtain ⟨c, s', rfl, hc⟩ := hs.exists_cons
      exact ⟨c, s', rfl, hdigit hc, nofun⟩
    | other hminus hs _ _ _ =>
      rcases hminus with rfl | rfl
      · obtain ⟨c, s', rfl, hc⟩ := hs.exists_cons
        exact ⟨c, _, rfl, hdigit hc, nofun⟩
      · exact ⟨'-', _, rfl, rfl, nofun⟩
  | _ => exact ⟨_, _, rfl, rfl, fun _ => by decide⟩

/-! ## Texts -/

/-- A text that lays out a list of tokens, with any blanks before, between and behind them. -/
inductive Laid : List Token → List Char → Prop where
  | nil {s : List Char} : (∀ c ∈ s, isSpace c = true) → Laid [] s
  | cons {t : Token} {ts : List Token} {blanks s r : List Char} :
      (∀ c ∈ blanks, isSpace c = true) → t.Written s → Laid ts r →
      Laid (t :: ts) (blanks ++ (s ++ r))

theorem Laid.next {t : Token} {ts : List Token} (h : t.Written s) (hr : Laid ts r) :
    Laid (t :: ts) (s ++ r) := by
  have hlaid := Laid.cons (List.forall_mem_nil _) h hr
  rwa [List.nil_append] at hlaid

/-- Tokens that can be written each can be laid out together. -/
theorem exists_laid {ts : List Token} (h : ∀ t ∈ ts, ∃ s, t.Written s) : ∃ s, Laid ts s := by
  induction ts with
  | nil => exact ⟨[], .nil (List.forall_mem_nil _)⟩
  | cons t ts ih =>
    rw [List.forall_mem_cons] at h
    obtain ⟨⟨s, hs⟩, hrest⟩ := h
    obtain ⟨r, hr⟩ := ih hrest
    exact ⟨s ++ r, .next hs hr⟩

/-- One of two neighbours is no number. -/
def Apart (t t' : Token) : Prop := t.isNumber = true → t'.isNumber = false

theorem tokens_blanks_append {blanks : List Char} (h : ∀ c ∈ blanks, isSpace c = true)
    (s : List Char) : tokens (blanks ++ s) = tokens s := by
  induction blanks with
  | nil => rfl
  | cons c blanks ih =>
    rw [List.forall_mem_cons] at h
    rw [List.cons_append, tokens_of_isSpace h.1, ih h.2]

theorem endsNumber_of_isSpace {c : Char} (h : isSpace c = true) :
    c.isDigit = false ∧ c ≠ '.' ∧ c ≠ 'e' ∧ c ≠ 'E' := by
  simp only [isSpace, Bool.or_eq_true, beq_iff_eq] at h
  rcases h with ((rfl | rfl) | rfl) | rfl <;> decide

/-- A number ends in front of blanks and of any other token. -/
theorem endsNumber_of_laid {ts : List Token} (h : Laid ts s)
    (hts : ∀ t ∈ ts.head?, t.isNumber = false) : EndsNumber s := by
  cases h with
  | nil hs => exact fun c hc => endsNumber_of_isSpace (hs c (List.mem_of_mem_head? hc))
  | @cons t ts blanks s r hblanks hs _ =>
    cases blanks with
    | nil =>
      obtain ⟨c, s', rfl, -, hc⟩ := hs.exists_cons
      intro d hd
      cases hd
      exact hc (hts t rfl)
    | cons b blanks =>
      intro d hd
      cases hd
      exact endsNumber_of_isSpace (hblanks b List.mem_cons_self)

/-- A text that lays out tokens is read as these tokens. -/
theorem tokens_of_laid {ts : List Token} (h : Laid ts s) (hapart : ts.IsChain Apart) :
    tokens s = ts := by
  induction h with
  | @nil s hs =>
    have hblanks := tokens_blanks_append hs []
    rwa [List.append_nil, tokens_nil] at hblanks
  | @cons t ts blanks s r hblanks hs hr ih =>
    obtain ⟨hnext, hrest⟩ := List.isChain_cons.1 hapart
    have hread : next? (s ++ r) = some (t, r) := next?_of_written hs fun ht =>
      endsNumber_of_laid hr fun t' ht' => hnext t' ht' ht
    obtain ⟨c, s', rfl, hc, -⟩ := hs.exists_cons
    rw [tokens_blanks_append hblanks, List.cons_append]
    rw [List.cons_append] at hread
    rw [tokens_of_next? hc hread, ih hrest]

end VerseSearch.Json
