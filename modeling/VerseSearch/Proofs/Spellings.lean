import Mathlib.Tactic.Simproc.ExistsAndEq
import VerseSearch.Letters.Source
import VerseSearch.Proofs.Covering
import VerseSearch.Proofs.Reading

/-!
# What letters and families spell

`Token.spells` says which spans of a verse a token of a letter query stands for, given the text
behind the span, and `Carries` that a span carries a whole list of tokens. Neither mentions an
expression. The rest of the module ties them to the text that a query is turned into: the text of a
family is read as certain items (`Family.reads_expansion`), and these cover what the family spells
(`Family.covers_items`).
-/

set_option autoImplicit false

namespace VerseSearch.Letters

/-! ## Spellings -/

/-- The text begins with one of the characters. -/
def beginsWith (cs : List Char) (next : List Char) : Bool := next.head?.any cs.contains

/-- Behind its first character, which is no line feed, the text goes on with one of the
characters. -/
def goesOnWith (cs : List Char) : List Char → Bool
  | c :: d :: _ => c != '\n' && cs.contains d
  | _ => false

/-- An alef under a small circle, and one more character that is no space. -/
def isMarkedAlef : List Char → Bool
  | ['\u0627', '\u06DF', c] => c != ' '
  | _ => false

/-- Whether the family may be spelled like the span where the text `next` follows it. -/
def Family.spells (span next : List Char) : Family → Bool
  | .articleRelative => span == ['\u0671', '\u0644', '\u0651', '\u064E', '\u0630', '\u0650']
  | .articleLam =>
    span == ['\u0627', '\u0653', '\u0644', '\u0644', '\u0651'] ||
    span == ['\u0671', '\u0644', '\u0644', '\u0651'] ||
    span == ['\u0671', '\u0644', '\u0651', '\u064E'] &&
      goesOnWith ['\u0652', '\u064E', '\u0670'] next
  | .alef =>
    [['\u0627'], ['\u0670'], ['\u0671'], ['\u0648', '\u0670'], ['\u0649', '\u0670']].contains span
  | .yeh =>
    isMarkedAlef span ||
    [['\u0649'], ['\u064A'], ['\u06E6'], ['\u0640']].contains span &&
      !beginsWith ['\u0670', '\u0654'] next
  | .alefMaksura =>
    [['\u0627'], ['\u06E6'], ['\u0670'], ['\u0649']].contains span &&
      !beginsWith ['\u064E', '\u0652', '\u0651'] next
  | .hamza =>
    [['\u0654'], ['\u0626'], ['\u0621'], ['\u0625'], ['\u0624'], ['\u0623']].contains span
  | .alefMadda =>
    [['\u0621', '\u064E', '\u0627'], ['\u0654', '\u064E', '\u0627'], ['\u0622'],
      ['\u0654', '\u064E', '\u0640', '\u0670']].contains span
  | .waw => [['\u0648'], ['\u06E5']].contains span
  | .noon =>
    [['\u064A', '\u06DF', '\u0646'], ['\u0646'], ['\u064A', '\u06DF', '\u06E8'],
      ['\u06E8']].contains span

/-- Whether the token may be spelled like the span where the text `next` follows it. -/
def Token.spells (span next : List Char) : Token → Bool
  | .letter c => span == [c]
  | .family f => f.spells span next

/-- A character that may stand between letters: neither a consonant nor a space. -/
def isFiller (c : Char) : Bool :=
  !(decide ('\u0621' ≤ c) && decide (c ≤ '\u063A') ||
    decide ('\u0641' ≤ c) && decide (c ≤ '\u064A') ||
    decide (c = '\u0671') || decide (c = ' '))

/-- The span spells the tokens one after the other, with nothing but fillers between them, where the
text `next` follows it. -/
def Carries : List Token → List Char → List Char → Prop
  | [], span, _ => span = []
  | [t], span, next => t.spells span next = true
  | t :: t' :: ts, span, next => ∃ first fill rest, span = first ++ (fill ++ rest) ∧
      t.spells first (fill ++ rest ++ next) = true ∧ (∀ c ∈ fill, isFiller c = true) ∧
      Carries (t' :: ts) rest next

/-! ## The items of an expression -/

/-- One character of a list. -/
def oneOf (cs : List Char) : Regex := .one (.ofChars cs)

/-- Given characters, one after the other. -/
def word (cs : List Char) : Regex := .concat (cs.map .letter)

/-- The items that the text of a family spells. -/
def Family.items : Family → List Regex
  | .articleRelative => ['\u0671', '\u0644', '\u0651', '\u064E', '\u0630', '\u0650'].map .letter
  | .articleLam =>
    [.choice
      [.concat (.choice [word ['\u0627', '\u0653'], word ['\u0671']] ::
          ['\u0644', '\u0644', '\u0651'].map .letter),
        .concat (['\u0671', '\u0644', '\u0651', '\u064E'].map .letter ++
          [.look true (.concat [.one .notNewline, oneOf ['\u0652', '\u064E', '\u0670']])])]]
  | .alef =>
    [.choice [oneOf ['\u0627', '\u0670', '\u0671'], word ['\u0648', '\u0670'],
      word ['\u0649', '\u0670']]]
  | .yeh =>
    [.choice
      [.concat (['\u0627', '\u06DF'].map .letter ++ [.one (.complement (.ofChars [' ']))]),
        .concat [oneOf ['\u0649', '\u064A', '\u06E6', '\u0640'],
          .look false (oneOf ['\u0670', '\u0654'])]]]
  | .alefMaksura =>
    [.choice [.concat [oneOf ['\u0627', '\u06E6', '\u0670', '\u0649'],
      .look false (oneOf ['\u064E', '\u0652', '\u0651'])]]]
  | .hamza => [oneOf ['\u0654', '\u0626', '\u0621', '\u0625', '\u0624', '\u0623']]
  | .alefMadda =>
    [.choice [word ['\u0621', '\u064E', '\u0627'], word ['\u0654', '\u064E', '\u0627'],
      word ['\u0622'], word ['\u0654', '\u064E', '\u0640', '\u0670']]]
  | .waw => [oneOf ['\u0648', '\u06E5']]
  | .noon => [.alt (.choice [word ['\u064A', '\u06DF']]) .empty, oneOf ['\u0646', '\u06E8']]

/-- The items that the text of a token spells. -/
def Token.items : Token → List Regex
  | .letter c => [.letter c]
  | .family f => f.items

/-- The text of a family is read as its items. -/
theorem Family.reads_expansion (f : Family) (n : Nat) :
    Reads 2 n f.expansion.toList f.items n := by
  cases f with
  | articleRelative => exact (reads_letters _ (by decide)).mono (by decide)
  | articleLam =>
    have halef := reads_letters (n := n) ['\u0627', '\u0653'] (by decide)
    have hwasla := reads_letters (n := n) ['\u0671'] (by decide)
    have hseat := (halef.bar hwasla.choices).plain (by decide)
    have hlam := reads_letters (n := n) ['\u0644', '\u0644', '\u0651'] (by decide)
    have hplain := hseat.reads.append (hlam.mono (by decide)) (startsItem_cons (by decide) _)
    have hfused := reads_letters (n := n) ['\u0671', '\u0644', '\u0651', '\u064E'] (by decide)
    have hmark := readsItem_chars (n := n) '\u0652' ['\u064E', '\u0670'] (by decide)
    have hahead := (readsItem_dot.reads.append hmark.reads (startsItem_cons (by decide) _)).choices
    have hlook := (hfused.mono (by decide)).append (hahead.look (by decide)).reads
      (startsItem_cons (by decide) _)
    exact ((hplain.bar hlook.choices).plain (by decide)).reads
  | alef =>
    have hone := readsItem_chars (n := n) '\u0627' ['\u0670', '\u0671'] (by decide)
    have hwaw := reads_letters (n := n) ['\u0648', '\u0670'] (by decide)
    have hmaksura := reads_letters (n := n) ['\u0649', '\u0670'] (by decide)
    have hall := hone.reads.bar (hwaw.bar hmaksura.choices)
    exact (hall.plain (by decide)).reads.mono (by decide)
  | yeh =>
    have halef := reads_letters (n := n) ['\u0627', '\u06DF'] (by decide)
    have hany := readsItem_notChars (n := n) ' ' [] (by decide)
    have hmarked := halef.append hany.reads (startsItem_cons (by decide) _)
    have hone := readsItem_chars (n := n) '\u0649' ['\u064A', '\u06E6', '\u0640'] (by decide)
    have hsign := readsItem_chars (n := n) '\u0670' ['\u0654'] (by decide)
    have hlook := (hone.reads.mono (by decide)).append
      (hsign.reads.choices.lookNot (by decide)).reads (startsItem_cons (by decide) _)
    exact (((hmarked.mono (by decide)).bar hlook.choices).plain (by decide)).reads
  | alefMaksura =>
    have hone := readsItem_chars (n := n) '\u0627' ['\u06E6', '\u0670', '\u0649'] (by decide)
    have hmark := readsItem_chars (n := n) '\u064E' ['\u0652', '\u0651'] (by decide)
    have hlook := (hone.reads.mono (by decide)).append
      (hmark.reads.choices.lookNot (by decide)).reads (startsItem_cons (by decide) _)
    exact (hlook.choices.plain (by decide)).reads
  | hamza =>
    have hone := readsItem_chars (n := n) '\u0654'
      ['\u0626', '\u0621', '\u0625', '\u0624', '\u0623'] (by decide)
    exact hone.reads.mono (by decide)
  | alefMadda =>
    have hhamza := reads_letters (n := n) ['\u0621', '\u064E', '\u0627'] (by decide)
    have habove := reads_letters (n := n) ['\u0654', '\u064E', '\u0627'] (by decide)
    have hmadda := reads_letters (n := n) ['\u0622'] (by decide)
    have htatweel := reads_letters (n := n) ['\u0654', '\u064E', '\u0640', '\u0670'] (by decide)
    have hall := hhamza.bar (habove.bar (hmadda.bar htatweel.choices))
    exact (hall.plain (by decide)).reads.mono (by decide)
  | waw =>
    have hone := readsItem_chars (n := n) '\u0648' ['\u06E5'] (by decide)
    exact hone.reads.mono (by decide)
  | noon =>
    have hyeh := reads_letters (n := n) ['\u064A', '\u06DF'] (by decide)
    have hprefix := (hyeh.choices.plain (by decide)).optional rfl
    have hone := readsItem_chars (n := n) '\u0646' ['\u06E8'] (by decide)
    have hall := hprefix.append (hone.reads.mono (by decide)) (startsItem_cons (by decide) _)
    exact hall.mono (by decide)

/-! ## What the items cover -/

open Regex (Covers)

variable {span next : List Char}

@[simp] theorem covers_oneOf {cs : List Char} :
    (oneOf cs).Covers span next ↔ ∃ c ∈ cs, span = [c] := by
  simp only [oneOf, Regex.covers_one, CharSet.contains_ofChars, decide_eq_true_eq]
  exact exists_congr fun c => and_comm

@[simp] theorem covers_word {cs : List Char} : (word cs).Covers span next ↔ span = cs :=
  Regex.covers_concat_letters

/-- A look at the next character. -/
@[simp] theorem covers_look_oneOf {positive : Bool} {cs : List Char} :
    (Regex.look positive (oneOf cs)).Covers span next ↔
      span = [] ∧ beginsWith cs next = positive := by
  have hbegins : (∃ first rest, next = first ++ rest ∧ (oneOf cs).Covers first rest) ↔
      beginsWith cs next = true := by
    simp only [covers_oneOf]
    constructor
    · rintro ⟨_, rest, rfl, c, hc, rfl⟩
      simpa [beginsWith] using hc
    · intro h
      cases next with
      | nil => cases h
      | cons c rest => exact ⟨[c], rest, rfl, c, by simpa [beginsWith] using h, rfl⟩
  rw [Regex.covers_look, hbegins]
  cases positive <;> simp

/-- A look at the character behind the next one. -/
@[simp] theorem covers_look_goesOn {cs : List Char} :
    (Regex.look true (.concat [.one .notNewline, oneOf cs])).Covers span next ↔
      span = [] ∧ goesOnWith cs next = true := by
  have hgoes : (∃ first rest, next = first ++ rest ∧
        (Regex.concat [.one .notNewline, oneOf cs]).Covers first rest) ↔
      goesOnWith cs next = true := by
    simp only [Regex.covers_concat_cons, Regex.covers_concat_nil, Regex.covers_one, covers_oneOf]
    constructor
    · rintro ⟨_, rest, rfl, _, _, rfl, ⟨c, rfl, hc⟩, _, _, rfl, ⟨d, hd, rfl⟩, rfl⟩
      simpa [goesOnWith, hd] using hc
    · intro h
      rcases next with _ | ⟨c, _ | ⟨d, rest⟩⟩
      · cases h
      · cases h
      · obtain ⟨hc, hd⟩ : c ≠ '\n' ∧ d ∈ cs := by simpa [goesOnWith] using h
        exact ⟨[c, d], rest, rfl, [c], [d], rfl, ⟨c, rfl, by simpa using hc⟩, [d], [], rfl,
          ⟨d, hd, rfl⟩, rfl⟩
  rw [Regex.covers_look, hgoes, iff_true_right rfl]

theorem isMarkedAlef_iff :
    isMarkedAlef span = true ↔ ∃ c, span = ['\u0627', '\u06DF', c] ∧ c ≠ ' ' := by
  unfold isMarkedAlef
  split <;> simp_all

/-- The items of a family cover what the family spells. -/
theorem Family.covers_items (f : Family) :
    (Regex.concat f.items).Covers span next ↔ f.spells span next = true := by
  cases f with
  | articleRelative => simp [items, spells]
  | articleLam => simp [items, spells, and_or_left, exists_or]
  | alef => simp [items, spells, or_assoc]
  | yeh => simp [items, spells, isMarkedAlef_iff, CharSet.contains]
  | alefMaksura => simp [items, spells]
  | hamza => simp [items, spells]
  | alefMadda => simp [items, spells]
  | waw => simp [items, spells]
  | noon => simp [items, spells, and_or_left, or_and_right, exists_or, or_assoc]

/-- The items of a token cover what the token spells. -/
theorem Token.covers_items (t : Token) :
    (Regex.concat t.items).Covers span next ↔ t.spells span next = true := by
  cases t with
  | letter c => simp [items, spells]
  | family f => exact f.covers_items

/-! ## The tokens of a query -/

/-- The characters that the wildcard passes over. -/
def fillers : CharSet :=
  .complement (.union (.union (.union (.range '\u0621' '\u063A') (.range '\u0641' '\u064A'))
    (.only '\u0671')) (.only ' '))

theorem contains_fillers (c : Char) : fillers.contains c = isFiller c := by
  simp [fillers, isFiller, CharSet.contains]

/-- The wildcard, as it is read. -/
def wildcard : Regex := .star false (.one fillers)

theorem covers_wildcard : wildcard.Covers span next ↔ ∀ c ∈ span, isFiller c = true := by
  simp [wildcard, contains_fillers]

/-- The items of tokens with the wildcard between them. -/
def body : List Token → List Regex
  | [] => []
  | [t] => t.items
  | t :: t' :: ts => t.items ++ wildcard :: body (t' :: ts)

/-- Tokens with the wildcard behind each of them, the last one too. -/
theorem flatMap_items_wildcard {ts : List Token} (h : ts ≠ []) :
    (ts.flatMap fun t => t.items ++ [wildcard]) = body ts ++ [wildcard] := by
  induction ts with
  | nil => exact absurd rfl h
  | cons t ts ih =>
    cases ts with
    | nil => simp [body]
    | cons t' ts =>
      rw [List.flatMap_cons, ih (List.cons_ne_nil t' ts), body]
      simp

/-- The items of the tokens cover the spans that carry them. -/
theorem covers_body {ts : List Token} :
    (Regex.concat (body ts)).Covers span next ↔ Carries ts span next := by
  induction ts generalizing span with
  | nil => exact Iff.rfl
  | cons t ts ih =>
    cases ts with
    | nil => exact t.covers_items
    | cons t' ts =>
      simp only [body, Regex.covers_concat_append, Regex.covers_concat_cons, Token.covers_items,
        covers_wildcard, ih, Carries]
      constructor
      · rintro ⟨first, _, rfl, hfirst, fill, rest, rfl, hfill, hrest⟩
        exact ⟨first, fill, rest, rfl, hfirst, hfill, hrest⟩
      · rintro ⟨first, fill, rest, rfl, hfirst, hfill, hrest⟩
        exact ⟨first, fill ++ rest, rfl, hfirst, fill, rest, rfl, hfill, hrest⟩

/-! ## The text of a query -/

theorem Family.startsItem_expansion (f : Family) : StartsItem f.expansion.toList := by
  cases f <;> exact startsItem_cons (by decide) _

theorem reads_nonConsonant (n : Nat) : Reads 0 n nonConsonant.toList [wildcard] n := by
  have hset : ReadsItem 0 n
      ['[', '^', '\u0621', '-', '\u063A', '\u0641', '-', '\u064A', '\u0671', ' ', ']']
      (.one fillers) n := fun _ _ _ => rfl
  exact hset.lazy rfl

theorem Token.reads_source {t : Token} (h : ∀ c, t = .letter c → isLiteral c = true) (n : Nat) :
    Reads 2 n t.source t.items n ∧ StartsItem t.source := by
  cases t with
  | letter c =>
    have hc := h c rfl
    exact ⟨(readsItem_letter hc).reads.mono (by decide), startsItem_letter hc⟩
  | family f => exact ⟨f.reads_expansion n, f.startsItem_expansion⟩

/-- The text of a query is read as the items of its tokens, each followed by the wildcard. -/
theorem reads_emit {ts : List Token} (h : ∀ c, .letter c ∈ ts → isLiteral c = true) (n : Nat) :
    Reads 2 n (emit nonConsonant.toList (segments ts)) (ts.flatMap fun t => t.items ++ [wildcard])
        n ∧
      StartsItem (emit nonConsonant.toList (segments ts)) := by
  rw [emit_eq_flatMap]
  refine Reads.flatMap fun t ht => ?_
  obtain ⟨hreads, hstarts⟩ := Token.reads_source (t := t) (fun c hc => h c (hc ▸ ht)) n
  have hwild : StartsItem nonConsonant.toList := startsItem_cons (by decide) _
  exact ⟨hreads.append ((reads_nonConsonant n).mono (by decide)) hwild, hstarts.append hwild⟩

end VerseSearch.Letters
