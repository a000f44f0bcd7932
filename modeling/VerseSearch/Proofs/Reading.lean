import VerseSearch.Regex.Reader

/-!
# Reading an expression unit by unit

The text of an expression is put together from the texts of its parts, and so is what the reader
makes of it. `Reads` says which items a text adds to the innermost open group, `ReadsItem` that it is
a single item which a repetition may follow, and `ReadsChoices` that it is a list of alternatives.
Each has a law for every way to put texts together, and `read_of_reads` ends a proof about a whole
text.

All three are said of a reader that has nothing half read. The reader that goes on behind a text may
hold an item back, for a repetition to follow; `run_of_isReady` states that this makes no difference
to a text that begins with an item of its own.
-/

set_option autoImplicit false

namespace VerseSearch

/-! ## Characters -/

/-- A character that a repetition of the item before it begins with. -/
def repeats (c : Char) : Bool := c == '*' || c == '+' || c == '?' || c == '\x7b'

/-- A character that stands for itself. -/
def isLiteral (c : Char) : Bool :=
  !repeats c && c != '(' && c != ')' && c != '[' && c != '|' && c != '.' && c != '\\' &&
    c != '^' && c != '$'

/-- The characters that do not stand for themselves. -/
def operators : List Char := ['*', '+', '?', '\x7b', '(', ')', '[', '|', '.', '\\', '^', '$']

theorem isLiteral_of_not_mem_operators {c : Char} (h : c ∉ operators) : isLiteral c = true := by
  simp only [operators, List.mem_cons, List.not_mem_nil, or_false, not_or] at h
  simp [isLiteral, repeats, h]

/-- The text does not begin with a repetition. -/
def StartsItem (s : List Char) : Prop := ∀ c ∈ s.head?, repeats c = false

theorem startsItem_nil : StartsItem [] := fun _ h => by cases h

theorem startsItem_cons {c : Char} (h : repeats c = false) (s : List Char) :
    StartsItem (c :: s) := by
  intro d hd
  cases hd
  exact h

theorem StartsItem.append {s t : List Char} (h : StartsItem s) (ht : StartsItem t) :
    StartsItem (s ++ t) := by
  cases s with
  | nil => exact ht
  | cons c s => exact h

/-! ## States with nothing half read -/

namespace Branches

/-- The alternatives with more items in the current one. -/
def addItems (b : Branches) (rs : List Regex) : Branches := ⟨b.choices, rs.reverse ++ b.items⟩

/-- The alternatives with more items in the current one, and further alternatives behind it. -/
def addChoices (b : Branches) : List (List Regex) → Branches
  | [] => b
  | [rs] => b.addItems rs
  | rs :: rs' :: rss => (b.addItems rs).bar.addChoices (rs' :: rss)

theorem addItems_addItems (b : Branches) (rs ss : List Regex) :
    (b.addItems rs).addItems ss = b.addItems (rs ++ ss) := by
  simp [addItems]

theorem regex_addChoices (choices : List Regex) {rss : List (List Regex)} (h : rss ≠ []) :
    ((⟨choices, []⟩ : Branches).addChoices rss).regex =
      Regex.choice (choices.reverse ++ rss.map Regex.concat) := by
  induction rss generalizing choices with
  | nil => exact absurd rfl h
  | cons rs rss ih =>
    cases rss with
    | nil => simp [addChoices, addItems, regex, bar]
    | cons rs' rss =>
      rw [addChoices]
      show ((⟨Regex.concat (rs.reverse ++ []).reverse :: choices, []⟩ : Branches).addChoices
        (rs' :: rss)).regex = _
      rw [ih _ (List.cons_ne_nil _ _)]
      simp

end Branches

namespace ReadState

/-- An item may begin. -/
def IsReady (st : ReadState) : Prop :=
  match st.tail with
  | .settled | .item _ | .repeated _ _ | .lazy _ => True
  | _ => False

/-- Items around which nothing is half read. -/
def settled (b : Branches) (around : List (Branches × Opener)) (groups : Nat) : ReadState :=
  ⟨b, around, .settled, groups⟩

/-- A state that is ready is settled when no more of its item follows. -/
theorem IsReady.tail_settle {st : ReadState} (h : st.IsReady) : st.settle.tail = .settled := by
  obtain ⟨b, around, tail, n⟩ := st
  cases tail <;> first | rfl | exact absurd h id

theorem settle_eq_self {st : ReadState} (h : st.tail = .settled) : st.settle = st := by
  obtain ⟨b, around, tail, n⟩ := st
  cases h
  rfl

theorem begin_settle {st : ReadState} (h : st.IsReady) {c : Char} (hc : repeats c = false) :
    st.settle.begin c = st.begin c := by
  have hs : st.settle.settle = st.settle := settle_eq_self h.tail_settle
  unfold ReadState.begin
  split <;> first | exact absurd hc (by decide) | rfl | rw [hs]

/-- An item that begins ends the one before it. -/
theorem step_of_isReady {st : ReadState} (h : st.IsReady) {c : Char} (hc : repeats c = false) :
    st.step c = st.settle.begin c := by
  have hbegin := begin_settle h hc
  have hne : c ≠ '?' ∧ c ≠ '+' := by
    simp only [repeats, Bool.or_eq_false_iff, beq_eq_false_iff_ne] at hc
    exact ⟨hc.1.2, hc.1.1.2⟩
  obtain ⟨b, around, tail, n⟩ := st
  cases tail with
  | settled => rfl
  | item r => exact hbegin.symm
  | repeated r times => simp [step, hne.1, hne.2]
  | lazy r => simp [step, hne.2]
  | _ => exact absurd h id

/-- Where a text may end, all groups are closed. -/
theorem finish_eq_ok {st : ReadState} {r : Regex} (h : st.finish = .ok r) :
    st.around = [] ∧ r = st.settle.current.regex := by
  obtain ⟨b, around, tail, n⟩ := st
  cases around with
  | nil => cases tail <;> cases h <;> exact ⟨rfl, rfl⟩
  | cons e around => cases tail <;> cases h

theorem run_cons_of_ok {st st' : ReadState} {c : Char} (h : st.step c = .ok st') (s : List Char) :
    st.run (c :: s) = st'.run s := by
  rw [run, h]

/-- What a state holds back makes no difference to a text that begins with an item. -/
theorem run_of_isReady {st : ReadState} (h : st.IsReady) {s : List Char} (hs : StartsItem s)
    (hne : s ≠ []) : st.run s = st.settle.run s := by
  obtain ⟨c, s, rfl⟩ := List.exists_cons_of_ne_nil hne
  have hc : repeats c = false := hs c rfl
  have hready : st.settle.IsReady := by
    unfold IsReady
    rw [h.tail_settle]
    trivial
  rw [run, run, step_of_isReady h hc, step_of_isReady hready hc,
    settle_eq_self h.tail_settle]

end ReadState

/-! ## What a text adds -/

open ReadState (settled groupLimit)

/-- Where `n` groups were numbered before and no more than `depth` groups are opened inside each
other, the text adds the items, and `m` groups are numbered behind it. -/
def Reads (depth n : Nat) (s : List Char) (rs : List Regex) (m : Nat) : Prop :=
  ∀ (b : Branches) (around : List (Branches × Opener)), around.length + depth ≤ groupLimit →
    ∃ st : ReadState, (settled b around n).run s = .ok st ∧ st.IsReady ∧
      st.settle = settled (b.addItems rs) around m

/-- The text is one item, and a repetition may follow. -/
def ReadsItem (depth n : Nat) (s : List Char) (r : Regex) (m : Nat) : Prop :=
  ∀ (b : Branches) (around : List (Branches × Opener)), around.length + depth ≤ groupLimit →
    (settled b around n).run s = .ok ⟨b, around, .item r, m⟩

/-- The text adds items to the current alternative and then whole alternatives. -/
def ReadsChoices (depth n : Nat) (s : List Char) (rss : List (List Regex)) (m : Nat) : Prop :=
  ∀ (b : Branches) (around : List (Branches × Opener)), around.length + depth ≤ groupLimit →
    ∃ st : ReadState, (settled b around n).run s = .ok st ∧ st.IsReady ∧
      st.settle = settled (b.addChoices rss) around m

variable {depth n k m : Nat} {s t : List Char} {r : Regex} {rs ss : List Regex}

/-! ## Sequences -/

theorem Reads.nil : Reads depth n [] [] n :=
  fun b around _ => ⟨settled b around n, rfl, trivial, rfl⟩

theorem Reads.mono (h : Reads depth n s rs m) {depth' : Nat} (hd : depth ≤ depth') :
    Reads depth' n s rs m :=
  fun b around ha => h b around (by omega)

theorem Reads.append (h : Reads depth n s rs k) (h' : Reads depth k t ss m) (ht : StartsItem t) :
    Reads depth n (s ++ t) (rs ++ ss) m := by
  intro b around ha
  obtain ⟨st, hrun, hready, hst⟩ := h b around ha
  obtain ⟨st', hrun', hready', hst'⟩ := h' (b.addItems rs) around ha
  rw [ReadState.run_append_of_ok hrun]
  cases t with
  | nil =>
    cases hrun'
    refine ⟨st, rfl, hready, ?_⟩
    rw [hst, ← Branches.addItems_addItems]
    exact hst'
  | cons c t =>
    rw [ReadState.run_of_isReady hready ht (List.cons_ne_nil c t), hst]
    exact ⟨st', hrun', hready', by rw [hst', Branches.addItems_addItems]⟩

/-- Texts that number no groups, one after the other. -/
theorem Reads.flatMap {α : Type} {l : List α} {text : α → List Char} {items : α → List Regex}
    (h : ∀ a ∈ l, Reads depth n (text a) (items a) n ∧ StartsItem (text a)) :
    Reads depth n (l.flatMap text) (l.flatMap items) n ∧ StartsItem (l.flatMap text) := by
  induction l with
  | nil => exact ⟨.nil, startsItem_nil⟩
  | cons a l ih =>
    obtain ⟨hread, hstart⟩ := h a List.mem_cons_self
    obtain ⟨hread', hstart'⟩ := ih fun b hb => h b (List.mem_cons_of_mem a hb)
    exact ⟨hread.append hread' hstart', hstart.append hstart'⟩

/-! ## Single items -/

theorem ReadsItem.reads (h : ReadsItem depth n s r m) : Reads depth n s [r] m :=
  fun b around ha => ⟨_, h b around ha, trivial, rfl⟩

/-- A character that stands for itself. -/
theorem readsItem_letter {c : Char} (hc : isLiteral c = true) :
    ReadsItem 0 n [c] (.letter c) n := by
  intro b around _
  have hstep : (settled b around n).step c = .ok ⟨b, around, .item (.letter c), n⟩ := by
    show (settled b around n).begin c = _
    unfold ReadState.begin
    split <;> first | exact absurd hc (by decide) | rfl
  exact ReadState.run_cons_of_ok hstep []

/-- A full stop is any character but the line feed. -/
theorem readsItem_dot : ReadsItem 0 n ['.'] (.one .notNewline) n := fun _ _ _ => rfl

theorem startsItem_letter {c : Char} (hc : isLiteral c = true) : StartsItem (c :: s) := by
  refine startsItem_cons ?_ s
  cases h : repeats c with
  | false => rfl
  | true => simp [isLiteral, h] at hc

/-- Characters that stand for themselves, one after the other. -/
theorem reads_letters (s : List Char) (hs : s.all isLiteral = true) :
    Reads 0 n s (s.map Regex.letter) n := by
  rw [List.all_eq_true] at hs
  have h : Reads 0 n (s.flatMap fun c => [c]) (s.flatMap fun c => [Regex.letter c]) n :=
    (Reads.flatMap fun c hc =>
      ⟨(readsItem_letter (hs c hc)).reads, startsItem_letter (hs c hc)⟩).1
  rw [List.flatMap_singleton', ← List.map_eq_flatMap] at h
  exact h

/-! ## Sets -/

/-- The set of the characters of a list, as it is put together when they are read. -/
def CharSet.ofChars (cs : List Char) : CharSet :=
  cs.foldl (fun set c => set.add (.only c)) .empty

@[simp] theorem CharSet.contains_ofChars (cs : List Char) (c : Char) :
    (ofChars cs).contains c = decide (c ∈ cs) := by
  have h : ∀ set : CharSet, (cs.foldl (fun set c => set.add (.only c)) set).contains c =
      (set.contains c || decide (c ∈ cs)) := by
    induction cs with
    | nil => simp
    | cons d cs ih =>
      intro set
      rw [List.foldl_cons, ih, contains_add, contains_only]
      simp [Bool.or_assoc]
  exact (h .empty).trans (Bool.false_or _)

/-- A character that stands for itself in a set, wherever it is written there. -/
def isMember (c : Char) : Bool :=
  c != '[' && c != ']' && c != '-' && c != '^' && c != '\\' && c != '&' && c != '~'

/-- The set of parts that are read, with further characters. -/
def SetParts.setWith (parts : SetParts) (cs : List Char) : CharSet :=
  let members := cs.foldl (fun set c => set.add (.only c)) parts.members
  if parts.negated then .complement members else members

/-- A character that stands for itself where a part of a set may begin. -/
private theorem begin_of_isMember {parts : SetParts} {tail : SetTail} {c : Char}
    (hc : isMember c = true) :
    (OpenSet.mk parts [] tail).begin c = .ok (.inl ⟨parts, [], .char c⟩) := by
  unfold OpenSet.begin
  split <;> first | exact absurd hc (by decide) | rfl

/-- The rest of a set with nothing open in it. The last character read may yet begin a range. -/
private theorem run_members (b : Branches) (around : List (Branches × Opener)) (n : Nat)
    (parts : SetParts) (hdepth : parts.depth = 0) (a : Char) {cs : List Char}
    (hcs : cs.all isMember = true) :
    (ReadState.mk b around (.set ⟨parts, [], .char a⟩) n).run (cs ++ [']']) =
      .ok ⟨b, around, .item (.one (parts.setWith (a :: cs))), n⟩ := by
  have hadd : (parts.addChar a).depth = 0 := by
    show max parts.depth 0 = 0
    omega
  induction cs generalizing parts a with
  | nil =>
    have hlevel : (parts.addChar a).level ≤ OpenSet.levelLimit := by
      unfold SetParts.level
      rw [hadd]
      split <;> decide
    have hclose : (OpenSet.mk parts [] (.char a)).step ']' =
        .ok (.inr (parts.addChar a).set) := if_pos hlevel
    refine ReadState.run_cons_of_ok ?_ []
    simp only [ReadState.step, hclose]
    rfl
  | cons c cs ih =>
    obtain ⟨hc, hcs⟩ := Bool.and_eq_true_iff.1 hcs
    have hne : c ≠ '-' := by
      rintro rfl
      cases hc
    have hbegin : (OpenSet.mk parts [] (.char a)).step c =
        .ok (.inl ⟨parts.addChar a, [], .char c⟩) := by
      simp only [OpenSet.step, OpenSet.behindChar, if_neg hne]
      exact begin_of_isMember hc
    have hstep : (ReadState.mk b around (.set ⟨parts, [], .char a⟩) n).step c =
        .ok ⟨b, around, .set ⟨parts.addChar a, [], .char c⟩, n⟩ := by
      simp only [ReadState.step, hbegin]
    rw [List.cons_append, ReadState.run_cons_of_ok hstep]
    exact ih (parts.addChar a) hadd c hcs (by show max _ 0 = 0; omega)

/-- The first character of a set, behind the bracket or the caret. -/
private theorem beginFirst_of_isMember {parts : SetParts} {tail : SetTail} {c : Char}
    (hc : isMember c = true) :
    (OpenSet.mk parts [] tail).beginFirst c = .ok (.inl ⟨parts, [], .char c⟩) := by
  unfold OpenSet.beginFirst
  split <;> first | exact absurd hc (by decide) | exact begin_of_isMember hc

/-- A set of characters that are listed. -/
theorem readsItem_chars (c : Char) (cs : List Char) (h : (c :: cs).all isMember = true) :
    ReadsItem 0 n ('[' :: c :: cs ++ [']']) (.one (.ofChars (c :: cs))) n := by
  intro b around _
  obtain ⟨hc, hcs⟩ := Bool.and_eq_true_iff.1 h
  have hne : c ≠ '^' := by
    rintro rfl
    cases hc
  have hstep : (ReadState.mk b around (.set .start) n).step c =
      .ok ⟨b, around, .set ⟨.start, [], .char c⟩, n⟩ := by
    simp only [ReadState.step, OpenSet.step, OpenSet.start, if_neg hne, ne_eq, not_true_eq_false,
      and_false, if_false, beginFirst_of_isMember hc]
  show (ReadState.mk b around (.set .start) n).run (c :: (cs ++ [']'])) = _
  rw [ReadState.run_cons_of_ok hstep]
  exact run_members b around n .start rfl c hcs

/-- A set of all characters but those that are listed. -/
theorem readsItem_notChars (c : Char) (cs : List Char) (h : (c :: cs).all isMember = true) :
    ReadsItem 0 n ('[' :: '^' :: c :: cs ++ [']']) (.one (.complement (.ofChars (c :: cs)))) n := by
  intro b around _
  obtain ⟨hc, hcs⟩ := Bool.and_eq_true_iff.1 h
  let parts : SetParts := { SetParts.start with negated := true }
  have hstep : (ReadState.mk b around (.set ⟨parts, [], .caret⟩) n).step c =
      .ok ⟨b, around, .set ⟨parts, [], .char c⟩, n⟩ := by
    simp only [ReadState.step, OpenSet.step, beginFirst_of_isMember hc]
  show (ReadState.mk b around (.set ⟨parts, [], .caret⟩) n).run (c :: (cs ++ [']'])) = _
  rw [ReadState.run_cons_of_ok hstep]
  exact run_members b around n parts rfl c hcs

/-! ## Repetitions -/

/-- An item that may be left out. -/
theorem ReadsItem.optional (h : ReadsItem depth n s r m) (hr : r.repeatable = true) :
    Reads depth n (s ++ ['?']) [.alt r .empty] m := by
  intro b around ha
  refine ⟨⟨b, around, .repeated r .optional, m⟩, ?_, trivial, rfl⟩
  rw [ReadState.run_append_of_ok (h b around ha)]
  simp [ReadState.run, ReadState.step, ReadState.begin, ReadState.repeatItem, ReadState.repeatBy, hr,
    Repetition.optional, Repetition.fault?, Repetition.countLimit]

/-- An item any number of times, as rarely as possible. -/
theorem ReadsItem.lazy (h : ReadsItem depth n s r m) (hr : r.repeatable = true) :
    Reads depth n (s ++ ['*', '?']) [.star false r] m := by
  intro b around ha
  refine ⟨⟨b, around, .lazy (.star false r), m⟩, ?_, trivial, rfl⟩
  rw [ReadState.run_append_of_ok (h b around ha)]
  simp [ReadState.run, ReadState.step, ReadState.begin, ReadState.repeatItem, ReadState.repeatBy, hr,
    Repetition.anyNumber, Repetition.fault?, Repetition.countLimit, Repetition.apply,
    Repetition.more, Regex.concat]

/-! ## Alternatives -/

theorem Reads.choices (h : Reads depth n s rs m) : ReadsChoices depth n s [rs] m := h

/-- A bar ends an alternative. -/
theorem Reads.bar (h : Reads depth n s rs k) {rs' : List Regex} {rss : List (List Regex)}
    (h' : ReadsChoices depth k t (rs' :: rss) m) :
    ReadsChoices depth n (s ++ '|' :: t) (rs :: rs' :: rss) m := by
  intro b around ha
  obtain ⟨st, hrun, hready, hst⟩ := h b around ha
  obtain ⟨st', hrun', hready', hst'⟩ := h' (b.addItems rs).bar around ha
  refine ⟨st', ?_, hready', hst'⟩
  rw [ReadState.run_append_of_ok hrun, ReadState.run,
    ReadState.step_of_isReady hready (by decide), hst]
  exact hrun'

/-! ## Groups -/

/-- The end of a group whose alternatives are read. -/
theorem ReadsChoices.close {opener : Opener} {rss : List (List Regex)}
    (h : ReadsChoices depth n s rss m) (hrss : rss ≠ []) (b : Branches)
    (around : List (Branches × Opener)) (ha : around.length + (depth + 1) ≤ groupLimit) :
    (settled .start ((b, opener) :: around) n).run (s ++ [')']) =
      .ok ⟨b, around, .item (opener.close (.choice (rss.map .concat))), m⟩ := by
  obtain ⟨st, hrun, hready, hst⟩ := h .start ((b, opener) :: around) (by
    rw [List.length_cons]
    omega)
  have hregex : (Branches.start.addChoices rss).regex = .choice (rss.map .concat) :=
    Branches.regex_addChoices [] hrss
  rw [ReadState.run_append_of_ok hrun, ReadState.run,
    ReadState.step_of_isReady hready (by decide), hst, ← hregex]
  rfl

theorem openGroup_settled {opener : Opener} {b : Branches} {around : List (Branches × Opener)}
    {tail : Tail} (ha : around.length + (depth + 1) ≤ groupLimit) :
    (ReadState.mk b around tail n).openGroup opener =
      .ok (settled .start ((b, opener) :: around) n) := by
  have hlt : around.length < groupLimit := by omega
  simp only [ReadState.openGroup, hlt, if_true, settled]

/-- The two signs that open a group which is not numbered, or a look. -/
theorem run_opening {c : Char} {opener : Opener} (b : Branches)
    (around : List (Branches × Opener)) (n : Nat) (s : List Char)
    (hc : (ReadState.mk b around .parenMark n).step c =
      (ReadState.mk b around .parenMark n).openGroup opener)
    (ha : around.length + (depth + 1) ≤ groupLimit) :
    (settled b around n).run ('(' :: '?' :: c :: s) =
      (settled .start ((b, opener) :: around) n).run s := by
  rw [openGroup_settled ha] at hc
  exact ReadState.run_cons_of_ok hc s

/-- A group that is not numbered. -/
theorem ReadsChoices.plain {rss : List (List Regex)} (h : ReadsChoices depth n s rss m)
    (hrss : rss ≠ []) :
    ReadsItem (depth + 1) n ('(' :: '?' :: ':' :: s ++ [')']) (.choice (rss.map .concat)) m := by
  intro b around ha
  exact (run_opening b around n (s ++ [')']) rfl ha).trans (h.close hrss b around ha)

/-- What follows has to match. -/
theorem ReadsChoices.look {rss : List (List Regex)} (h : ReadsChoices depth n s rss m)
    (hrss : rss ≠ []) :
    ReadsItem (depth + 1) n ('(' :: '?' :: '=' :: s ++ [')'])
      (.look true (.choice (rss.map .concat))) m := by
  intro b around ha
  exact (run_opening b around n (s ++ [')']) rfl ha).trans (h.close hrss b around ha)

/-- What follows must not match. -/
theorem ReadsChoices.lookNot {rss : List (List Regex)} (h : ReadsChoices depth n s rss m)
    (hrss : rss ≠ []) :
    ReadsItem (depth + 1) n ('(' :: '?' :: '!' :: s ++ [')'])
      (.look false (.choice (rss.map .concat))) m := by
  intro b around ha
  exact (run_opening b around n (s ++ [')']) rfl ha).trans (h.close hrss b around ha)

/-- A numbered group. Its text must not begin as a group that is not numbered does. -/
theorem ReadsChoices.capture {rss : List (List Regex)} (h : ReadsChoices depth (n + 1) s rss m)
    (hrss : rss ≠ []) (hs : StartsItem s) :
    ReadsItem (depth + 1) n ('(' :: s ++ [')']) (.group (n + 1) (.choice (rss.map .concat))) m := by
  intro b around ha
  obtain ⟨c, t, ht⟩ : ∃ (c : Char) (t : List Char), s ++ [')'] = c :: t :=
    List.exists_cons_of_ne_nil (by simp)
  have hstart : StartsItem (s ++ [')']) := hs.append (startsItem_cons (by decide) [])
  have hc : c ≠ '?' := by
    rintro rfl
    have := hstart '?' (by rw [ht]; rfl)
    cases this
  -- the parenthesis opens the group only when the next character is there
  have hstep : (ReadState.mk b around .paren n).step c =
      (settled .start ((b, .capture (n + 1)) :: around) (n + 1)).step c := by
    have hopen : (ReadState.mk b around .paren (n + 1)).openGroup (.capture (n + 1)) =
        .ok (settled .start ((b, .capture (n + 1)) :: around) (n + 1)) := openGroup_settled ha
    simp only [ReadState.step, ReadState.openCapture, if_neg hc, hopen]
    rfl
  have hclose : (settled .start ((b, .capture (n + 1)) :: around) (n + 1)).run (s ++ [')']) =
      .ok ⟨b, around, .item (.group (n + 1) (.choice (rss.map .concat))), m⟩ :=
    h.close hrss b around ha
  show (ReadState.mk b around .paren n).run (s ++ [')']) = _
  rw [ht] at hclose ⊢
  rw [ReadState.run, hstep]
  exact hclose

/-! ## Whole texts -/

/-- A text that adds items is read as these items, one after the other. -/
theorem read_of_reads (h : Reads depth 0 s rs m) (hd : depth ≤ groupLimit) :
    Regex.read s = .ok (.concat rs) := by
  obtain ⟨st, hrun, hready, hst⟩ := h .start [] (by simpa using hd)
  have haround : st.around = [] := by
    have : st.settle.around = st.around := by
      obtain ⟨b, around, tail, n⟩ := st
      cases tail <;> rfl
    rw [← this, hst]
    rfl
  have hregex : st.settle.current.regex = .concat rs := by
    rw [hst]
    simp [settled, Branches.addItems, Branches.start, Branches.regex, Branches.bar, Regex.choice]
  unfold Regex.read
  rw [show ReadState.start = settled .start [] 0 from rfl, hrun]
  show st.finish = _
  rw [← hregex]
  unfold ReadState.finish
  rw [haround]
  obtain ⟨b, around, tail, n⟩ := st
  cases tail <;> first | rfl | exact absurd hready id

end VerseSearch
