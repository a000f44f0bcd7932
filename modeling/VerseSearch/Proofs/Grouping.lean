import VerseSearch.Proofs.Reading
import VerseSearch.Proofs.Remainders

/-!
# A text read in a group of its own

For emphasis the text of a pattern is read a second time between parentheses. The reader then does
what it does without them, except that it is inside one more group and numbers every group one
higher (`ReadState.enclosed`). So the second expression is the first one in a group, with its own
groups renumbered (`read_group_eq`), and both match the same spans (`rests_raise`).

The reader in the group may be stopped by the limit on open groups where the other one is not, and
this is the only way in which the two come apart on a text that can be read without parentheses.
-/

set_option autoImplicit false

namespace VerseSearch

/-! ## Numbering every group one higher -/

namespace Regex

/-- The expression with the number of every group one higher. References keep the number that is
written in them, so they may come to mean another group. -/
def raise : Regex → Regex
  | .empty => .empty
  | .one set => .one set
  | .seq r t => .seq r.raise t.raise
  | .alt r t => .alt r.raise t.raise
  | .star greedy r => .star greedy r.raise
  | .group n r => .group (n + 1) r.raise
  | .look positive r => .look positive r.raise
  | .atomic r => .atomic r.raise
  | .back n => .back n

@[simp] theorem raise_letter (c : Char) : (letter c).raise = letter c := rfl

theorem raise_concat (rs : List Regex) : (concat rs).raise = concat (rs.map raise) := by
  induction rs with
  | nil => rfl
  | cons r rs ih =>
    cases rs with
    | nil => rfl
    | cons t rs => exact congrArg (seq r.raise) ih

theorem raise_choice (rs : List Regex) : (choice rs).raise = choice (rs.map raise) := by
  induction rs with
  | nil => rfl
  | cons r rs ih =>
    cases rs with
    | nil => rfl
    | cons t rs => exact congrArg (alt r.raise) ih

theorem raise_maybe (greedy : Bool) (r : Regex) : (maybe greedy r).raise = maybe greedy r.raise := by
  cases greedy <;> rfl

theorem raise_upTo (greedy : Bool) (r : Regex) (n : Nat) :
    (upTo greedy r n).raise = upTo greedy r.raise n := by
  induction n using upTo.induct with
  | case1 => rfl
  | case2 => exact raise_maybe greedy r
  | case3 n ih => rw [upTo, upTo, raise_maybe, raise, ih]

@[simp] theorem repeatable_raise (r : Regex) : r.raise.repeatable = r.repeatable := by
  cases r <;> rfl

private theorem rests_raise_star (greedy : Bool) {r : Regex}
    (ih : ∀ s, r.raise.rests s = r.rests s) (n : Nat) {s : List Char} (hn : s.length ≤ n) :
    (star greedy r.raise).rests s = (star greedy r).rests s := by
  induction n using Nat.strongRecOn generalizing s with
  | _ n hrec =>
    have hmore : (fun u => if u.length < s.length then (star greedy r.raise).rests u else []) =
        fun u => if u.length < s.length then (star greedy r).rests u else [] := by
      funext u
      split
      · exact hrec u.length (by omega) (Nat.le_refl _)
      · rfl
    rw [rests_star, rests_star, ih, hmore]

/-- The numbers of groups make no difference to what matches. -/
theorem rests_raise (r : Regex) (s : List Char) : r.raise.rests s = r.rests s := by
  induction r generalizing s with
  | empty => rfl
  | one set => rfl
  | seq r t ihr iht => rw [raise, rests_seq, rests_seq, ihr, funext iht]
  | alt r t ihr iht => rw [raise, rests_alt, rests_alt, ihr, iht]
  | star greedy r ih => exact rests_raise_star greedy ih s.length (Nat.le_refl _)
  | group n r ih => rw [raise, rests_group, rests_group, ih]
  | look positive r ih => rw [raise, rests_look, rests_look, ih]
  | atomic r ih => rw [raise, rests_atomic, rests_atomic, ih]
  | back n => rfl

end Regex

theorem Repetition.raise_apply (greedy : Bool) (r : Regex) (times : Repetition) :
    (times.apply greedy r).raise = times.apply greedy r.raise := by
  have hmore : (times.more greedy r).map Regex.raise = times.more greedy r.raise := by
    unfold more
    split
    · rfl
    · split
      · rw [List.map_singleton, Regex.raise_upTo]
      · rfl
  rw [apply, apply, Regex.raise_concat, List.map_append, List.map_replicate, hmore]

/-! ## The states of the two readers -/

namespace Opener

/-- The opener of the group with the next number. -/
def raise : Opener → Opener
  | .capture n => .capture (n + 1)
  | .plain => .plain
  | .look positive => .look positive

theorem raise_close (body : Regex) (opener : Opener) :
    (opener.close body).raise = opener.raise.close body.raise := by
  cases opener <;> rfl

end Opener

namespace Branches

/-- The alternatives with the number of every group one higher. -/
def raise (b : Branches) : Branches := ⟨b.choices.map Regex.raise, b.items.map Regex.raise⟩

theorem raise_bar (b : Branches) : b.bar.raise = b.raise.bar := by
  simp [bar, raise, Regex.raise_concat]

theorem raise_regex (b : Branches) : b.regex.raise = b.raise.regex := by
  rw [regex, Regex.raise_choice, List.map_reverse]
  show Regex.choice b.bar.raise.choices.reverse = _
  rw [raise_bar]
  rfl

theorem raise_foldl_add (rs : List Regex) (b : Branches) :
    (rs.foldl add b).raise = (rs.map Regex.raise).foldl add b.raise := by
  induction rs generalizing b with
  | nil => rfl
  | cons r rs ih => exact ih (b.add r)

end Branches

/-- What the last characters read may yet become, with the number of every group one higher. -/
def Tail.raise : Tail → Tail
  | .item r => .item r.raise
  | .repeated r times => .repeated r.raise times
  | .lazy r => .lazy r.raise
  | .count r typed => .count r.raise typed
  | .escape => .escape
  | .reference n => .reference n
  | .settled => .settled
  | .paren => .paren
  | .parenMark => .parenMark
  | .set s => .set s

namespace ReadState

/-- The state of the reader that is in a group of its own. -/
def enclosed (st : ReadState) : ReadState where
  current := st.current.raise
  around := st.around.map (fun e => (e.1.raise, e.2.raise)) ++ [(.start, .capture 1)]
  tail := st.tail.raise
  groups := st.groups + 1

/-- The reader in the group gets as far as the other one, or is stopped by the limit on open
groups. -/
def Encloses (result : Except ReadFault ReadState) (st : ReadState) : Prop :=
  result = .ok st.enclosed ∨ result = .error .tooDeep

theorem enclosed_addSettled (st : ReadState) (r : Regex) :
    (st.addSettled r).enclosed = st.enclosed.addSettled r.raise := rfl

/-- An item, a brace and typed that turned out to be text. -/
private theorem raise_items_count (b : Branches) (r : Regex) (typed : List Char) :
    ((r :: Regex.letter '\x7b' :: typed.map Regex.letter).foldl Branches.add b).raise =
      (r.raise :: Regex.letter '\x7b' :: typed.map Regex.letter).foldl Branches.add b.raise := by
  rw [Branches.raise_foldl_add]
  simp [Function.comp_def]

theorem enclosed_settle (st : ReadState) : st.settle.enclosed = st.enclosed.settle := by
  obtain ⟨b, around, tail, n⟩ := st
  cases tail with
  | repeated r times =>
    show ReadState.enclosed (addSettled _ (times.apply true r)) = _
    rw [enclosed_addSettled, Repetition.raise_apply]
    rfl
  | count r typed =>
    simp only [settle, enclosed, Tail.raise, raise_items_count]
  | _ => rfl

theorem enclosed_spill (st : ReadState) (r : Regex) (typed : List Char) :
    (st.spill r typed).enclosed = st.enclosed.spill r.raise typed := by
  cases typed with
  | nil => rfl
  | cons d typed =>
    simp only [spill, enclosed, Tail.raise, raise_items_count, Regex.raise_letter]

/-! ## One character -/

variable {st st' : ReadState} {c : Char}

theorem encloses_openGroup {opener : Opener} (h : st.openGroup opener = .ok st') :
    Encloses (st.enclosed.openGroup opener.raise) st' := by
  unfold openGroup at h ⊢
  split at h
  · cases h
    split
    · exact .inl rfl
    · exact .inr rfl
  · cases h

theorem encloses_openCapture (h : st.openCapture = .ok st') :
    Encloses st.enclosed.openCapture st' := by
  have hopen : ({ st with groups := st.groups + 1 } : ReadState).openGroup
      (.capture (st.groups + 1)) = .ok st' := h
  exact encloses_openGroup hopen

theorem encloses_closeGroup (h : st.closeGroup = .ok st') :
    Encloses st.enclosed.closeGroup st' := by
  obtain ⟨b, around, tail, n⟩ := st
  cases around with
  | nil => cases h
  | cons e around =>
    cases h
    refine .inl ?_
    simp only [closeGroup, enclosed, Tail.raise, Opener.raise_close, Branches.raise_regex,
      List.map_cons, List.cons_append]

theorem encloses_repeatBy {r : Regex} {times : Repetition} (h : st.repeatBy r times = .ok st') :
    Encloses (st.enclosed.repeatBy r.raise times) st' := by
  unfold repeatBy at h ⊢
  rw [Regex.repeatable_raise]
  split at h
  · rw [if_pos ‹_›]
    split at h
    · cases h
    · cases h
      exact .inl rfl
  · cases h

theorem encloses_repeatItem {times : Repetition} (h : st.repeatItem times = .ok st') :
    Encloses (st.enclosed.repeatItem times) st' := by
  obtain ⟨b, around, tail, n⟩ := st
  cases tail with
  | item r =>
    have h : ReadState.repeatBy ⟨b, around, .item r, n⟩ r times = .ok st' := h
    exact encloses_repeatBy h
  | _ => cases h

/-- A group that is opened before is opened before in the group around the text, too. -/
theorem encloses_refer {number : Nat} (h : st.refer number c = .ok st') :
    Encloses (st.enclosed.refer number c) st' := by
  simp only [refer] at h ⊢
  split at h
  · rename_i hn
    cases h
    rw [if_pos ⟨hn.1, Nat.le_succ_of_le hn.2⟩]
    exact .inl rfl
  · cases h

theorem encloses_escaped (h : st.escaped c = .ok st') : Encloses (st.enclosed.escaped c) st' := by
  unfold escaped at h ⊢
  split at h
  · rw [if_pos ‹_›]
    exact encloses_refer h
  · rw [if_neg ‹_›]
    split at h
    · cases h
      exact .inl rfl
    · cases h

theorem begin_of_isLiteral (st : ReadState) (hc : isLiteral c = true) :
    st.begin c = .ok (st.settle.atom (.letter c)) := by
  unfold ReadState.begin
  split <;> first | exact absurd hc (by decide) | rfl

/-- A step behind a settled state that does not look at groups. -/
theorem encloses_settle (st : ReadState) (f : ReadState → ReadState)
    (h : ∀ st : ReadState, (f st).enclosed = f st.enclosed) :
    Encloses (.ok (f st.enclosed.settle)) (f st.settle) := by
  rw [← enclosed_settle, ← h]
  exact .inl rfl

theorem encloses_brace (h : st.begin '\x7b' = .ok st') :
    Encloses (st.enclosed.begin '\x7b') st' := by
  have hletter : Encloses (.ok (st.enclosed.settle.atom (.letter '\x7b')))
      (st.settle.atom (.letter '\x7b')) := encloses_settle st (·.atom (.letter '\x7b')) fun _ => rfl
  obtain ⟨b, around, tail, n⟩ := st
  cases tail with
  | item r =>
    cases h
    exact .inl rfl
  | _ =>
    cases h
    exact hletter

theorem encloses_begin (h : st.begin c = .ok st') : Encloses (st.enclosed.begin c) st' := by
  by_cases hc : c ∈ operators
  · simp only [operators, List.mem_cons, List.not_mem_nil, or_false] at hc
    rcases hc with rfl | rfl | rfl | rfl | rfl | rfl | rfl | rfl | rfl | rfl | rfl | rfl
    · exact encloses_repeatItem h
    · exact encloses_repeatItem h
    · exact encloses_repeatItem h
    · exact encloses_brace h
    · cases h
      exact encloses_settle st (fun st => { st with tail := .paren }) fun _ => rfl
    · have hclose : Encloses st.settle.enclosed.closeGroup st' := encloses_closeGroup h
      rw [enclosed_settle] at hclose
      exact hclose
    · cases h
      exact encloses_settle st (fun st => { st with tail := .set .start }) fun _ => rfl
    · cases h
      refine encloses_settle st (fun st => { st with current := st.current.bar }) fun st => ?_
      simp only [enclosed, Branches.raise_bar]
    · cases h
      exact encloses_settle st (·.atom (.one .notNewline)) fun _ => rfl
    · cases h
      exact encloses_settle st (fun st => { st with tail := .escape }) fun _ => rfl
    · cases h
    · cases h
  · have hliteral := isLiteral_of_not_mem_operators hc
    rw [begin_of_isLiteral st hliteral] at h
    rw [begin_of_isLiteral st.enclosed hliteral]
    cases h
    exact encloses_settle st (·.atom (.letter c)) fun _ => rfl

theorem encloses_settle_begin (h : st.settle.begin c = .ok st') :
    Encloses (st.enclosed.settle.begin c) st' := by
  rw [← enclosed_settle]
  exact encloses_begin h

variable {b : Branches} {around : List (Branches × Opener)} {n : Nat}

theorem encloses_step_repeated {r : Regex} {times : Repetition}
    (h : (ReadState.mk b around (.repeated r times) n).step c = .ok st') :
    Encloses ((ReadState.mk b around (.repeated r times) n).enclosed.step c) st' := by
  simp only [step, enclosed, Tail.raise] at h ⊢
  split at h
  · cases h
    rw [if_pos ‹_›]
    simp [Encloses, enclosed, Tail.raise, Repetition.raise_apply]
  · rw [if_neg ‹_›]
    split at h
    · cases h
      rw [if_pos ‹_›]
      refine .inl ?_
      rw [enclosed_addSettled, Regex.raise, Repetition.raise_apply]
      rfl
    · rw [if_neg ‹_›]
      exact encloses_settle_begin h

theorem encloses_step_count {r : Regex} {typed : List Char}
    (h : (ReadState.mk b around (.count r typed) n).step c = .ok st') :
    Encloses ((ReadState.mk b around (.count r typed) n).enclosed.step c) st' := by
  simp only [step, enclosed, Tail.raise] at h ⊢
  split at h
  · cases h
    rw [if_pos ‹_›]
    exact .inl rfl
  · rw [if_neg ‹_›]
    split at h
    · exact encloses_repeatBy h
    · have hspill := encloses_begin h
      rw [enclosed_spill] at hspill
      exact hspill

/-- The character behind a parenthesis decides whether a numbered group is opened. -/
theorem encloses_step_paren (h : (ReadState.mk b around .paren n).step c = .ok st') :
    Encloses ((ReadState.mk b around .paren n).enclosed.step c) st' := by
  simp only [step, enclosed, Tail.raise] at h ⊢
  split at h
  · cases h
    rw [if_pos ‹_›]
    exact .inl rfl
  · rw [if_neg ‹_›]
    cases hopen : (ReadState.mk b around .paren n).openCapture with
    | error fault =>
      rw [hopen] at h
      cases h
    | ok st =>
      rw [hopen] at h
      rcases encloses_openCapture hopen with hok | herror
      · simp only [enclosed, Tail.raise] at hok
        rw [hok]
        exact encloses_begin h
      · simp only [enclosed, Tail.raise] at herror
        rw [herror]
        exact .inr rfl

/-- A character that one reader accepts is accepted by the other one too, unless it opens a group
too many. -/
theorem encloses_step (h : st.step c = .ok st') : Encloses (st.enclosed.step c) st' := by
  obtain ⟨b, around, tail, n⟩ := st
  cases tail with
  | settled => exact encloses_begin h
  | item r => exact encloses_begin h
  | repeated r times => exact encloses_step_repeated h
  | lazy r =>
    simp only [step, enclosed, Tail.raise] at h ⊢
    split at h
    · cases h
      rw [if_pos ‹_›]
      exact .inl rfl
    · rw [if_neg ‹_›]
      exact encloses_settle_begin h
  | count r typed => exact encloses_step_count h
  | escape => exact encloses_escaped h
  | reference number =>
    simp only [step, enclosed, Tail.raise] at h ⊢
    split at h
    · rw [if_pos ‹_›]
      exact encloses_refer h
    · rw [if_neg ‹_›]
      exact encloses_begin h
  | paren => exact encloses_step_paren h
  | parenMark =>
    simp only [step, enclosed, Tail.raise] at h ⊢
    split at h
    · exact encloses_openGroup h
    · exact encloses_openGroup h
    · exact encloses_openGroup h
    · cases h
  | set s =>
    simp only [step, enclosed, Tail.raise] at h ⊢
    cases hs : s.step c with
    | error fault =>
      rw [hs] at h
      cases h
    | ok result =>
      rw [hs] at h
      cases result <;> cases h <;> exact .inl rfl

/-! ## Whole texts -/

theorem encloses_run {s : List Char} (h : st.run s = .ok st') :
    Encloses (st.enclosed.run s) st' := by
  induction s generalizing st with
  | nil =>
    cases h
    exact .inl rfl
  | cons c s ih =>
    rw [run] at h
    cases hc : st.step c with
    | error fault =>
      rw [hc] at h
      cases h
    | ok next =>
      rw [hc] at h
      rcases encloses_step hc with hok | herror
      · rw [run_cons_of_ok hok]
        exact ih h
      · refine .inr ?_
        rw [run, herror]

/-- A text that can be read begins with no sign, so the parenthesis before it opens a numbered
group. -/
theorem run_paren_of_run {s : List Char} (hs : s ≠ []) (h : start.run s = .ok st) (t : List Char) :
    start.run ('(' :: s ++ t) = start.enclosed.run (s ++ t) := by
  obtain ⟨c, s, rfl⟩ := List.exists_cons_of_ne_nil hs
  have hc : c ≠ '?' := by
    rintro rfl
    cases h
  have hstep : (ReadState.mk .start [] .paren 0).step c = start.enclosed.step c := by
    show (if c = '?' then _ else _) = _
    rw [if_neg hc]
    rfl
  show (ReadState.mk .start [] .paren 0).run (c :: (s ++ t)) = start.enclosed.run (c :: (s ++ t))
  rw [run, run, hstep]

/-- A brace and typed are settled as text whether or not more text follows. -/
theorem settle_spill {r : Regex} {typed : List Char} (h : st.tail = .count r typed) :
    (st.spill r typed).settle = st.settle := by
  obtain ⟨b, around, tail, n⟩ := st
  cases h
  cases typed with
  | nil => rfl
  | cons d typed => simp [spill, settle, addSettled, List.foldl_append]

theorem around_settle (st : ReadState) : st.settle.around = st.around := by
  obtain ⟨b, around, tail, n⟩ := st
  cases tail <;> rfl

/-- Where a text may end, a parenthesis closes the group around it. -/
theorem step_close_of_finish {r : Regex} (h : st.finish = .ok r) :
    st.enclosed.step ')' = st.settle.enclosed.closeGroup := by
  rw [enclosed_settle]
  obtain ⟨b, around, tail, n⟩ := st
  cases tail with
  | settled => rfl
  | item r => rfl
  | repeated r times => rfl
  | lazy r => rfl
  | count r typed => exact congrArg closeGroup (settle_spill rfl)
  | reference number => rfl
  | _ => cases h

/-- Where one reader ends, the other one ends with the same expression in a group. -/
theorem finish_enclosed {r : Regex} (h : st.finish = .ok r) :
    (st.enclosed.run [')']).bind finish = .ok (.group 1 r.raise) := by
  obtain ⟨haround, rfl⟩ := finish_eq_ok h
  have hclose : st.enclosed.step ')' =
      .ok ⟨.start, [], .item (.group 1 st.settle.current.raise.regex), st.settle.groups + 1⟩ := by
    rw [step_close_of_finish h]
    have hsettled : st.settle.around = [] := (around_settle st).trans haround
    simp only [closeGroup, enclosed, hsettled, List.map_nil, List.nil_append]
    rfl
  rw [run_cons_of_ok hclose, Branches.raise_regex]
  rfl

end ReadState

/-- The expression that is read for emphasis is the one that is read for counting, in a group and
with its own groups renumbered. -/
theorem Regex.read_group_eq {source : List Char} (hne : source ≠ []) {counting marking : Regex}
    (hcounting : read source = .ok counting)
    (hmarking : read ('(' :: source ++ [')']) = .ok marking) :
    marking = .group 1 counting.raise := by
  unfold read at hcounting hmarking
  cases hrun : ReadState.start.run source with
  | error fault =>
    rw [hrun] at hcounting
    cases hcounting
  | ok st =>
    rw [hrun] at hcounting
    rw [ReadState.run_paren_of_run hne hrun] at hmarking
    rcases ReadState.encloses_run hrun with hok | herror
    · rw [ReadState.run_append_of_ok hok] at hmarking
      have hfinish := ReadState.finish_enclosed hcounting
      cases hlast : st.enclosed.run [')'] with
      | error fault =>
        rw [hlast] at hmarking
        cases hmarking
      | ok last =>
        rw [hlast] at hmarking hfinish
        exact Except.ok.inj (hmarking.symm.trans hfinish)
    · rw [ReadState.run_append, herror] at hmarking
      cases hmarking

end VerseSearch
