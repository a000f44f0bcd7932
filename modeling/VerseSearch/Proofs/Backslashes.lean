import VerseSearch.Proofs.Reading

/-!
# Only a backslash refers to a group

A reference is written with a backslash. So the reader of a text without one has at no time read a
reference, and is not about to (`ReadState.Unreferring`), and the expression that is read has none
(`Regex.refers_of_read`).
-/

set_option autoImplicit false

namespace VerseSearch

/-! ## Expressions that are put together -/

namespace Regex

theorem refers_choice {rs : List Regex} : (choice rs).refers = rs.any refers := by
  induction rs with
  | nil => rfl
  | cons r rs ih =>
    cases rs with
    | nil => exact (Bool.or_false _).symm
    | cons s rs => rw [choice, refers, ih, List.any_cons (a := r)]

theorem refers_maybe (greedy : Bool) (r : Regex) : (maybe greedy r).refers = r.refers := by
  cases greedy
  · rfl
  · exact Bool.or_false _

theorem refers_upTo (greedy : Bool) {r : Regex} (hr : r.refers = false) (n : Nat) :
    (upTo greedy r n).refers = false := by
  induction n using upTo.induct with
  | case1 => rfl
  | case2 => rw [upTo, refers_maybe, hr]
  | case3 n ih => rw [upTo, refers_maybe, refers, hr, ih, Bool.or_false]

end Regex

theorem Repetition.refers_apply (greedy : Bool) {r : Regex} (hr : r.refers = false)
    (times : Repetition) : (times.apply greedy r).refers = false := by
  have hmore : (times.more greedy r).any Regex.refers = false := by
    unfold more
    split
    · simp [Regex.refers, hr]
    · split
      · simp [Regex.refers_upTo greedy hr]
      · rfl
  rw [apply, Regex.refers_concat, List.any_append, hmore, Bool.or_false, List.any_eq_false]
  intro s hs
  rw [List.eq_of_mem_replicate hs, hr]
  exact Bool.false_ne_true

/-! ## The reader -/

/-- Whether a group as far as it is read has a reference in it. -/
def Branches.refers (b : Branches) : Bool := b.choices.any Regex.refers || b.items.any Regex.refers

/-- Whether the last characters are a reference, or may become one, or are behind one. -/
def Tail.refers : Tail → Bool
  | .item r => r.refers
  | .repeated r _ => r.refers
  | .lazy r => r.refers
  | .count r _ => r.refers
  | .escape => true
  | .reference _ => true
  | .settled => false
  | .paren => false
  | .parenMark => false
  | .set _ => false

namespace Branches

variable {b : Branches} {r : Regex}

theorem refers_add (hb : b.refers = false) (hr : r.refers = false) : (b.add r).refers = false := by
  simp only [refers, Bool.or_eq_false_iff] at hb ⊢
  exact ⟨hb.1, by rw [add, List.any_cons, hr, hb.2, Bool.or_false]⟩

theorem refers_foldl_add {rs : List Regex} (hb : b.refers = false)
    (hrs : ∀ r ∈ rs, r.refers = false) : (rs.foldl add b).refers = false := by
  induction rs generalizing b with
  | nil => exact hb
  | cons r rs ih =>
    obtain ⟨hr, hrs⟩ := List.forall_mem_cons.1 hrs
    exact ih (refers_add hb hr) hrs

theorem refers_bar (hb : b.refers = false) : b.bar.refers = false := by
  simp only [refers, Bool.or_eq_false_iff] at hb
  have hitems : (Regex.concat b.items.reverse).refers = false := by
    rw [Regex.refers_concat, List.any_reverse, hb.2]
  rw [refers, bar, List.any_cons, hitems, hb.1]
  rfl

theorem refers_regex (hb : b.refers = false) : b.regex.refers = false := by
  have hbar := refers_bar hb
  rw [refers, Bool.or_eq_false_iff] at hbar
  rw [regex, Regex.refers_choice, List.any_reverse, hbar.1]

end Branches

theorem Opener.refers_close {body : Regex} (h : body.refers = false) (opener : Opener) :
    (opener.close body).refers = false := by
  cases opener <;> exact h

namespace ReadState

/-- No reference is read, and none is about to be. -/
structure Unreferring (st : ReadState) : Prop where
  current : st.current.refers = false
  around : ∀ e ∈ st.around, e.1.refers = false
  tail : st.tail.refers = false

theorem unreferring_start : start.Unreferring := ⟨rfl, (fun _ he => nomatch he), rfl⟩

variable {st st' : ReadState} {r : Regex} {c : Char}

theorem Unreferring.atom (h : st.Unreferring) (hr : r.refers = false) :
    (st.atom r).Unreferring := ⟨h.current, h.around, hr⟩

theorem Unreferring.addSettled (h : st.Unreferring) (hr : r.refers = false) :
    (st.addSettled r).Unreferring := ⟨Branches.refers_add h.current hr, h.around, rfl⟩

/-- A repetition that turns out to be text. -/
private theorem refers_items_count {b : Branches} (hb : b.refers = false) (hr : r.refers = false)
    (typed : List Char) :
    ((r :: Regex.letter '\x7b' :: typed.map Regex.letter).foldl Branches.add b).refers = false := by
  refine Branches.refers_foldl_add hb fun s hs => ?_
  rcases List.mem_cons.1 hs with rfl | hs
  · exact hr
  rcases List.mem_cons.1 hs with rfl | hs
  · rfl
  · obtain ⟨d, _, rfl⟩ := List.mem_map.1 hs
    rfl

theorem Unreferring.settle (h : st.Unreferring) : st.settle.Unreferring := by
  obtain ⟨b, around, tail, n⟩ := st
  cases tail with
  | item r => exact h.addSettled h.tail
  | repeated r times => exact h.addSettled (Repetition.refers_apply true h.tail times)
  | lazy r => exact h.addSettled h.tail
  | count r typed => exact ⟨refers_items_count h.current h.tail typed.reverse, h.around, rfl⟩
  | escape => exact h
  | reference n => cases h.tail
  | settled => exact h
  | paren => exact h
  | parenMark => exact h
  | set s => exact h

theorem Unreferring.spill (h : st.Unreferring) (hr : r.refers = false) (typed : List Char) :
    (st.spill r typed).Unreferring := by
  cases typed with
  | nil => exact ⟨Branches.refers_add h.current hr, h.around, rfl⟩
  | cons d typed => exact ⟨refers_items_count h.current hr typed.reverse, h.around, rfl⟩

theorem Unreferring.openGroup (h : st.Unreferring) {opener : Opener}
    (hst : st.openGroup opener = .ok st') : st'.Unreferring := by
  unfold ReadState.openGroup at hst
  split at hst
  · cases hst
    exact ⟨rfl, List.forall_mem_cons.2 ⟨h.current, h.around⟩, rfl⟩
  · cases hst

theorem Unreferring.closeGroup (h : st.Unreferring) (hst : st.closeGroup = .ok st') :
    st'.Unreferring := by
  obtain ⟨b, around, tail, n⟩ := st
  cases around with
  | nil => cases hst
  | cons e around =>
    cases hst
    obtain ⟨hbefore, haround⟩ := List.forall_mem_cons.1 h.around
    exact ⟨hbefore, haround, Opener.refers_close (Branches.refers_regex h.current) e.2⟩

theorem Unreferring.repeatBy (h : st.Unreferring) (hr : r.refers = false) {times : Repetition}
    (hst : st.repeatBy r times = .ok st') : st'.Unreferring := by
  unfold ReadState.repeatBy at hst
  split at hst
  · split at hst <;> cases hst
    exact ⟨h.current, h.around, hr⟩
  · cases hst

theorem Unreferring.repeatItem (h : st.Unreferring) {times : Repetition}
    (hst : st.repeatItem times = .ok st') : st'.Unreferring := by
  unfold ReadState.repeatItem at hst
  split at hst
  · rename_i r htail
    exact h.repeatBy ((congrArg Tail.refers htail).symm.trans h.tail) hst
  · cases hst

/-- A character other than a backslash at a place where an item may begin. -/
theorem Unreferring.begin (h : st.Unreferring) (hc : c ≠ '\\') (hst : st.begin c = .ok st') :
    st'.Unreferring := by
  have hsettled := h.settle
  unfold ReadState.begin at hst
  split at hst
  · cases hst
    exact ⟨hsettled.current, hsettled.around, rfl⟩
  · exact hsettled.closeGroup hst
  · cases hst
    exact ⟨hsettled.current, hsettled.around, rfl⟩
  · cases hst
    exact ⟨Branches.refers_bar hsettled.current, hsettled.around, hsettled.tail⟩
  · cases hst
    exact hsettled.atom rfl
  · exact absurd rfl hc
  · cases hst
  · cases hst
  · exact h.repeatItem hst
  · exact h.repeatItem hst
  · exact h.repeatItem hst
  · split at hst
    · rename_i r htail
      cases hst
      exact ⟨h.current, h.around, (congrArg Tail.refers htail).symm.trans h.tail⟩
    · cases hst
      exact hsettled.atom rfl
  · cases hst
    exact hsettled.atom rfl

/-- One more character, if it is no backslash. -/
theorem Unreferring.step (h : st.Unreferring) (hc : c ≠ '\\') (hst : st.step c = .ok st') :
    st'.Unreferring := by
  obtain ⟨b, around, tail, n⟩ := st
  cases tail with
  | settled => exact h.begin hc hst
  | item r => exact h.begin hc hst
  | repeated r times =>
    simp only [ReadState.step] at hst
    split at hst
    · cases hst
      exact ⟨h.current, h.around, Repetition.refers_apply false h.tail times⟩
    · split at hst
      · cases hst
        exact h.addSettled (Repetition.refers_apply true h.tail times)
      · exact h.settle.begin hc hst
  | lazy r =>
    simp only [ReadState.step] at hst
    split at hst
    · cases hst
      exact h.addSettled h.tail
    · exact h.settle.begin hc hst
  | count r typed =>
    simp only [ReadState.step] at hst
    split at hst
    · cases hst
      exact ⟨h.current, h.around, h.tail⟩
    · split at hst
      · exact h.repeatBy h.tail hst
      · exact (h.spill h.tail typed).begin hc hst
  | escape => cases h.tail
  | reference number => cases h.tail
  | paren =>
    simp only [ReadState.step] at hst
    split at hst
    · cases hst
      exact ⟨h.current, h.around, rfl⟩
    · split at hst
      · cases hst
      · rename_i opened hopened
        have hnumbered : (ReadState.mk b around .paren (n + 1)).Unreferring :=
          ⟨h.current, h.around, rfl⟩
        exact (hnumbered.openGroup hopened).begin hc hst
  | parenMark =>
    simp only [ReadState.step] at hst
    split at hst
    · exact h.openGroup hst
    · exact h.openGroup hst
    · exact h.openGroup hst
    · cases hst
  | set s =>
    simp only [ReadState.step] at hst
    split at hst
    · cases hst
    · cases hst
      exact ⟨h.current, h.around, rfl⟩
    · cases hst
      exact h.atom rfl

theorem Unreferring.run {s : List Char} (h : st.Unreferring) (hs : '\\' ∉ s)
    (hst : st.run s = .ok st') : st'.Unreferring := by
  induction s generalizing st with
  | nil =>
    cases hst
    exact h
  | cons c s ih =>
    rw [List.mem_cons, not_or] at hs
    rw [ReadState.run] at hst
    split at hst
    · cases hst
    · rename_i next hnext
      exact ih (h.step (Ne.symm hs.1) hnext) hs.2 hst

end ReadState

/-- A text without a backslash is read as an expression that does not refer to groups. -/
theorem Regex.refers_of_read {source : List Char} {r : Regex} (h : read source = .ok r)
    (hs : '\\' ∉ source) : r.refers = false := by
  unfold read at h
  split at h
  · cases h
  · rename_i st hst
    obtain ⟨_, rfl⟩ := ReadState.finish_eq_ok h
    exact Branches.refers_regex (ReadState.unreferring_start.run hs hst).settle.current

end VerseSearch
