import VerseSearch.Proofs.MarkMatches
import VerseSearch.Proofs.Tries

/-!
# How many tries a mark query takes

The expression of a mark query looks at what follows, so it is matched by trying. It takes few tries:
each character of the query takes at most two and covers something, the rest of a word takes one for
each character, and where no word begins there is nothing to try (`endsWithin_word`). A verse takes
about four tries for each of its characters, so only one of a quarter of a million characters can be
too much for a mark query (`isSome_cut?`).
-/

set_option autoImplicit false

namespace VerseSearch.Marks

variable {q w rest more : List Char} {c : Char} {attached : Bool} {n d : Nat} {p : Place}
  {k : Place → Nat → Attempt}

/-! ## A character of the query -/

theorem takes_bareItems : (Regex.concat bareItems).Takes 0 :=
  (Regex.takes_one _).seq ((Regex.takes_one _).look rfl)

/-- A character of a query takes at most two tries. -/
theorem takes_unitItems (n : Nat) (attached : Bool) (c : Char) :
    (Regex.concat (unitItems n attached c)).Takes 2 := by
  have hletter : (Regex.alt (.one letters) .empty).Takes 1 := (Regex.takes_one _).alt Regex.takes_empty
  unfold unitItems
  split
  · exact takes_bareItems.mono (by decide)
  split
  · exact ((hletter.seq (Regex.takes_one _)).alt takes_bareItems).group _
  split
  · exact (Regex.takes_one _).mono (by decide)
  · exact (hletter.seq (Regex.takes_one _)).mono (by decide)

theorem length_lt_of_scanMark {test : Char → Bool} (h : scanMark test w = some rest) :
    rest.length < w.length := by
  cases w with
  | nil => cases h
  | cons m w =>
    rw [scanMark] at h
    split at h <;> cases h
    exact Nat.lt_succ_self _

theorem length_lt_of_scanMarked {test : Char → Bool} (h : scanMarked test w = some rest) :
    rest.length < w.length := by
  cases w with
  | nil => cases h
  | cons l w =>
    rw [scanMarked] at h
    split at h
    · exact Nat.lt_succ_of_lt (length_lt_of_scanMark h)
    · exact length_lt_of_scanMark h

theorem length_lt_of_scanBare (h : scanBare w = some rest) : rest.length < w.length := by
  cases w with
  | nil => cases h
  | cons l w =>
    rw [scanBare] at h
    split at h <;> cases h
    exact Nat.lt_succ_self _

/-- A character of a query covers something. -/
theorem length_lt_of_scanUnit (h : scanUnit attached c w = some rest) :
    rest.length < w.length := by
  unfold scanUnit at h
  split at h
  · exact length_lt_of_scanBare h
  split at h
  · rcases Option.or_eq_some_iff.1 h with h | ⟨_, h⟩
    · exact length_lt_of_scanMarked h
    · exact length_lt_of_scanBare h
  split at h
  · exact length_lt_of_scanMark h
  · exact length_lt_of_scanMarked h

/-! ## A word -/

/-- The marks of a query take at most two tries for each character of the word, and two. -/
theorem endsWithin_items (hq : ∀ c ∈ q, Layer.keepsInMarks c = true)
    (hp : p.rest = w ++ ' ' :: more)
    (hk : ∀ e u, u <:+ w → e.rest = u ++ ' ' :: more → EndsWithin (k e) d) :
    EndsWithin ((Regex.concat (items n attached q)).explore k p) (2 * w.length + 2 + d) := by
  induction q generalizing n attached w p with
  | nil => exact (hk p w (List.suffix_refl w) hp).mono (by omega)
  | cons c q ih =>
    obtain ⟨hc, hq⟩ := List.forall_mem_cons.1 hq
    have hways := Regex.map_rest_ways (Regex.concat (unitItems n attached c)) p
    rw [hp, rests_unitItems hc] at hways
    rw [items, Regex.explore_concat_append]
    refine ((takes_unitItems n attached c).endsWithin (d := 2 * w.length + d) ?_ ?_).mono (by omega)
    · rw [← List.length_map (f := Place.rest), hways]
      cases scanUnit attached c w <;> simp
    · intro e he
      have hmem : e.rest ∈ behind more (scanUnit attached c w) := hways ▸ List.mem_map_of_mem he
      cases hscan : scanUnit attached c w with
      | none =>
        rw [hscan] at hmem
        cases hmem
      | some u =>
        rw [hscan, behind_some, List.mem_singleton] at hmem
        have hlt := length_lt_of_scanUnit hscan
        have hsuffix := suffix_of_scanUnit hscan
        exact (ih hq hmem fun e v hv => hk e v (hv.trans hsuffix)).mono (by omega)

/-- Looking for a space fails before every other character. -/
theorem explore_look_space_of_ne (hp : p.rest = c :: more) (hc : c ≠ ' ') :
    (Regex.look true (.letter ' ')).explore k p = .failed := by
  have hnone : p.advance? (.only ' ') = none := by
    refine Place.advance?_eq_none fun d hd => ?_
    rw [hp, List.head?_cons, Option.mem_some] at hd
    simp [← hd, hc]
  funext tries
  rw [Regex.explore, Regex.letter, Regex.explore_one_of_none hnone]

/-- The rest of a word takes one try for each character. -/
theorem endsWithin_tail (hw : ' ' ∉ w) (hp : p.rest = w ++ ' ' :: more)
    (hk : ∀ e tries, ∃ f, k e tries = .found f tries) :
    EndsWithin (tail.explore k p) w.length := by
  have htail : ∀ p, tail.explore k p = (Regex.star false (.one .notNewline)).explore
      ((Regex.look true (.letter ' ')).explore k) p := fun _ => rfl
  rw [htail]
  induction w generalizing p with
  | nil =>
    obtain ⟨e, he, _⟩ := Place.exists_advance?_eq_some (.only ' ') hp (by decide)
    intro tries _
    obtain ⟨f, hf⟩ := hk { p with groups := e.groups } tries
    refine ⟨tries, Nat.le_refl _, .inr ⟨f, ?_⟩⟩
    have hfound : (Regex.look true (.letter ' ')).explore k p tries = .found f tries := by
      rw [Regex.explore, Regex.letter, Regex.explore_one_of_some he]
      exact hf
    rw [Regex.explore_star, if_neg Bool.false_ne_true, hfound]
    rfl
  | cons c w ih =>
    obtain ⟨hc, hw⟩ := not_or.1 fun hmem => hw (List.mem_cons.2 hmem)
    -- the look fails here, and finds the space at the end of the word
    have hfails := explore_look_space_of_ne (k := k) hp (Ne.symm hc)
    cases hline : (CharSet.notNewline).contains c with
    | false =>
      have hnone : p.advance? .notNewline = none := by
        refine Place.advance?_eq_none fun d hd => ?_
        rw [hp, List.cons_append, List.head?_cons, Option.mem_some] at hd
        rw [← hd, hline]
      rw [Regex.explore_lazy_of_none hnone, hfails]
      exact (endsWithin_failed.orTry endsWithin_failed).mono (by simp)
    | true =>
      obtain ⟨e, he, hrest, _⟩ := Place.exists_advance?_eq_some _ hp hline
      rw [Regex.explore_lazy_of_some he, hfails]
      refine (endsWithin_failed.orTry (ih hw hrest)).mono ?_
      rw [List.length_cons]
      omega

/-- A word takes about three tries for each of its characters. -/
theorem endsWithin_word (hq : ∀ c ∈ q, Layer.keepsInMarks c = true) (hw : ' ' ∉ w)
    (hp : p.rest = ' ' :: (w ++ ' ' :: more)) :
    EndsWithin ((Regex.concat (wordItems n q)).explore .found p) (3 * w.length + 2) := by
  obtain ⟨b, hb, hbrest, _⟩ := Place.exists_advance?_eq_some (.only ' ') hp (by decide)
  rw [wordItems, Regex.explore_concat_cons, Regex.letter, Regex.explore_one_of_some hb,
    Regex.explore_concat_cons]
  refine (endsWithin_items (d := w.length) hq hbrest fun e u hu he => ?_).mono (by omega)
  have hspace : ' ' ∉ u := fun hmem => hw (hu.subset hmem)
  exact (endsWithin_tail hspace (p := b.captured (n + 1) e) he fun _ _ => ⟨_, rfl⟩).mono
    hu.length_le

/-- Where no word begins the search fails at once. -/
theorem endsWithin_elsewhere (h : p.rest.head? ≠ some ' ') :
    EndsWithin ((Regex.concat (wordItems n q)).explore .found p) 0 := by
  have hnone : p.advance? (.only ' ') = none := by
    refine Place.advance?_eq_none fun c hc => ?_
    rw [CharSet.contains_only, decide_eq_false_iff_not]
    rintro rfl
    exact h hc
  rw [wordItems, Regex.explore_concat_cons, Regex.letter, Regex.explore_one_of_none hnone]
  exact endsWithin_failed

/-- At the last space there are no marks to find. -/
theorem endsWithin_lastSpace (hne : q ≠ []) (h : p.rest = [' ']) :
    EndsWithin ((Regex.concat (wordItems n q)).explore .found p) 2 := by
  obtain ⟨c, q, rfl⟩ := List.exists_cons_of_ne_nil hne
  obtain ⟨b, hb, hbrest, _⟩ := Place.exists_advance?_eq_some (.only ' ') h (by decide)
  have hways : (Regex.concat (unitItems (n + 1) false c)).ways b = [] := by
    have hrests := Regex.map_rest_ways (Regex.concat (unitItems (n + 1) false c)) b
    rw [hbrest, rests_unitItems_nil] at hrests
    exact List.map_eq_nil_iff.1 hrests
  rw [wordItems, Regex.explore_concat_cons, Regex.letter, Regex.explore_one_of_some hb,
    Regex.explore_concat_cons, items]
  show EndsWithin ((Regex.concat (unitItems (n + 1) false c ++ _)).explore _ b) 2
  rw [Regex.explore_concat_append]
  exact (takes_unitItems (n + 1) false c).endsWithin (d := 0) (by simp [hways]) (by simp [hways])

/-! ## A verse -/

/-- A mark query looks at what follows, so it is matched by trying. -/
theorem isRegular_wordItems (n : Nat) (q : List Char) :
    (Regex.concat (wordItems n q)).isRegular = false := by
  simp [wordItems, tail, Regex.concat, Regex.isRegular]

/-- What a text takes: a try for each character, and three more for each from the next space on. -/
def cost (s : List Char) : Nat := s.length + 3 * (s.dropWhile (· != ' ')).length + 1

/-- In a padded text a space is the last one, or a word and the next space follow it. -/
theorem cases_of_suffix_padded {u text : List Char} (h : ' ' :: u <:+ ' ' :: text ++ [' ']) :
    u = [] ∨ ∃ w more, u = w ++ ' ' :: more ∧ ' ' ∉ w := by
  rcases u.eq_nil_or_concat with rfl | ⟨v, c, hu⟩
  · exact .inl rfl
  · obtain ⟨before, hbefore⟩ := h
    obtain rfl : u = v ++ [c] := hu.trans List.concat_eq_append
    have hlast : before ++ ' ' :: v ++ [c] = ' ' :: text ++ [' '] := by
      rw [← hbefore, List.append_assoc, List.cons_append]
    obtain rfl : c = ' ' := List.singleton_inj.1 (List.append_inj_right' hlast rfl)
    exact .inr (List.eq_append_cons_of_mem (List.mem_append_right v List.mem_cons_self))

theorem dropWhile_word (hw : ' ' ∉ w) (more : List Char) :
    (w ++ ' ' :: more).dropWhile (· != ' ') = ' ' :: more := by
  rw [List.dropWhile_append_of_pos, List.dropWhile_cons_of_neg (by decide)]
  intro c hc
  simpa using fun h : c = ' ' => hw (h ▸ hc)

/-- A padded verse affords the tries of a mark query at each of its places. -/
theorem affords_cost (hne : q ≠ []) (hq : ∀ c ∈ q, Layer.keepsInMarks c = true) (text : List Char) :
    Affords ((Regex.concat (wordItems n q)).explore .found) cost (' ' :: text ++ [' ']) := by
  intro p hp
  cases hrest : p.rest with
  | nil =>
    refine ⟨0, endsWithin_elsewhere (by simp [hrest]), by simp [cost], fun a u h => ?_⟩
    cases h
  | cons a u =>
    rw [hrest] at hp
    by_cases ha : a = ' '
    · subst ha
      rcases cases_of_suffix_padded hp with rfl | ⟨w, more, rfl, hw⟩
      · refine ⟨2, endsWithin_lastSpace hne hrest, by simp [cost], fun a u h => ?_⟩
        cases h
        simp [cost]
      · refine ⟨3 * w.length + 2, endsWithin_word hq hw hrest, ?_, fun a u h => ?_⟩
        · simp [cost]
          omega
        · cases h
          simp [cost, dropWhile_word hw]
          omega
    · refine ⟨0, endsWithin_elsewhere (by simpa [hrest] using ha), by simp [cost], fun b v h => ?_⟩
      cases h
      simp [cost, ha]
      omega

/-- A verse of less than a quarter of a million characters is not too much for a mark query. -/
theorem isSome_cut? (hne : q ≠ []) (hq : ∀ c ∈ q, Layer.keepsInMarks c = true) {text : List Char}
    (htext : 4 * (text.length + 3) ≤ tryLimit) :
    ((Regex.concat (wordItems 0 q)).cut? (' ' :: text ++ [' '])).isSome = true := by
  have hsize : cost (' ' :: text ++ [' ']) ≤ tryLimit := by
    simp [cost]
    omega
  rw [Regex.cut?, isRegular_wordItems, if_neg Bool.false_ne_true]
  exact isSome_cutBy (affords_cost hne hq text) (fun _ _ _ _ => Regex.rest_suffix_of_explore) hsize
    false (List.suffix_refl _) hsize

/-! ## Spaces -/

/-- Behind a space that the other follows, nothing but a space fits. -/
theorem exists_behind_space (h : p.rest = ' ' :: more) (hmore : ∀ d ∈ more.head?, d = ' ') :
    ∃ b, p.advance? (.only ' ') = some b ∧ ∀ (set : CharSet) (k : Place → Nat → Attempt),
      set.contains ' ' = false → FailsAfter (Regex.explore (.one set) k b) 0 := by
  obtain ⟨b, hb, hbrest, _⟩ := Place.exists_advance?_eq_some (.only ' ') h (by decide)
  refine ⟨b, hb, fun set k hset => ?_⟩
  have hnone : b.advance? set = none := by
    refine Place.advance?_eq_none fun d hd => ?_
    rw [hmore d (hbrest ▸ hd), hset]
  rw [Regex.explore_one_of_none hnone]
  exact failsAfter_failed

/-- There a `+` is tried as a letter with a mark, as a mark and as a letter. -/
theorem failsAfter_any (h : p.rest = ' ' :: more) (hmore : ∀ d ∈ more.head?, d = ' ') :
    FailsAfter ((Regex.concat (wordItems n ['+'])).explore .found p) 2 := by
  obtain ⟨b, hb, hfails⟩ := exists_behind_space h hmore
  rw [wordItems, Regex.explore_concat_cons, Regex.letter, Regex.explore_one_of_some hb]
  exact Regex.failsAfter_alt (c := 1) (d := 0)
    (Regex.failsAfter_alt (c := 0) (d := 0) (hfails letters _ (by decide)) (hfails marks _ (by decide)))
    (hfails letters _ (by decide))

/-- A `-` is only tried as a letter. -/
theorem failsAfter_bare (h : p.rest = ' ' :: more) (hmore : ∀ d ∈ more.head?, d = ' ') :
    FailsAfter ((Regex.concat (wordItems n ['-'])).explore .found p) 0 := by
  obtain ⟨b, hb, hfails⟩ := exists_behind_space h hmore
  rw [wordItems, Regex.explore_concat_cons, Regex.letter, Regex.explore_one_of_some hb]
  exact hfails letters _ (by decide)

variable {s : List Char}

/-- A place of a text of spaces, not at its end, is at a space that none but the other follows. -/
theorem exists_space_of_suffix (hs : ∀ c ∈ s, c = ' ') (hp : p.rest <:+ s) (hne : p.rest ≠ []) :
    ∃ more, p.rest = ' ' :: more ∧ ∀ d ∈ more.head?, d = ' ' := by
  obtain ⟨c, more, hrest⟩ := List.exists_cons_of_ne_nil hne
  rw [hrest] at hp
  have hspaces : ∀ d ∈ c :: more, d = ' ' := fun d hd => hs d (hp.subset hd)
  obtain rfl := hspaces c List.mem_cons_self
  exact ⟨more, hrest, fun d hd => hspaces d (List.mem_cons_of_mem _ (List.mem_of_mem_head? hd))⟩

/-- A `+` takes three tries for each space. -/
theorem cut?_any (hs : ∀ c ∈ s, c = ' ') (h : tryLimit < 3 * s.length) :
    (Regex.concat (wordItems n ['+'])).cut? s = none := by
  rw [Regex.cut?, isRegular_wordItems, if_neg Bool.false_ne_true]
  refine cutBy_eq_none_of_failsAfter (c := 2) (fun p hp hne => ?_) false (List.suffix_refl s) h
  obtain ⟨more, hrest, hmore⟩ := exists_space_of_suffix hs hp hne
  exact failsAfter_any hrest hmore

/-- A `-` takes one. -/
theorem isSome_cut?_bare (hs : ∀ c ∈ s, c = ' ') (h : s.length + 1 ≤ tryLimit) :
    ((Regex.concat (wordItems n ['-'])).cut? s).isSome = true := by
  rw [Regex.cut?, isRegular_wordItems, if_neg Bool.false_ne_true]
  refine isSome_cutBy (affords_length fun p hp => ?_)
    (fun _ _ _ _ => Regex.rest_suffix_of_explore) h false (List.suffix_refl s) h
  by_cases hne : p.rest = []
  · exact endsWithin_elsewhere (by simp [hne])
  · obtain ⟨more, hrest, hmore⟩ := exists_space_of_suffix hs hp hne
    exact (failsAfter_bare hrest hmore).endsWithin

end VerseSearch.Marks
