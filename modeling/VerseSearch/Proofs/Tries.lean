import VerseSearch.Regex.Pieces

/-!
# How many tries a search takes

A search by trying is given up when it has no try left. Bounds tell when that happens. `EndsWithin`
is the one from above: with so many tries the search comes to its end. `FailsAfter` and `FindsAfter`
are exact, for a search that finds nothing and for one that does. An expression takes some tries of
its own (`Regex.Takes`), and besides them those that what comes behind it takes behind each of its
ways to match.

So a text is cut into pieces if the tries of all its places together stay below the limit
(`isSome_cutBy`). It is not if one search takes too many (`cutBy_eq_none`), or if all its places
together do before anything is found (`cutBy_eq_none_of_failsAfter`).
-/

set_option autoImplicit false

namespace VerseSearch

variable {a b : Nat → Attempt} {c d : Nat}

/-! ## A search -/

/-- With `c` tries the search comes to its end, and it takes no more of them. -/
def EndsWithin (a : Nat → Attempt) (c : Nat) : Prop :=
  ∀ tries, c ≤ tries → ∃ left, tries ≤ left + c ∧
    (a tries = .failed left ∨ ∃ q, a tries = .found q left)

/-- The search fails and takes `c` tries, unless it is given up for want of them. -/
def FailsAfter (a : Nat → Attempt) (c : Nat) : Prop :=
  ∀ tries, a tries = if c ≤ tries then .failed (tries - c) else .givenUp

/-- The search finds the place and takes `c` tries, if there are as many. -/
def FindsAfter (a : Nat → Attempt) (q : Place) (c : Nat) : Prop :=
  ∀ tries, c ≤ tries → a tries = .found q (tries - c)

theorem endsWithin_failed : EndsWithin .failed 0 :=
  fun tries _ => ⟨tries, Nat.le_refl _, .inl rfl⟩

theorem endsWithin_found (q : Place) : EndsWithin (.found q) 0 :=
  fun tries _ => ⟨tries, Nat.le_refl _, .inr ⟨q, rfl⟩⟩

theorem failsAfter_failed : FailsAfter .failed 0 :=
  fun tries => (if_pos (Nat.zero_le tries)).symm

/-- A search that fails comes to its end. -/
theorem FailsAfter.endsWithin (h : FailsAfter a c) : EndsWithin a c := by
  intro tries htries
  refine ⟨tries - c, by omega, .inl ?_⟩
  rw [h tries, if_pos htries]

theorem EndsWithin.mono (h : EndsWithin a c) (hcd : c ≤ d) : EndsWithin a d := by
  intro tries htries
  obtain ⟨left, hleft, hend⟩ := h tries (by omega)
  exact ⟨left, by omega, hend⟩

/-- The other way is taken up with what the first has left, less one try. -/
theorem EndsWithin.orTry (ha : EndsWithin a c) (hb : EndsWithin b d) :
    EndsWithin (fun tries => (a tries).orTry b) (c + 1 + d) := by
  intro tries htries
  obtain ⟨left, hleft, hfailed | ⟨q, hfound⟩⟩ := ha tries (by omega)
  · obtain ⟨left', rfl⟩ : ∃ left', left = left' + 1 := ⟨left - 1, by omega⟩
    obtain ⟨rest, hrest, hend⟩ := hb left' (by omega)
    refine ⟨rest, by omega, ?_⟩
    simp only [hfailed]
    exact hend
  · refine ⟨left, by omega, .inr ⟨q, ?_⟩⟩
    simp only [hfound]
    rfl

theorem FailsAfter.orTry (ha : FailsAfter a c) (hb : FailsAfter b d) :
    FailsAfter (fun tries => (a tries).orTry b) (c + 1 + d) := by
  intro tries
  show (a tries).orTry b = _
  rw [ha tries]
  by_cases hc : c ≤ tries
  · rw [if_pos hc]
    obtain ⟨left, hleft⟩ : ∃ left, tries - c = left := ⟨_, rfl⟩
    rw [hleft]
    cases left with
    | zero => rw [if_neg (by omega)]; rfl
    | succ left =>
      have hsub : tries - (c + 1 + d) = left - d := by omega
      have hiff : c + 1 + d ≤ tries ↔ d ≤ left := by omega
      simp only [Attempt.orTry, hb left, hsub, hiff]
  · rw [if_neg hc, if_neg (by omega)]
    rfl

theorem findsAfter_found (q : Place) : FindsAfter (.found q) q 0 := fun _ _ => rfl

/-- What is found the first way is found. -/
theorem FindsAfter.orTry {q : Place} (ha : FindsAfter a q c) (b : Nat → Attempt) :
    FindsAfter (fun tries => (a tries).orTry b) q c := by
  intro tries htries
  show (a tries).orTry b = _
  rw [ha tries htries]
  rfl

/-- What is found the other way is found after the first has failed. -/
theorem FailsAfter.orTry_finds {q : Place} (ha : FailsAfter a c) (hb : FindsAfter b q d) :
    FindsAfter (fun tries => (a tries).orTry b) q (c + 1 + d) := by
  intro tries htries
  obtain ⟨left, hleft⟩ : ∃ left, tries - c = left + 1 := ⟨tries - c - 1, by omega⟩
  have hsub : tries - (c + 1 + d) = left - d := by omega
  show (a tries).orTry b = _
  rw [ha tries, if_pos (by omega), hleft, hsub]
  exact hb left (by omega)

/-! ## An expression -/

namespace Regex

variable {r t : Regex} {k : Place → Nat → Attempt} {p : Place}

/-- Where the next character does not fit the search fails at once. -/
theorem explore_one_of_none {set : CharSet} (h : p.advance? set = none) :
    explore (one set) k p = .failed := by
  funext tries
  rw [explore, h]

theorem explore_one_of_some {set : CharSet} {q : Place} (h : p.advance? set = some q) :
    explore (one set) k p = k q := by
  funext tries
  rw [explore, h]

/-- Where another character is next the search fails at once. -/
theorem failsAfter_letter {c : Char} (h : ∀ d ∈ p.rest.head?, d ≠ c) :
    FailsAfter (explore (letter c) k p) 0 := by
  have hnone : p.advance? (.only c) = none := Place.advance?_eq_none fun d hd => by
    rw [CharSet.contains_only, decide_eq_false (h d hd)]
  rw [letter, explore_one_of_none hnone]
  exact failsAfter_failed

/-- The costs of places together. -/
def total (cost : Place → Nat) : List Place → Nat
  | [] => 0
  | q :: l => cost q + total cost l

theorem total_append (cost : Place → Nat) (l l' : List Place) :
    total cost (l ++ l') = total cost l + total cost l' := by
  induction l with
  | nil => exact (Nat.zero_add _).symm
  | cons q l ih => rw [List.cons_append, total, total, ih, Nat.add_assoc]

theorem total_map (cost : Place → Nat) (f : Place → Place) (l : List Place) :
    total cost (l.map f) = total (fun q => cost (f q)) l := by
  induction l with
  | nil => rfl
  | cons q l ih => rw [List.map_cons, total, total, ih]

theorem total_flatMap (cost : Place → Nat) (f : Place → List Place) (l : List Place) :
    total cost (l.flatMap f) = total (fun q => total cost (f q)) l := by
  induction l with
  | nil => rfl
  | cons q l ih => rw [List.flatMap_cons, total_append, total, ih]

theorem total_const (d : Nat) (l : List Place) : total (fun _ => d) l = l.length * d := by
  induction l with
  | nil => exact (Nat.zero_mul d).symm
  | cons q l ih => rw [total, ih, List.length_cons, Nat.succ_mul, Nat.add_comm]

/-- The expression takes at most `c` tries of its own, besides those that what comes behind it takes
behind each of the ways to match. -/
def Takes (r : Regex) (c : Nat) : Prop :=
  ∀ (k : Place → Nat → Attempt) (cost : Place → Nat) (p : Place),
    (∀ q ∈ r.ways p, EndsWithin (k q) (cost q)) →
      EndsWithin (r.explore k p) (c + total cost (r.ways p))

theorem Takes.mono (h : r.Takes c) (hcd : c ≤ d) : r.Takes d :=
  fun k cost p hk => (h k cost p hk).mono (Nat.add_le_add_right hcd _)

theorem takes_empty : empty.Takes 0 := by
  intro k cost p hk
  exact (hk p (List.mem_singleton_self p)).mono (by simp [ways, total])

theorem takes_one (set : CharSet) : (one set).Takes 0 := by
  intro k cost p hk
  cases h : p.advance? set with
  | none =>
    rw [explore_one_of_none h]
    exact endsWithin_failed.mono (Nat.zero_le _)
  | some q =>
    rw [ways, h] at hk ⊢
    rw [explore_one_of_some h]
    exact (hk q List.mem_cons_self).mono (by simp [total])

/-- Behind each way there is nothing that takes tries of its own. -/
theorem Takes.seq (hr : r.Takes c) (ht : t.Takes 0) : (Regex.seq r t).Takes c := by
  intro k cost p hk
  have hbehind : ∀ q ∈ r.ways p, EndsWithin (t.explore k q) (total cost (t.ways q)) := by
    intro q hq
    have hways : ∀ u ∈ t.ways q, EndsWithin (k u) (cost u) :=
      fun u hu => hk u (List.mem_flatMap.2 ⟨q, hq, hu⟩)
    exact (ht k cost q hways).mono (Nat.le_of_eq (Nat.zero_add _))
  refine (hr (t.explore k) (fun q => total cost (t.ways q)) p hbehind).mono (Nat.le_of_eq ?_)
  rw [ways, total_flatMap]

theorem Takes.alt (hr : r.Takes c) (ht : t.Takes d) : (Regex.alt r t).Takes (c + 1 + d) := by
  intro k cost p hk
  have hfirst := hr k cost p fun q hq => hk q (List.mem_append_left _ hq)
  have hsecond := ht k cost p fun q hq => hk q (List.mem_append_right _ hq)
  refine (hfirst.orTry hsecond).mono (Nat.le_of_eq ?_)
  rw [ways, total_append]
  omega

theorem Takes.group (hr : r.Takes c) (n : Nat) : (Regex.group n r).Takes c := by
  intro k cost p hk
  have hbody := hr (fun q => k (p.captured n q)) (fun q => cost (p.captured n q)) p
    fun q hq => hk _ (List.mem_map_of_mem hq)
  rw [ways, total_map]
  exact hbody

theorem Takes.look (hr : r.Takes c) (hrefers : r.refers = false) : (Regex.look true r).Takes c := by
  intro k cost p hk tries htries
  have htotal : total (fun _ => 0) (r.ways p) = 0 := by rw [total_const, Nat.mul_zero]
  have hbody := hr .found (fun _ => 0) p fun q _ => endsWithin_found q
  rw [htotal] at hbody
  have hagrees := agrees_explore_found hrefers p tries
  rw [ways] at hk htries ⊢
  unfold explore
  obtain ⟨left, hleft, hfailed | ⟨q, hfound⟩⟩ := hbody tries (by omega)
  · rw [hfailed]
    exact ⟨left, by omega, .inl rfl⟩
  · rw [hfound] at hagrees ⊢
    rw [show (r.ways p).head? = some q from hagrees] at hk htries ⊢
    simp only [Option.toList_some, List.map_singleton, total, Nat.add_zero] at htries ⊢
    have hbehind : EndsWithin (k { p with groups := q.groups }) (cost { p with groups := q.groups }) :=
      hk _ List.mem_cons_self
    obtain ⟨rest, hrest, hend⟩ := hbehind left (by omega)
    exact ⟨rest, by omega, hend⟩

/-- What an expression takes, when there is at most one way to match. -/
theorem Takes.endsWithin (hr : r.Takes c) (hways : (r.ways p).length ≤ 1)
    (hk : ∀ q ∈ r.ways p, EndsWithin (k q) d) : EndsWithin (r.explore k p) (c + d) := by
  refine (hr k (fun _ => d) p hk).mono ?_
  rw [total_const]
  have hd := Nat.mul_le_mul_right d hways
  omega

/-- What is tried one after the other. -/
theorem explore_concat_cons (r : Regex) (rs : List Regex) (k : Place → Nat → Attempt) (p : Place) :
    explore (concat (r :: rs)) k p = explore r (explore (concat rs) k) p := by
  cases rs <;> rfl

theorem explore_concat_append (rs ts : List Regex) (k : Place → Nat → Attempt) (p : Place) :
    explore (concat (rs ++ ts)) k p = explore (concat rs) (explore (concat ts) k) p := by
  induction rs generalizing p with
  | nil => rfl
  | cons r rs ih =>
    rw [List.cons_append, explore_concat_cons, explore_concat_cons]
    exact congrArg (fun k => explore r k p) (funext ih)

/-! ### Repeating a character as rarely as possible -/

variable {set : CharSet} {q : Place}

/-- Where the next character does not fit there is only what comes behind. -/
theorem explore_lazy_of_none (h : p.advance? set = none) :
    explore (star false (one set)) k p = fun tries => (k p tries).orTry .failed := by
  funext tries
  rw [explore_star, explore_one_of_none h]
  rfl

/-- If what comes behind fails, the next character is passed, which costs a try. -/
theorem explore_lazy_of_some (h : p.advance? set = some q) :
    explore (star false (one set)) k p =
      fun tries => (k p tries).orTry (explore (star false (one set)) k q) := by
  have hlt : q.left < p.left := by
    rw [Place.left_of_advance? h]
    exact Nat.lt_succ_self _
  funext tries
  rw [explore_star, explore_one_of_some h]
  simp only [Bool.false_eq_true, if_false, if_pos hlt]

/-! ### Failing -/

theorem failsAfter_alt (hr : FailsAfter (explore r k p) c) (ht : FailsAfter (explore t k p) d) :
    FailsAfter (explore (alt r t) k p) (c + 1 + d) :=
  hr.orTry ht

/-- What must not follow is tried first, and it must fail. -/
theorem failsAfter_look_false (hr : FailsAfter (explore r .found p) c) (hk : FailsAfter (k p) d) :
    FailsAfter (explore (look false r) k p) (c + 1 + d) := by
  intro tries
  have hor : (explore r .found p tries).orTry (k p) = _ := hr.orTry hk tries
  rw [← hor, explore, hr tries]
  by_cases hc : c ≤ tries
  · rw [if_pos hc]
  · rw [if_neg hc]

/-- Two ways, of which the second leads on. -/
theorem findsAfter_alt {q : Place} (hr : FailsAfter (explore r k p) c)
    (ht : FindsAfter (explore t k p) q d) : FindsAfter (explore (alt r t) k p) q (c + 1 + d) :=
  hr.orTry_finds ht

/-- What must not follow fails, and the search goes on. -/
theorem findsAfter_look_false {q : Place} (hr : FailsAfter (explore r .found p) c)
    (hk : FindsAfter (k p) q d) : FindsAfter (explore (look false r) k p) q (c + 1 + d) := by
  intro tries htries
  have hor : (explore r .found p tries).orTry (k p) = _ := hr.orTry_finds hk tries htries
  rw [← hor, explore, hr tries, if_pos (by omega)]

/-- What comes behind a lazy repetition is found before anything is repeated. -/
theorem findsAfter_lazy {q : Place} (hk : FindsAfter (k p) q c) :
    FindsAfter (explore (star false r) k p) q c := by
  intro tries htries
  rw [explore_star, if_neg Bool.false_ne_true]
  exact hk.orTry _ tries htries

/-- What comes behind a lazy repetition is tried first. -/
theorem failsAfter_lazy (hk : FailsAfter (k p) c)
    (hmore : FailsAfter (explore r (fun q tries =>
      if q.left < p.left then explore (star false r) k q tries else .failed tries) p) d) :
    FailsAfter (explore (star false r) k p) (c + 1 + d) := by
  intro tries
  rw [explore_star, if_neg Bool.false_ne_true]
  exact hk.orTry hmore tries

/-- The tries of two ways to pass each of so many characters. -/
def twiceTries : Nat → Nat
  | 0 => 2
  | m + 1 => 2 * twiceTries m + 2

/-- Two alternatives that pass the same characters double the tries at each character. -/
theorem failsAfter_lazyTwice {s : List Char} (hs : ∀ c ∈ s, set.contains c = true)
    (hk : ∀ q, q.rest <:+ s → q.groups = p.groups → FailsAfter (k q) 0) (hp : p.rest = s) :
    FailsAfter (explore (star false (alt (one set) (one set))) k p) (twiceTries s.length) := by
  have hhere : FailsAfter (k p) 0 := hk p (hp ▸ List.suffix_refl _) rfl
  induction s generalizing p with
  | nil =>
    have hnone : p.advance? set = none := Place.advance?_eq_none (by simp [hp])
    have hone : ∀ k, FailsAfter (explore (one set) k p) 0 :=
      fun k => explore_one_of_none (k := k) hnone ▸ failsAfter_failed
    exact failsAfter_lazy hhere (failsAfter_alt (hone _) (hone _))
  | cons c s ih =>
    obtain ⟨hc, hs⟩ := List.forall_mem_cons.1 hs
    obtain ⟨q, hq, hrest, hgroups⟩ := Place.exists_advance?_eq_some _ hp hc
    have hlt : q.left < p.left := by
      rw [Place.left_of_advance? hq]
      exact Nat.lt_succ_self _
    have hbehind : FailsAfter (explore (star false (alt (one set) (one set))) k q)
        (twiceTries s.length) := by
      have hk' : ∀ u, u.rest <:+ s → u.groups = q.groups → FailsAfter (k u) 0 :=
        fun u hu hug => hk u (hu.trans (List.suffix_cons _ _)) (hug.trans hgroups)
      exact ih hs hk' hrest (hk' q (hrest ▸ List.suffix_refl _) rfl)
    have hone : explore (one set) (fun q tries =>
        if q.left < p.left then explore (star false (alt (one set) (one set))) k q tries
        else .failed tries) p = explore (star false (alt (one set) (one set))) k q := by
      rw [explore_one_of_some hq]
      funext tries
      rw [if_pos hlt]
    have hdouble : twiceTries (c :: s).length =
        0 + 1 + (twiceTries s.length + 1 + twiceTries s.length) := by
      rw [List.length_cons, twiceTries]
      omega
    rw [hdouble]
    exact failsAfter_lazy hhere (failsAfter_alt (hone ▸ hbehind) (hone ▸ hbehind))

end Regex

/-! ## A text -/

variable {attempt : Place → Nat → Attempt} {p : Place}

/-- The cost of a text has room for the tries at each place of it, for one to go on, and for the cost
of what is behind the next character. -/
def Affords (attempt : Place → Nat → Attempt) (cost : List Char → Nat) (s : List Char) : Prop :=
  ∀ p, p.rest <:+ s → ∃ c, EndsWithin (attempt p) c ∧ c + 1 ≤ cost p.rest ∧
    ∀ a u, p.rest = a :: u → c + 1 + cost u ≤ cost p.rest

/-- What is left of a text never costs more than the text. -/
theorem Affords.cost_le {cost : List Char → Nat} {s u v : List Char} (h : Affords attempt cost s)
    (hv : v <:+ s) (huv : u <:+ v) : cost u ≤ cost v := by
  induction v with
  | nil =>
    obtain rfl := List.suffix_nil.1 huv
    exact Nat.le_refl _
  | cons a v ih =>
    rcases List.suffix_cons_iff.1 huv with rfl | huv
    · exact Nat.le_refl _
    · obtain ⟨c, _, _, hnext⟩ := h (.start (a :: v)) hv
      have hle : c + 1 + cost v ≤ cost (a :: v) := hnext a v rfl
      have hrest := ih ((List.suffix_cons _ _).trans hv) huv
      omega

/-- Where nothing is tried at any place, going on costs one try for each character. -/
theorem affords_length {s : List Char} (h : ∀ p, p.rest <:+ s → EndsWithin (attempt p) 0) :
    Affords attempt (fun u => u.length + 1) s := by
  refine fun p hp => ⟨0, h p hp, Nat.le_add_left 1 _, fun a u hu => ?_⟩
  simp only [hu, List.length_cons]
  omega

/-- A text is cut into pieces if all its places together do not take too many tries. -/
theorem isSome_cutBy {cost : List Char → Nat} {s : List Char} (haffords : Affords attempt cost s)
    (hrest : ∀ p q tries left, attempt p tries = .found q left → q.rest <:+ p.rest)
    (hlimit : cost s ≤ tryLimit) (afterHit : Bool) {tries : Nat} (hp : p.rest <:+ s)
    (htries : cost p.rest ≤ tries) : (cutBy attempt afterHit tries p).isSome = true := by
  obtain ⟨n, hn⟩ : ∃ n, p.left = n := ⟨_, rfl⟩
  induction n using Nat.strongRecOn generalizing p afterHit tries with
  | _ n ih =>
    subst hn
    obtain ⟨c, hends, hfirst, hnext⟩ := haffords p hp
    have honward : ∀ tries, cost p.rest ≤ tries + c + 1 →
        (cutOnward attempt tries p).isSome = true := by
      intro tries htries
      rw [cutOnward]
      cases h : p.next? with
      | none => rfl
      | some aq =>
        obtain ⟨a, q⟩ := aq
        have hlt : q.left < p.left := Nat.lt_of_succ_le (Nat.le_of_eq (Place.left_of_next? h).symm)
        have hq := (Place.rest_suffix_of_next? h).trans hp
        have hle := hnext a q.rest (Place.next?_eq_some.1 h).1
        simp only [Option.isSome_map]
        exact ih q.left hlt false hq (by omega) rfl
    rw [cutBy_eq]
    obtain ⟨left, hleft, hfailed | ⟨q, hfound⟩⟩ := hends tries (by omega)
    · obtain ⟨left', rfl⟩ : ∃ left', left = left' + 1 := ⟨left - 1, by omega⟩
      rw [hfailed]
      exact honward left' (by omega)
    · have hq := hrest p q tries left hfound
      have hqs := haffords.cost_le hp hq
      have hps := haffords.cost_le (List.suffix_refl s) hp
      rw [hfound]
      simp only
      split
      · rename_i hlt
        rw [Option.isSome_map]
        exact ih q.left hlt true (p := q.fresh) (hq.trans hp)
          (Nat.le_trans hqs (Nat.le_trans hps hlimit)) rfl
      · rw [Option.isSome_map]
        exact honward tryLimit (by omega)

/-- A text is not cut if the search at its beginning takes all tries. -/
theorem cutBy_eq_none (h : FailsAfter (attempt p) c) (afterHit : Bool) {tries : Nat}
    (htries : tries ≤ c) : cutBy attempt afterHit tries p = none := by
  rw [cutBy_eq, h tries]
  by_cases hc : c ≤ tries
  · rw [if_pos hc, Nat.le_antisymm htries hc, Nat.sub_self]
  · rw [if_neg hc]

/-- A text is not cut if every place of it takes `c` tries to fail and one to go on, and there are not
as many. -/
theorem cutBy_eq_none_of_failsAfter {s : List Char}
    (h : ∀ p, p.rest <:+ s → p.rest ≠ [] → FailsAfter (attempt p) c) (afterHit : Bool) {tries : Nat}
    (hp : p.rest <:+ s) (htries : tries < (c + 1) * p.left) :
    cutBy attempt afterHit tries p = none := by
  obtain ⟨n, hn⟩ : ∃ n, p.left = n := ⟨_, rfl⟩
  induction n generalizing p afterHit tries with
  | zero => simp [hn] at htries
  | succ n ih =>
    have hne : p.rest ≠ [] := by
      intro hnil
      rw [p.left_eq, hnil] at hn
      cases hn
    rw [hn, Nat.mul_succ] at htries
    rw [cutBy_eq, h p hp hne tries]
    by_cases hc : c ≤ tries
    · rw [if_pos hc]
      cases hleft : tries - c with
      | zero => rfl
      | succ left =>
        -- the rest of the text is not cut with what is left
        show cutOnward attempt left p = none
        rw [cutOnward]
        cases hnext : p.next? with
        | none => exact absurd (Place.next?_eq_none.1 hnext) hne
        | some aq =>
          obtain ⟨a, q⟩ := aq
          have hq := (Place.rest_suffix_of_next? hnext).trans hp
          have hqleft : q.left = n := by
            have hstep := Place.left_of_next? hnext
            omega
          have htries' : left < (c + 1) * q.left := by
            rw [hqleft]
            omega
          simp only [ih false hq htries' hqleft, Option.map_none]
    · rw [if_neg hc]

/-- A text that is found as a whole is one match, if the search at its end comes to its end. -/
theorem Regex.cut?_eq_of_found {r : Regex} (hr : r.isRegular = false) {s : List Char} (hs : s ≠ [])
    {q : Place} {left : Nat} (hfound : r.explore .found (.start s) tryLimit = .found q left)
    (hq : q.rest = []) (hend : FailsAfter (r.explore .found q.fresh) c) (hc : c < tryLimit) :
    r.cut? s = some [.hit s q.groups] := by
  have hzero : q.left = 0 := by rw [q.left_eq, hq, List.length_nil]
  have hstart : (Place.start s).left = s.length := rfl
  have hlt : q.left < (Place.start s).left := by
    rw [hzero, hstart]
    exact List.length_pos_iff.2 hs
  have hbetween : (Place.start s).between q = s := by
    rw [Place.between, hzero, hstart, Nat.sub_zero]
    exact List.take_length
  have hlast : cutBy (r.explore .found) true tryLimit q.fresh = some [] := by
    have hnext : q.fresh.next? = none := Place.next?_eq_none.2 hq
    obtain ⟨left, hleft⟩ : ∃ left, tryLimit - c = left + 1 := ⟨tryLimit - c - 1, by omega⟩
    rw [cutBy_eq, hend tryLimit, if_pos (Nat.le_of_lt hc), hleft]
    simp only [cutOnward, hnext]
  rw [Regex.cut?, hr, if_neg Bool.false_ne_true, cutBy_eq, hfound]
  simp only [if_pos hlt, hlast, hbetween, Option.map_some]

end VerseSearch
