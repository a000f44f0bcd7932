import VerseSearch.Proofs.Remainders

/-!
# What an expression covers

`Regex.ways` lists the ends of matches in order of preference. `Regex.Covers` says the same without
an order: which spans an expression can cover, given the text behind them. `mem_rests` states that
the list has exactly these ends, so that neither the order of alternatives nor a repetition that
prefers to be short can lose a match.

Only an atomic expression depends on the order, and there the relation refers to it.
-/

set_option autoImplicit false

namespace VerseSearch

namespace Regex

/-- A span of parts that are not empty, each allowed where the rest of the span and the text `next`
follow it. -/
inductive Repeats (part : List Char → List Char → Prop) (next : List Char) : List Char → Prop where
  | none : Repeats part next []
  | more {first rest : List Char} : first ≠ [] → part first (rest ++ next) →
      Repeats part next rest → Repeats part next (first ++ rest)

/-- The expression can cover the span where the text `next` follows it. What a reference covers is not
known from these, so it is said to cover nothing. -/
def Covers : Regex → List Char → List Char → Prop
  | .empty => fun span _ => span = []
  | .one set => fun span _ => ∃ c, span = [c] ∧ set.contains c = true
  | .seq r t => fun span next =>
    ∃ first second, span = first ++ second ∧ r.Covers first (second ++ next) ∧ t.Covers second next
  | .alt r t => fun span next => r.Covers span next ∨ t.Covers span next
  | .star _ r => fun span next => Repeats r.Covers next span
  | .group _ r => r.Covers
  | .look positive r => fun span next =>
    span = [] ∧ ((∃ first rest, next = first ++ rest ∧ r.Covers first rest) ↔ positive = true)
  | .atomic r => fun span next => (r.rests (span ++ next)).head? = some next
  | .back _ => fun _ _ => False

variable {r t : Regex} {s span next : List Char}

@[simp] theorem covers_empty : Regex.empty.Covers span next ↔ span = [] := Iff.rfl

@[simp] theorem covers_one {set : CharSet} :
    (one set).Covers span next ↔ ∃ c, span = [c] ∧ set.contains c = true := Iff.rfl

@[simp] theorem covers_alt :
    (alt r t).Covers span next ↔ r.Covers span next ∨ t.Covers span next := Iff.rfl

@[simp] theorem covers_group {n : Nat} : (group n r).Covers span next ↔ r.Covers span next := Iff.rfl

theorem covers_look {positive : Bool} : (look positive r).Covers span next ↔
    span = [] ∧ ((∃ first rest, next = first ++ rest ∧ r.Covers first rest) ↔ positive = true) :=
  Iff.rfl

/-! ## The relation and the list -/

/-- What a repetition leaves: the text itself, or what it leaves of a shorter one. -/
private theorem mem_rests_star_iff {greedy : Bool} : next ∈ (star greedy r).rests s ↔
    next = s ∨ ∃ u ∈ r.rests s, u.length < s.length ∧ next ∈ (star greedy r).rests u := by
  rw [rests_star]
  cases greedy
  · simp only [Bool.false_eq_true, if_false, List.mem_cons, List.mem_flatMap,
      List.mem_ite_nil_right]
  · simp only [if_true, List.mem_append, List.mem_flatMap, List.mem_ite_nil_right,
      List.mem_singleton]
    exact or_comm

private theorem mem_rests_star {greedy : Bool}
    (ih : ∀ {s next : List Char}, next ∈ r.rests s ↔ ∃ span, s = span ++ next ∧ r.Covers span next)
    (n : Nat) (hn : s.length ≤ n) :
    next ∈ (star greedy r).rests s ↔ ∃ span, s = span ++ next ∧ Repeats r.Covers next span := by
  -- on the length of the text, which gets shorter with each round
  induction n using Nat.strongRecOn generalizing s with
  | _ n hrec =>
    rw [mem_rests_star_iff]
    constructor
    · rintro (rfl | ⟨u, hu, hlt, hnext⟩)
      · exact ⟨[], rfl, .none⟩
      · obtain ⟨first, rfl, hcovers⟩ := ih.1 hu
        obtain ⟨rest, rfl, hrepeats⟩ := (hrec u.length (by omega) (Nat.le_refl _)).1 hnext
        have hne : first ≠ [] := by
          rintro rfl
          exact Nat.lt_irrefl _ hlt
        exact ⟨first ++ rest, (List.append_assoc ..).symm, .more hne hcovers hrepeats⟩
    · rintro ⟨_, rfl, hrepeats⟩
      cases hrepeats with
      | none => exact .inl rfl
      | @more first rest hne hcovers hrepeats =>
        have hlt : (rest ++ next).length < (first ++ rest ++ next).length := by
          have := List.length_pos_iff.2 hne
          simp only [List.length_append]
          omega
        exact .inr ⟨rest ++ next, ih.2 ⟨first, List.append_assoc .., hcovers⟩, hlt,
          (hrec _ (by omega) (Nat.le_refl _)).2 ⟨rest, rfl, hrepeats⟩⟩

/-- Matches leave what follows the spans that the expression can cover. -/
theorem mem_rests : next ∈ r.rests s ↔ ∃ span, s = span ++ next ∧ r.Covers span next := by
  induction r generalizing s next with
  | empty => simp [eq_comm]
  | one set =>
    cases s with
    | nil => simp
    | cons c s =>
      rw [rests_one_cons, List.mem_ite_nil_right, List.mem_singleton]
      constructor
      · rintro ⟨hc, rfl⟩
        exact ⟨[c], rfl, c, rfl, hc⟩
      · rintro ⟨_, hs, d, rfl, hd⟩
        obtain ⟨rfl, rfl⟩ := List.cons.inj hs
        exact ⟨hd, rfl⟩
  | seq r t ihr iht =>
    rw [rests_seq, List.mem_flatMap]
    constructor
    · rintro ⟨u, hu, hnext⟩
      obtain ⟨first, rfl, hr⟩ := ihr.1 hu
      obtain ⟨second, rfl, ht⟩ := iht.1 hnext
      exact ⟨first ++ second, (List.append_assoc ..).symm, first, second, rfl, hr, ht⟩
    · rintro ⟨_, rfl, first, second, rfl, hr, ht⟩
      exact ⟨second ++ next, ihr.2 ⟨first, List.append_assoc .., hr⟩, iht.2 ⟨second, rfl, ht⟩⟩
  | alt r t ihr iht =>
    rw [rests_alt, List.mem_append, ihr, iht, ← exists_or]
    exact exists_congr fun span => and_or_left.symm
  | star greedy r ih => exact mem_rests_star ih s.length (Nat.le_refl _)
  | group n r ih =>
    rw [rests_group]
    exact ih
  | look positive r ih =>
    have hfound : (r.rests s).isEmpty = false ↔
        ∃ first rest, s = first ++ rest ∧ r.Covers first rest := by
      rw [List.isEmpty_eq_false_iff_exists_mem, exists_comm]
      exact exists_congr fun rest => ih
    have hlook : next ∈ (look positive r).rests s ↔
        s = next ∧ ((r.rests s).isEmpty = false ↔ positive = true) := by
      rw [rests_look]
      cases positive <;> cases h : (r.rests s).isEmpty <;> simp [eq_comm]
    rw [hlook, hfound]
    constructor
    · rintro ⟨rfl, hpos⟩
      exact ⟨[], rfl, rfl, hpos⟩
    · rintro ⟨_, rfl, rfl, hpos⟩
      exact ⟨rfl, hpos⟩
  | atomic r ih =>
    rw [rests_atomic, Option.mem_toList]
    constructor
    · intro h
      obtain ⟨span, rfl, _⟩ := ih.1 (List.mem_of_mem_head? h)
      exact ⟨span, rfl, h⟩
    · rintro ⟨span, rfl, h⟩
      exact h
  | back n => exact iff_of_false (fun h => nomatch h) fun ⟨_, _, h⟩ => h

/-- A match begins at a place if the expression can cover a beginning of the text there. -/
theorem isSome_matchAt?_iff {p : Place} :
    (r.matchAt? p).isSome = true ↔ ∃ span next, p.rest = span ++ next ∧ r.Covers span next := by
  rw [← Option.isSome_map (f := Place.rest), map_rest_matchAt?, List.isSome_head?,
    ← List.isEmpty_eq_false_iff, List.isEmpty_eq_false_iff_exists_mem, exists_comm]
  exact exists_congr fun next => mem_rests

/-- What the preferred match covers is a span that the expression can cover. -/
theorem covers_of_matchAt? {p q : Place} (h : r.matchAt? p = some q) :
    ∃ span, p.rest = span ++ q.rest ∧ r.Covers span q.rest := by
  have hq := map_rest_matchAt? r p
  rw [h] at hq
  exact mem_rests.1 (List.mem_of_mem_head? hq.symm)

/-! ## Sequences and choices -/

@[simp] theorem covers_letter {c : Char} : (letter c).Covers span next ↔ span = [c] := by
  simp [letter]

@[simp] theorem covers_concat_nil : (concat []).Covers span next ↔ span = [] := Iff.rfl

@[simp] theorem covers_concat_cons {rs : List Regex} :
    (concat (r :: rs)).Covers span next ↔ ∃ first second, span = first ++ second ∧
      r.Covers first (second ++ next) ∧ (concat rs).Covers second next := by
  cases rs with
  | nil => simp [concat]
  | cons t rs => exact Iff.rfl

theorem covers_concat_append {rs ts : List Regex} :
    (concat (rs ++ ts)).Covers span next ↔ ∃ first second, span = first ++ second ∧
      (concat rs).Covers first (second ++ next) ∧ (concat ts).Covers second next := by
  induction rs generalizing span with
  | nil =>
    rw [List.nil_append]
    constructor
    · intro h
      exact ⟨[], span, rfl, rfl, h⟩
    · rintro ⟨_, second, rfl, rfl, h⟩
      exact h
  | cons r rs ih =>
    simp only [List.cons_append, covers_concat_cons, ih]
    constructor
    · rintro ⟨u, _, rfl, hr, v, w, rfl, hrs, hts⟩
      exact ⟨u ++ v, w, by simp, ⟨u, v, rfl, by simpa using hr, hrs⟩, hts⟩
    · rintro ⟨_, w, rfl, ⟨u, v, rfl, hr, hrs⟩, hts⟩
      exact ⟨u, v ++ w, by simp, by simpa using hr, v, w, rfl, hrs, hts⟩

/-- A sequence of characters covers these characters. -/
@[simp] theorem covers_concat_letters {cs : List Char} :
    (concat (cs.map letter)).Covers span next ↔ span = cs := by
  induction cs generalizing span with
  | nil => simp
  | cons c cs ih => simp [ih]

@[simp] theorem covers_choice {rs : List Regex} (h : rs ≠ []) :
    (choice rs).Covers span next ↔ ∃ r ∈ rs, r.Covers span next := by
  induction rs with
  | nil => exact absurd rfl h
  | cons r rs ih =>
    cases rs with
    | nil => simp [choice]
    | cons t rs =>
      show r.Covers span next ∨ (choice (t :: rs)).Covers span next ↔ _
      rw [ih (List.cons_ne_nil t rs)]
      simp only [List.mem_cons, exists_eq_or_imp]

/-- A repetition of one character of a set covers any run of such characters. -/
@[simp] theorem covers_star_one {greedy : Bool} {set : CharSet} :
    (star greedy (one set)).Covers span next ↔ ∀ c ∈ span, set.contains c = true := by
  show Repeats (one set).Covers next span ↔ _
  constructor
  · intro h
    induction h with
    | none => simp
    | more _ hfirst _ ih =>
      obtain ⟨c, rfl, hc⟩ := hfirst
      simpa [hc] using ih
  · intro h
    induction span with
    | nil => exact .none
    | cons c span ih =>
      obtain ⟨hc, hspan⟩ := List.forall_mem_cons.1 h
      exact .more (List.cons_ne_nil c []) ⟨c, rfl, hc⟩ (ih hspan)

/-- A lazy repetition at the very end is not entered. -/
theorem matchAt?_concat_lazy (rs : List Regex) (r : Regex) (p : Place) :
    (concat (rs ++ [star false r])).matchAt? p = (concat rs).matchAt? p := by
  have hlazy : ∀ q : Place, ((star false r).ways q).head? = some q := by
    intro q
    rw [ways_star]
    rfl
  rw [matchAt?, matchAt?, ways_concat_append]
  cases (concat rs).ways p with
  | nil => rfl
  | cons q qs =>
    rw [List.flatMap_cons, List.head?_append]
    show (((star false r).ways q).head?.or _) = some q
    rw [hlazy]
    rfl

end Regex

end VerseSearch
