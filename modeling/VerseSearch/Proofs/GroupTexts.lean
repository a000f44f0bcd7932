import VerseSearch.Regex.Ways

/-!
# What groups cover

A match records what each numbered group covers, and changes the record of no other group
(`text_of_mem_ways`).
-/

set_option autoImplicit false

namespace VerseSearch

namespace Place

/-- What a group covers is the text between the two places. -/
theorem text_captured (p : Place) (number : Nat) (q : Place) :
    (p.captured number q).groups.text number = p.between q := by
  simp [captured, Groups.text]

/-- The record of the other groups is kept. -/
theorem text_captured_of_ne (p : Place) {number k : Nat} (h : k ≠ number) (q : Place) :
    (p.captured number q).groups.text k = q.groups.text k := by
  have hne : (k == number) = false := beq_eq_false_iff_ne.2 h
  simp [captured, Groups.text, List.lookup_cons, hne]

/-- A span is known from what is left before it and behind it. -/
theorem between_of_rest {p q : Place} {span : List Char} (h : p.rest = span ++ q.rest) :
    p.between q = span := by
  simp [between, p.left_eq, q.left_eq, h]

end Place

namespace Regex

/-- The numbers of the groups in an expression. -/
def numbers : Regex → List Nat
  | .empty => []
  | .one _ => []
  | .seq r t => numbers r ++ numbers t
  | .alt r t => numbers r ++ numbers t
  | .star _ r => numbers r
  | .group n r => n :: numbers r
  | .look _ r => numbers r
  | .atomic r => numbers r
  | .back _ => []

private theorem text_of_mem_ways_star {greedy : Bool} {r : Regex} {k : Nat}
    (ih : ∀ {p q : Place}, q ∈ r.ways p → q.groups.text k = p.groups.text k) (n : Nat)
    {p q : Place} (hn : p.left ≤ n) (h : q ∈ (star greedy r).ways p) :
    q.groups.text k = p.groups.text k := by
  induction n generalizing p with
  | zero =>
    rcases mem_ways_star.1 h with rfl | ⟨m, _, hlt, _⟩
    · rfl
    · omega
  | succ n hrec =>
    rcases mem_ways_star.1 h with rfl | ⟨m, hm, hlt, hq⟩
    · rfl
    · exact (hrec (by omega) hq).trans (ih hm)

/-- A match leaves the record of a group alone that is not part of the expression. -/
theorem text_of_mem_ways {r : Regex} {k : Nat} (hk : k ∉ r.numbers) {p q : Place}
    (h : q ∈ r.ways p) : q.groups.text k = p.groups.text k := by
  induction r generalizing p q with
  | empty => rw [List.mem_singleton.1 h]
  | one set =>
    obtain ⟨c, hc, _⟩ := Place.advance?_eq_some.1 (Option.mem_toList.1 h)
    rw [(Place.next?_eq_some.1 hc).2]
  | seq r t ihr iht =>
    obtain ⟨hr, ht⟩ := not_or.1 fun hmem => hk (List.mem_append.2 hmem)
    obtain ⟨m, hm, hq⟩ := List.mem_flatMap.1 h
    exact (iht ht hq).trans (ihr hr hm)
  | alt r t ihr iht =>
    obtain ⟨hr, ht⟩ := not_or.1 fun hmem => hk (List.mem_append.2 hmem)
    exact (List.mem_append.1 h).elim (ihr hr) (iht ht)
  | star greedy r ih => exact text_of_mem_ways_star (ih hk) p.left (Nat.le_refl _) h
  | group n r ih =>
    obtain ⟨hne, hr⟩ := not_or.1 fun hmem => hk (List.mem_cons.2 hmem)
    obtain ⟨m, hm, rfl⟩ := List.mem_map.1 h
    exact (Place.text_captured_of_ne p hne m).trans (ih hr hm)
  | look positive r ih =>
    cases positive with
    | true =>
      obtain ⟨m, hm, rfl⟩ := List.mem_map.1 h
      exact ih (q := m) hk (List.mem_of_mem_head? (Option.mem_toList.1 hm))
    | false =>
      rw [ways] at h
      split at h
      · rw [List.mem_singleton.1 h]
      · cases h
  | atomic r ih => exact ih hk (List.mem_of_mem_head? (Option.mem_toList.1 h))
  | back n => cases h

end Regex

end VerseSearch
