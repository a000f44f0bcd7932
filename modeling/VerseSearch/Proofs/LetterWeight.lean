import VerseSearch.Proofs.LetterMatches

/-!
# How much memory a letter query takes

Expressions put one behind the other weigh no more than each of them on its own, so every token of
a letter query adds at most a fixed number of bytes, and only a very long query is refused
(`Letters.fits_expression`).
-/

set_option autoImplicit false

namespace VerseSearch

open Weight

theorem length_codeBytes_le (n : Nat) : (codeBytes n).length ≤ 4 := by
  unfold codeBytes
  repeat' split
  all_goals simp

namespace Regex

/-- The weight of an expression as a part of another one. -/
def partWeight (r : Regex) : Nat := (r.alternatives ofSet).weight

/-- The weights of several parts together. -/
def totalWeight (rs : List Regex) : Nat := rs.foldr (fun r n => r.partWeight + n) 0

/-- The table of known sets makes no difference. -/
theorem weight_eq_partWeight (r : Regex) : r.weight = frameWeight + r.partWeight := by
  simp only [weight, partWeight]
  congr 3
  funext set
  split
  · rename_i e he
    obtain ⟨s, _, rfl⟩ := List.mem_map.1 (List.mem_of_find?_eq_some he)
    have hset : s = set := by simpa using List.find?_some he
    rw [hset]
  · rfl

/-- Two expressions in sequence weigh no more than both of them. -/
theorem partWeight_seq_le (r s : Regex) : (seq r s).partWeight ≤ r.partWeight + s.partWeight := by
  have hboth : ∀ m n : Alternatives, (m.andThen n).weight = m.weight + n.weight := fun _ _ => rfl
  cases s with
  | star greedy t =>
    rw [partWeight, alternatives]
    split
    · rename_i h
      subst h
      exact Nat.le_add_left _ _
    · exact Nat.le_of_eq (hboth _ _)
  | _ => exact Nat.le_of_eq (hboth _ _)

theorem partWeight_concat_le (rs : List Regex) : (concat rs).partWeight ≤ state + totalWeight rs := by
  induction rs with
  | nil => exact Nat.le_refl _
  | cons r rs ih =>
    cases rs with
    | nil => exact Nat.le_add_left _ _
    | cons s rs =>
      have hseq := partWeight_seq_le r (concat (s :: rs))
      have htotal : totalWeight (r :: s :: rs) = r.partWeight + totalWeight (s :: rs) := rfl
      rw [concat, htotal]
      omega

theorem totalWeight_append (rs ts : List Regex) :
    totalWeight (rs ++ ts) = totalWeight rs + totalWeight ts := by
  induction rs with
  | nil => exact (Nat.zero_add _).symm
  | cons r rs ih =>
    show r.partWeight + totalWeight (rs ++ ts) = r.partWeight + totalWeight rs + totalWeight ts
    rw [ih, Nat.add_assoc]

theorem totalWeight_flatMap_le {α : Type} {f : α → List Regex} {n : Nat}
    (h : ∀ a, totalWeight (f a) ≤ n) (l : List α) :
    totalWeight (l.flatMap f) ≤ l.length * n := by
  induction l with
  | nil => exact Nat.zero_le _
  | cons a l ih =>
    have ha := h a
    rw [List.flatMap_cons, totalWeight_append, List.length_cons, Nat.succ_mul]
    omega

/-- A character takes a state for each of its bytes. -/
theorem partWeight_letter_le (c : Char) : (letter c).partWeight ≤ 4 * state := by
  have hintervals : (CharSet.only c).intervals = [(c.toNat, c.toNat)] := if_pos (Char.le_refl c)
  have honly : onlyCode? (CharSet.only c).intervals = some c.toNat := by
    rw [hintervals]
    exact if_pos rfl
  have hweight : (letter c).partWeight = ofSet (.only c) := rfl
  rw [hweight, ofSet, honly]
  exact Nat.mul_le_mul_left state (length_codeBytes_le c.toNat)

end Regex

namespace Letters

/-- What a token adds, with the wildcard behind it. -/
theorem totalWeight_token_le (t : Token) : Regex.totalWeight (t.items ++ [wildcard]) ≤ 3464 := by
  have hwildcard : Regex.totalWeight [wildcard] = 1352 := by decide +kernel
  have hitems : Regex.totalWeight t.items ≤ 2112 := by
    cases t with
    | letter c =>
      have hletter := Regex.partWeight_letter_le c
      show (Regex.letter c).partWeight + 0 ≤ 2112
      unfold state at hletter
      omega
    | family f => cases f <;> decide +kernel
  rw [Regex.totalWeight_append, hwildcard]
  omega

/-- A letter query of up to 3000 tokens always has a pattern. -/
theorem fits_expression {ts : List Token} (h : ts.length ≤ 3000) : (expression ts).fits = true := by
  have htokens := Regex.totalWeight_flatMap_le totalWeight_token_le ts
  have hparts := Regex.partWeight_concat_le (ts.flatMap fun t => t.items ++ [wildcard])
  have hlimit : (expression ts).weight ≤ Regex.weightLimit := by
    rw [Regex.weight_eq_partWeight, expression]
    unfold Regex.frameWeight Regex.weightLimit
    unfold state at hparts
    omega
  simp [Regex.fits, hlimit]

end Letters

end VerseSearch
