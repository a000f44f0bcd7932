import VerseSearch.Regex.Place

/-!
# Sets of places of a text

A place of a given text is known from how many characters are left there, so a set of places is a
number whose bits tell which places belong to it. Union, intersection and moving all places by some
characters are single operations on that number, however long the text is.
-/

set_option autoImplicit false

namespace VerseSearch

/-- A set of places of a text: the bit `n` stands for the place with `n` characters left. -/
structure PlaceSet where
  bits : Nat
deriving DecidableEq, Repr

namespace PlaceSet

/-- Whether the place with so many characters left belongs to the set. -/
def contains (A : PlaceSet) (left : Nat) : Bool := A.bits.testBit left

def empty : PlaceSet := ⟨0⟩

/-- The places with at most so many characters left. -/
def upTo (left : Nat) : PlaceSet := ⟨1 <<< (left + 1) - 1⟩

def insert (A : PlaceSet) (left : Nat) : PlaceSet := ⟨A.bits ||| 1 <<< left⟩

def union (A B : PlaceSet) : PlaceSet := ⟨A.bits ||| B.bits⟩

def inter (A B : PlaceSet) : PlaceSet := ⟨A.bits &&& B.bits⟩

/-- The places so many characters before those of the set. -/
def before (A : PlaceSet) (n : Nat) : PlaceSet := ⟨A.bits <<< n⟩

/-- The places of the set with fewer characters left. -/
def below (A : PlaceSet) (left : Nat) : PlaceSet := ⟨A.bits % (1 <<< left)⟩

/-- The places of the set, and those from which passing members of `M` one after the other leads to
one of them. After `k` rounds up to `2 ^ k - 1` members are passed; `M` holds the places where `d`
members follow each other. -/
def spread : Nat → Nat → PlaceSet → PlaceSet → PlaceSet
  | 0, _, _, A => A
  | k + 1, d, M, A =>
    if M = empty then A
    else spread k (2 * d) (M.inter (M.before d)) (A.union (M.inter (A.before d)))

/-- The set with the place in it if the condition holds there. -/
def keep (f : Place → Bool) (p : Place) (A : PlaceSet) : PlaceSet :=
  if f p then A.insert p.left else A

/-- The first place of a text, and all places where the condition holds. -/
def scan (f : Place → Bool) (s : List Char) : Place × PlaceSet :=
  s.foldr
    (fun c found =>
      let p := found.1.earlier c
      (p, keep f p found.2))
    (.start [], keep f (.start []) empty)

/-- The places of a text where the condition holds. -/
def filter (f : Place → Bool) (s : List Char) : PlaceSet := (scan f s).2

/-! ## Laws -/

@[simp] theorem contains_empty (i : Nat) : empty.contains i = false := Nat.zero_testBit i

@[simp] theorem contains_upTo (n i : Nat) : (upTo n).contains i = decide (i ≤ n) := by
  rw [contains, upTo, Nat.one_shiftLeft, Nat.testBit_two_pow_sub_one]
  exact decide_eq_decide.2 Nat.lt_succ_iff

@[simp] theorem contains_insert (A : PlaceSet) (n i : Nat) :
    (A.insert n).contains i = (A.contains i || decide (n = i)) := by
  rw [contains, insert, Nat.testBit_or, Nat.one_shiftLeft, Nat.testBit_two_pow]
  rfl

@[simp] theorem contains_union (A B : PlaceSet) (i : Nat) :
    (A.union B).contains i = (A.contains i || B.contains i) := Nat.testBit_or _ _ _

@[simp] theorem contains_inter (A B : PlaceSet) (i : Nat) :
    (A.inter B).contains i = (A.contains i && B.contains i) := Nat.testBit_and _ _ _

@[simp] theorem contains_before (A : PlaceSet) (n i : Nat) :
    (A.before n).contains i = (decide (n ≤ i) && A.contains (i - n)) := Nat.testBit_shiftLeft _

@[simp] theorem contains_below (A : PlaceSet) (n i : Nat) :
    (A.below n).contains i = (decide (i < n) && A.contains i) := by
  rw [contains, below, Nat.one_shiftLeft]
  exact Nat.testBit_mod_two_pow _ _ _

/-- Whatever holds in the set, and is carried over the members that may be passed, holds after
spreading. -/
theorem of_contains_spread (P : Nat → Prop) {k d : Nat} {M A : PlaceSet}
    (hA : ∀ i, A.contains i = true → P i)
    (hM : ∀ i, M.contains (i + d) = true → P i → P (i + d)) {i : Nat}
    (h : (spread k d M A).contains i = true) : P i := by
  induction k generalizing d M A with
  | zero => exact hA i h
  | succ k ih =>
    rw [spread] at h
    split at h
    · exact hA i h
    · refine ih (fun j hj => ?_) (fun j hj hP => ?_) h
      · simp only [contains_union, contains_inter, contains_before, Bool.or_eq_true,
          Bool.and_eq_true, decide_eq_true_eq] at hj
        rcases hj with hj | ⟨hj, hd, hj'⟩
        · exact hA j hj
        · have := hM (j - d) (by rwa [Nat.sub_add_cancel hd]) (hA _ hj')
          rwa [Nat.sub_add_cancel hd] at this
      · simp only [contains_inter, contains_before, Bool.and_eq_true, decide_eq_true_eq] at hj
        obtain ⟨hj, hd, hj'⟩ := hj
        have e : j + 2 * d = j + d + d := by omega
        rw [e] at hj hj' ⊢
        rw [Nat.add_sub_cancel] at hj'
        exact hM (j + d) hj (hM j hj' hP)

theorem scan_fst (f : Place → Bool) (s : List Char) : (scan f s).1 = .start s := by
  induction s with
  | nil => rfl
  | cons c s ih =>
    show (scan f s).1.earlier c = _
    rw [ih]
    rfl

theorem filter_cons (f : Place → Bool) (c : Char) (s : List Char) :
    filter f (c :: s) = keep f (.start (c :: s)) (filter f s) := by
  show keep f ((scan f s).1.earlier c) (scan f s).2 = _
  rw [scan_fst]
  rfl

theorem contains_keep (f : Place → Bool) (s : List Char) (A : PlaceSet) (i : Nat) :
    (keep f (.start s) A).contains i =
      (A.contains i || (f (.start s) && decide (s.length = i))) := by
  rw [keep]
  split
  · rename_i h
    rw [contains_insert, h, Bool.true_and]
    rfl
  · rename_i h
    simp [h]

theorem contains_filter_of_lt (f : Place → Bool) {s : List Char} {i : Nat} (h : s.length < i) :
    (filter f s).contains i = false := by
  induction s with
  | nil =>
    have hi : 0 ≠ i := Nat.ne_of_lt h
    show (keep f (.start []) empty).contains i = false
    simp [contains_keep, hi]
  | cons c s ih =>
    have hi : (c :: s).length ≠ i := Nat.ne_of_lt h
    rw [filter_cons, contains_keep, ih (Nat.lt_of_succ_lt h)]
    simp only [hi, decide_false, Bool.and_false, Bool.or_false]

/-- The places that are kept are those where the condition holds. -/
theorem contains_filter (f : Place → Bool) {s t : List Char} (h : t <:+ s) :
    (filter f s).contains t.length = f (.start t) := by
  induction s with
  | nil =>
    rw [List.suffix_nil] at h
    subst h
    show (keep f (.start []) empty).contains 0 = _
    simp [contains_keep]
  | cons c s ih =>
    rw [filter_cons, contains_keep]
    rcases List.suffix_cons_iff.1 h with rfl | h
    · have hs : (filter f s).contains (c :: s).length = false :=
        contains_filter_of_lt f (Nat.lt_succ_self s.length)
      rw [hs, Bool.false_or, decide_eq_true rfl, Bool.and_true]
    · have hne : (c :: s).length ≠ t.length := Nat.ne_of_gt (Nat.lt_succ_of_le h.length_le)
      rw [ih h]
      simp only [hne, decide_false, Bool.and_false, Bool.or_false]

end PlaceSet

end VerseSearch
