import VerseSearch.Regex.CharSet

/-!
# Places in a text

A match begins at one place of a text and ends at another. A place knows what is left of the text
behind it, how much that is, and what the numbered groups have covered on the way to it.
-/

set_option autoImplicit false

namespace VerseSearch

/-- What numbered groups have covered, the latest first. -/
abbrev Groups := List (Nat × List Char)

namespace Groups

/-- What the group covered last; the empty text if it took no part. -/
def text (groups : Groups) (number : Nat) : List Char := (groups.lookup number).getD []

end Groups

/-- A place reached in a text. -/
structure Place where
  /-- What is left of the text. -/
  rest : List Char
  /-- What the groups have covered. -/
  groups : Groups
  /-- How many characters are left. -/
  left : Nat
  left_eq : left = rest.length
deriving DecidableEq, Repr

namespace Place

/-- Before the first character of a text. -/
def start (s : List Char) : Place := ⟨s, [], s.length, rfl⟩

/-- The place of the same text where no group has covered anything yet. -/
def fresh (p : Place) : Place := { p with groups := [] }

/-- The place one character earlier, with nothing covered. -/
def earlier (c : Char) (p : Place) : Place :=
  ⟨c :: p.rest, [], p.left + 1, by rw [p.left_eq, List.length_cons]⟩

/-- Behind the next character, if there is one. -/
def next? (p : Place) : Option (Char × Place) :=
  match h : p.rest with
  | [] => none
  | c :: rest => some (c, ⟨rest, p.groups, p.left - 1, by rw [p.left_eq, h]; simp⟩)

/-- Behind the next character, if it belongs to the set. -/
def advance? (set : CharSet) (p : Place) : Option Place :=
  match p.next? with
  | none => none
  | some (c, q) => if set.contains c then some q else none

/-- Behind a text, if it follows. -/
def behind? : Place → List Char → Option Place
  | p, [] => some p
  | p, c :: s => (p.advance? (.only c)).bind fun q => q.behind? s

/-- The text between two places, the second no earlier than the first. -/
def between (p q : Place) : List Char := p.rest.take (p.left - q.left)

/-- The second place, where the group has covered the text from the first one on. -/
def captured (p : Place) (number : Nat) (q : Place) : Place :=
  { q with groups := (number, p.between q) :: q.groups }

/-! ## Laws -/

theorem ext_rest {p q : Place} (hr : p.rest = q.rest) (hg : p.groups = q.groups) : p = q := by
  obtain ⟨r, g, n, hn⟩ := p
  obtain ⟨r', g', n', hn'⟩ := q
  simp only at hr hg
  subst hr hg
  simp only [mk.injEq, true_and]
  exact hn.trans hn'.symm

theorem next?_eq_none {p : Place} : p.next? = none ↔ p.rest = [] := by
  rw [next?]
  split <;> simp_all

theorem next?_eq_some {p q : Place} {c : Char} :
    p.next? = some (c, q) ↔ p.rest = c :: q.rest ∧ q.groups = p.groups := by
  rw [next?]
  split
  · rename_i h
    simp [h]
  · rename_i d rest h
    rw [Option.some.injEq, Prod.mk.injEq]
    constructor
    · rintro ⟨rfl, rfl⟩
      exact ⟨h, rfl⟩
    · rintro ⟨hr, hg⟩
      rw [h, List.cons.injEq] at hr
      exact ⟨hr.1, ext_rest hr.2 hg.symm⟩

theorem left_of_next? {p q : Place} {c : Char} (h : p.next? = some (c, q)) :
    p.left = q.left + 1 := by
  rw [p.left_eq, q.left_eq, (next?_eq_some.1 h).1, List.length_cons]

theorem rest_suffix_of_next? {p q : Place} {c : Char} (h : p.next? = some (c, q)) :
    q.rest <:+ p.rest :=
  (next?_eq_some.1 h).1 ▸ List.suffix_cons c q.rest

theorem advance?_eq_some {set : CharSet} {p q : Place} :
    p.advance? set = some q ↔ ∃ c, p.next? = some (c, q) ∧ set.contains c = true := by
  rw [advance?]
  split
  · rename_i h
    simp [h]
  · rename_i c q' h
    by_cases hc : set.contains c = true
    · rw [if_pos hc, h]
      constructor
      · rintro h
        cases h
        exact ⟨c, rfl, hc⟩
      · rintro ⟨d, hd, _⟩
        cases hd
        rfl
    · rw [if_neg hc, h]
      constructor
      · intro h
        cases h
      · rintro ⟨d, hd, hd'⟩
        cases hd
        exact absurd hd' hc

/-- A character of the set is passed. -/
theorem exists_advance?_eq_some (set : CharSet) {p : Place} {c : Char} {s : List Char}
    (hp : p.rest = c :: s) (hc : set.contains c = true) :
    ∃ q, p.advance? set = some q ∧ q.rest = s ∧ q.groups = p.groups :=
  ⟨⟨s, p.groups, s.length, rfl⟩, advance?_eq_some.2 ⟨c, next?_eq_some.2 ⟨hp, rfl⟩, hc⟩, rfl, rfl⟩

/-- At the end, and before a character that is not in the set, there is no way on. -/
theorem advance?_eq_none {set : CharSet} {p : Place}
    (h : ∀ c ∈ p.rest.head?, set.contains c = false) : p.advance? set = none := by
  refine Option.eq_none_iff_forall_ne_some.2 fun q hq => ?_
  obtain ⟨c, hnext, hc⟩ := advance?_eq_some.1 hq
  rw [h c (by rw [(next?_eq_some.1 hnext).1]; rfl)] at hc
  cases hc

theorem left_of_advance? {set : CharSet} {p q : Place} (h : p.advance? set = some q) :
    p.left = q.left + 1 := by
  obtain ⟨c, hc, _⟩ := advance?_eq_some.1 h
  exact left_of_next? hc

theorem rest_suffix_of_advance? {set : CharSet} {p q : Place} (h : p.advance? set = some q) :
    q.rest <:+ p.rest := by
  obtain ⟨c, hc, _⟩ := advance?_eq_some.1 h
  exact rest_suffix_of_next? hc

theorem rest_suffix_of_behind? {s : List Char} {p q : Place} (h : p.behind? s = some q) :
    q.rest <:+ p.rest := by
  induction s generalizing p with
  | nil =>
    cases h
    exact List.suffix_refl _
  | cons c s ih =>
    obtain ⟨m, hm, hq⟩ := Option.bind_eq_some_iff.1 h
    exact (ih hq).trans (rest_suffix_of_advance? hm)

theorem next?_fresh (p : Place) : p.fresh.next? = p.next?.map fun cq => (cq.1, cq.2.fresh) := by
  cases h : p.next? with
  | none => exact next?_eq_none.2 (next?_eq_none (p := p).1 h)
  | some cq => exact next?_eq_some.2 ⟨(next?_eq_some.1 h).1, rfl⟩

/-- Whether a character may be passed does not depend on the groups. -/
theorem advance?_fresh (set : CharSet) (p : Place) :
    p.fresh.advance? set = (p.advance? set).map fresh := by
  rw [advance?, advance?, next?_fresh]
  cases p.next? with
  | none => rfl
  | some cq =>
    obtain ⟨c, q⟩ := cq
    by_cases hc : set.contains c = true <;> simp [hc]

/-- A place later in the same text has no more left. -/
theorem left_le_of_suffix {p q : Place} (h : q.rest <:+ p.rest) : q.left ≤ p.left := by
  rw [p.left_eq, q.left_eq]
  exact h.length_le

/-- A span and what is left behind it are the text. -/
theorem between_append_rest {p q : Place} (h : q.rest <:+ p.rest) :
    p.between q ++ q.rest = p.rest := by
  obtain ⟨before, h⟩ := h
  rw [between, p.left_eq, q.left_eq, ← h]
  simp

end Place

end VerseSearch
