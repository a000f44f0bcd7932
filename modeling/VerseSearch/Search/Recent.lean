/-!
# Recently used values

A table of limited size that forgets the key used least recently. It is a list with the key used
last in front. Finding a key and storing one are separate steps, so that other steps may come
between them.
-/

set_option autoImplicit false

namespace VerseSearch

/-- Keys and their values, the key used last in front. -/
structure Recent (κ ν : Type) where
  /-- How many keys are kept. -/
  capacity : Nat
  entries : List (κ × ν)
deriving DecidableEq, Repr

namespace Recent

variable {κ ν ε : Type} [DecidableEq κ]

/-- How many keys are kept where the wanted number is 0. -/
def fallbackCapacity : Nat := 256

/-- A table without keys. -/
def empty (capacity : Nat) : Recent κ ν :=
  ⟨if capacity = 0 then fallbackCapacity else capacity, []⟩

/-- The value of a key. Does not count as a use. -/
def peek? (t : Recent κ ν) (k : κ) : Option ν := t.entries.lookup k

/-- The entries without a key. -/
def without (k : κ) (entries : List (κ × ν)) : List (κ × ν) := entries.filter fun e => e.1 ≠ k

/-- The value of a key, which becomes the one used last if it is present. -/
def get (t : Recent κ ν) (k : κ) : Option ν × Recent κ ν :=
  match t.peek? k with
  | none => (none, t)
  | some v => (some v, { t with entries := (k, v) :: without k t.entries })

/-- Stores a value under a key, which becomes the one used last. -/
def put (t : Recent κ ν) (k : κ) (v : ν) : Recent κ ν :=
  { t with entries := ((k, v) :: without k t.entries).take t.capacity }

/-- The value of a key; if it is not present it is computed, and stored unless that fails. -/
def getOrCompute (t : Recent κ ν) (k : κ) (compute : Unit → Except ε ν) :
    Except ε ν × Recent κ ν :=
  match t.get k with
  | (some v, t') => (.ok v, t')
  | (none, t') =>
    match compute () with
    | .error e => (.error e, t')
    | .ok v => (.ok v, t'.put k v)

/-- The table without its keys. -/
def clear (t : Recent κ ν) : Recent κ ν := { t with entries := [] }

/-- The number of keys. -/
def size (t : Recent κ ν) : Nat := t.entries.length

/-! ## Laws -/

@[simp] theorem peek?_clear (t : Recent κ ν) (k : κ) : t.clear.peek? k = none := rfl

theorem lookup_without_of_ne {j k : κ} (h : j ≠ k) (entries : List (κ × ν)) :
    (without k entries).lookup j = entries.lookup j := by
  induction entries with
  | nil => rfl
  | cons e es ih =>
    obtain ⟨i, v⟩ := e
    by_cases hi : i = k
    · subst hi
      have hb : (j == i) = false := by simp [h]
      simpa [without, List.lookup_cons, hb] using ih
    · by_cases hj : j = i
      · subst hj
        simp [without, hi]
      · have : (j == i) = false := by simp [hj]
        simpa [without, hi, List.lookup_cons, this] using ih

/-- Looking a key up changes no value. -/
theorem peek?_get (t : Recent κ ν) (k j : κ) : (t.get k).2.peek? j = t.peek? j := by
  unfold get
  split
  · rfl
  · rename_i v hv
    by_cases h : j = k
    · subst h
      simpa [peek?] using hv.symm
    · have hb : (j == k) = false := by simp [h]
      simp [peek?, List.lookup_cons, hb, lookup_without_of_ne h]

/-- A stored value is found again, as long as anything is kept at all. -/
theorem peek?_put_self {t : Recent κ ν} (h : 0 < t.capacity) (k : κ) (v : ν) :
    (t.put k v).peek? k = some v := by
  obtain ⟨n, hn⟩ : ∃ n, t.capacity = n + 1 := ⟨t.capacity - 1, by omega⟩
  simp [put, peek?, hn]

/-- Storing keeps the table within its capacity. -/
theorem size_put_le (t : Recent κ ν) (k : κ) (v : ν) : (t.put k v).size ≤ t.capacity := by
  simp only [size, put, List.length_take]
  omega

end Recent

end VerseSearch
