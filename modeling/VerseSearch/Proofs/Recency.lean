import Mathlib.Data.List.Dedup
import VerseSearch.Search.Recent

/-!
# The keys touched last

What a table of recently used values holds, told from what was done with it and not from how it is
kept. A history notes which keys were stored or found, and when everything was cleared. A key is
held after a history if a value was stored for it since then and fewer other keys were touched after
it than the table has places.

The two descriptions meet in `History.ranking`: all stored keys, the one touched last in front. A
table has the first of them (`Recent.Follows`), as many as it has places, and a key stands there
behind exactly the keys that were touched after it (`History.mem_ahead_iff`). Main statement: a
table holds what its history says, whatever was done with it (`Recent.keeps_last_touched`).
-/

set_option autoImplicit false

namespace VerseSearch

namespace Recent

variable {κ ν ε : Type} [DecidableEq κ]

/-! ## Histories -/

/-- What can be done with a table. -/
inductive Use (κ ν ε : Type) where
  | get (k : κ)
  | put (k : κ) (v : ν)
  | compute (k : κ) (result : Unit → Except ε ν)
  | clear
  /-- The number of keys is asked for. -/
  | count

/-- Something that happened to a key, or to all keys. -/
inductive Touch (κ ν : Type) where
  | stored (k : κ) (v : ν)
  | found (k : κ)
  | cleared

/-- What has happened so far, the last in front. -/
abbrev History (κ ν : Type) := List (Touch κ ν)

namespace History

/-- The value that was stored last for the key since everything was cleared. -/
def lastStored? (k : κ) : History κ ν → Option ν
  | [] => none
  | .stored j v :: past => if j = k then some v else lastStored? k past
  | .found _ :: past => lastStored? k past
  | .cleared :: _ => none

/-- The keys touched after the key was touched last. -/
def touchedSince (k : κ) : History κ ν → List κ
  | [] => []
  | .stored j _ :: past => if j = k then [] else j :: touchedSince k past
  | .found j :: past => if j = k then [] else j :: touchedSince k past
  | .cleared :: past => touchedSince k past

/-- The key was stored since everything was cleared, and fewer other keys than the limit were
touched after it. -/
def Holds (limit : Nat) (k : κ) (h : History κ ν) : Prop :=
  (h.lastStored? k).isSome = true ∧ (h.touchedSince k).dedup.length < limit

instance (limit : Nat) (k : κ) (h : History κ ν) : Decidable (h.Holds limit k) :=
  inferInstanceAs (Decidable (_ ∧ _))

/-- The history with one use more. Asking for a key that is not held leaves no trace, and neither
does a computation that fails. -/
def note (limit : Nat) (h : History κ ν) : Use κ ν ε → History κ ν
  | .get k => if h.Holds limit k then .found k :: h else h
  | .put k v => .stored k v :: h
  | .compute k result =>
    if h.Holds limit k then .found k :: h
    else
      match result () with
      | .ok v => .stored k v :: h
      | .error _ => h
  | .clear => .cleared :: h
  | .count => h

/-- What happened in some uses of a new table. -/
def ofUses (limit : Nat) (uses : List (Use κ ν ε)) : History κ ν := uses.foldl (note limit) []

end History

/-! ## Lists of entries -/

theorem lookup_take (k : κ) (n : Nat) (entries : List (κ × ν)) (v : ν) :
    (entries.take n).lookup k = some v ↔
      entries.lookup k = some v ∧ (entries.takeWhile (·.1 ≠ k)).length < n := by
  induction entries generalizing n with
  | nil => simp
  | cons e entries ih =>
    obtain ⟨j, w⟩ := e
    cases n with
    | zero => simp
    | succ n =>
      by_cases hj : j = k
      · subst hj
        simp
      · have hb : (k == j) = false := by simp [Ne.symm hj]
        rw [List.take_succ_cons, List.lookup_cons, List.lookup_cons, hb]
        simpa [hj] using ih n

theorem takeWhile_without {j k : κ} (h : j ≠ k) (entries : List (κ × ν)) :
    (without j entries).takeWhile (·.1 ≠ k) = without j (entries.takeWhile (·.1 ≠ k)) := by
  induction entries with
  | nil => rfl
  | cons e entries ih =>
    by_cases hj : e.1 = j
    · simpa [without, hj, h] using ih
    · by_cases hk : e.1 = k
      · simp [without, hk, Ne.symm h]
      · simpa [without, hj, hk] using ih

theorem mem_keys_without {i k : κ} {entries : List (κ × ν)} :
    i ∈ (without k entries).map Prod.fst ↔ i ∈ entries.map Prod.fst ∧ i ≠ k := by
  simp [without]

theorem nodup_keys_without {entries : List (κ × ν)} (h : (entries.map Prod.fst).Nodup) (k : κ) :
    ((without k entries).map Prod.fst).Nodup :=
  h.sublist (List.filter_sublist.map Prod.fst)

theorem without_eq_self {k : κ} {entries : List (κ × ν)} (h : k ∉ entries.map Prod.fst) :
    without k entries = entries := by
  refine List.filter_eq_self.2 fun e he => ?_
  have hne : e.1 ≠ k := fun hk => h (List.mem_map.2 ⟨e, he, hk⟩)
  simp [hne]

/-- Of the first keys, one at most is left out. -/
theorem take_without_take {entries : List (κ × ν)} (h : (entries.map Prod.fst).Nodup) (k : κ)
    (n : Nat) : (without k (entries.take (n + 1))).take n = (without k entries).take n := by
  induction entries generalizing n with
  | nil => rfl
  | cons e entries ih =>
    obtain ⟨hnew, hrest⟩ := List.nodup_cons.1 h
    by_cases hk : e.1 = k
    · subst hk
      have htake : e.1 ∉ (entries.take n).map Prod.fst := fun hmem =>
        hnew ((List.take_sublist n entries).map Prod.fst |>.subset hmem)
      have hcons : ∀ es : List (κ × ν), without e.1 (e :: es) = without e.1 es := by simp [without]
      rw [List.take_succ_cons, hcons, hcons, without_eq_self htake, without_eq_self hnew,
        List.take_take, Nat.min_self]
    · have hcons : ∀ es : List (κ × ν), without k (e :: es) = e :: without k es := by
        simp [without, hk]
      rw [List.take_succ_cons, hcons, hcons]
      cases n with
      | zero => rfl
      | succ n => rw [List.take_succ_cons, List.take_succ_cons, ih hrest]

/-! ### A key comes to the front -/

theorem lookup_cons_without (j k : κ) (v : ν) (entries : List (κ × ν)) :
    ((j, v) :: without j entries).lookup k = if j = k then some v else entries.lookup k := by
  by_cases hj : j = k
  · simp [hj]
  · have hb : (k == j) = false := by simp [Ne.symm hj]
    rw [List.lookup_cons, hb, lookup_without_of_ne (Ne.symm hj), if_neg hj]

theorem nodup_keys_cons_without {entries : List (κ × ν)} (h : (entries.map Prod.fst).Nodup) (k : κ)
    (v : ν) : (((k, v) :: without k entries).map Prod.fst).Nodup :=
  List.nodup_cons.2 ⟨fun hmem => (mem_keys_without.1 hmem).2 rfl, nodup_keys_without h k⟩

/-- Ahead of another key there is now the key at the front. -/
theorem mem_ahead_cons_without (i j k : κ) (v : ν) (entries : List (κ × ν)) :
    i ∈ (((j, v) :: without j entries).takeWhile (·.1 ≠ k)).map Prod.fst ↔
      j ≠ k ∧ (i = j ∨ i ∈ (entries.takeWhile (·.1 ≠ k)).map Prod.fst) := by
  by_cases hj : j = k
  · simp [hj]
  · rw [List.takeWhile_cons, if_pos (by simpa using hj), takeWhile_without hj, List.map_cons,
      List.mem_cons, mem_keys_without]
    by_cases hi : i = j <;> simp [hi, hj]

/-- A key that is found makes the rest shorter. -/
theorem length_without_lt {k : κ} {entries : List (κ × ν)} (h : k ∈ entries.map Prod.fst) :
    (without k entries).length < entries.length := by
  obtain ⟨e, he, hk⟩ := List.mem_map.1 h
  exact List.length_filter_lt_length_iff_exists.2 ⟨e, he, by simp [hk]⟩

/-! ## The stored keys in order -/

namespace History

/-- The keys stored since everything was cleared, with their values, the key touched last in
front. -/
def ranking : History κ ν → List (κ × ν)
  | [] => []
  | .stored k v :: past => (k, v) :: without k (ranking past)
  | .found k :: past =>
    match lastStored? k past with
    | some v => (k, v) :: without k (ranking past)
    | none => ranking past
  | .cleared :: _ => []

/-- Whatever was found had been stored. -/
def FindsStored : History κ ν → Prop
  | [] => True
  | .found k :: past => (lastStored? k past).isSome = true ∧ FindsStored past
  | .stored _ _ :: past => FindsStored past
  | .cleared :: past => FindsStored past

variable {h : History κ ν} {k : κ}

theorem lookup_ranking (h : History κ ν) (k : κ) : h.ranking.lookup k = h.lastStored? k := by
  fun_induction ranking h with
  | case1 => rfl
  | case2 j v past ih => rw [lookup_cons_without, ih, lastStored?]
  | case3 j past v hv ih =>
    rw [lookup_cons_without, ih, lastStored?]
    split
    · rename_i hj
      rw [← hj, hv]
    · rfl
  | case4 j past _ ih => exact ih
  | case5 => rfl

theorem nodup_ranking (h : History κ ν) : (h.ranking.map Prod.fst).Nodup := by
  fun_induction ranking h with
  | case1 => exact List.nodup_nil
  | case2 k v past ih => exact nodup_keys_cons_without ih k v
  | case3 k past v _ ih => exact nodup_keys_cons_without ih k v
  | case4 k past _ ih => exact ih
  | case5 => exact List.nodup_nil

theorem mem_touched_iff (i j k : κ) (touched : List κ) :
    (i ∈ if j = k then [] else j :: touched) ↔ j ≠ k ∧ (i = j ∨ i ∈ touched) := by
  by_cases hj : j = k <;> simp [hj]

/-- Ahead of a stored key stand the keys touched after it. -/
theorem mem_ahead_iff (hfound : h.FindsStored) (hk : (h.lastStored? k).isSome = true) {i : κ} :
    i ∈ (h.ranking.takeWhile (·.1 ≠ k)).map Prod.fst ↔ i ∈ h.touchedSince k := by
  fun_induction ranking h with
  | case1 => cases hk
  | case2 j v past ih =>
    rw [mem_ahead_cons_without, touchedSince, mem_touched_iff]
    refine and_congr_right fun hj => or_congr_right (ih hfound ?_)
    rwa [lastStored?, if_neg hj] at hk
  | case3 j past v _ ih =>
    rw [mem_ahead_cons_without, touchedSince, mem_touched_iff]
    exact and_congr_right fun _ => or_congr_right (ih hfound.2 hk)
  | case4 j past hj _ =>
    have hstored := hfound.1
    rw [hj] at hstored
    cases hstored
  | case5 => cases hk

/-- A stored key stands behind as many keys as were touched after it. -/
theorem length_ahead (hfound : h.FindsStored) (hk : (h.lastStored? k).isSome = true) :
    (h.ranking.takeWhile (·.1 ≠ k)).length = (h.touchedSince k).dedup.length := by
  have hahead : ((h.ranking.takeWhile (·.1 ≠ k)).map Prod.fst).Nodup :=
    (nodup_ranking h).sublist ((List.takeWhile_sublist _).map Prod.fst)
  have hperm : ((h.ranking.takeWhile (·.1 ≠ k)).map Prod.fst).Perm (h.touchedSince k).dedup := by
    refine (List.perm_ext_iff_of_nodup hahead (List.nodup_dedup _)).2 fun i => ?_
    rw [mem_ahead_iff hfound hk, List.mem_dedup]
  rw [← hperm.length_eq, List.length_map]

/-- The first keys in order are those that are held. -/
theorem lookup_take_ranking (hfound : h.FindsStored) (limit : Nat) (v : ν) :
    (h.ranking.take limit).lookup k = some v ↔
      h.lastStored? k = some v ∧ (h.touchedSince k).dedup.length < limit := by
  rw [lookup_take, lookup_ranking]
  refine and_congr_right fun hv => ?_
  rw [length_ahead hfound (by simp [hv])]

end History

/-! ## What a use does -/

/-- The table after a use. -/
def act (t : Recent κ ν) : Use κ ν ε → Recent κ ν
  | .get k => (t.get k).2
  | .put k v => t.put k v
  | .compute k result => (t.getOrCompute k result).2
  | .clear => t.clear
  | .count => t

/-- The table after some uses. -/
def run (t : Recent κ ν) (uses : List (Use κ ν ε)) : Recent κ ν := uses.foldl act t

variable {t : Recent κ ν} {k : κ} {v : ν}

theorem get_fst (t : Recent κ ν) (k : κ) : (t.get k).1 = t.peek? k := by
  unfold get
  split
  · rename_i h
    exact h.symm
  · rename_i v h
    exact h.symm

theorem get_of_absent (h : t.peek? k = none) : t.get k = (none, t) := by
  rw [get, h]

theorem mem_keys_of_peek? (h : t.peek? k = some v) : k ∈ t.entries.map Prod.fst := by
  obtain ⟨before, after, he, _⟩ := List.lookup_eq_some_iff.1 h
  simp [he]

/-- Finding a key is storing its value again. -/
theorem get_of_present (hsize : t.size ≤ t.capacity) (h : t.peek? k = some v) :
    t.get k = (some v, t.put k v) := by
  have hlt := length_without_lt (mem_keys_of_peek? h)
  have hall : ((k, v) :: without k t.entries).length ≤ t.capacity :=
    Nat.le_trans (Nat.succ_le_of_lt hlt) hsize
  rw [get, h, put, List.take_of_length_le hall]

/-- The computation for a key that is present is not asked for. -/
theorem getOrCompute_of_present (compute : Unit → Except ε ν) (h : t.peek? k = some v) :
    t.getOrCompute k compute = (.ok v, (t.get k).2) := by
  rw [getOrCompute, get, h]

theorem getOrCompute_of_absent (compute : Unit → Except ε ν) (h : t.peek? k = none) :
    t.getOrCompute k compute =
      match compute () with
      | .error e => (.error e, t)
      | .ok v => (.ok v, t.put k v) := by
  cases hresult : compute () with
  | error e => simp only [getOrCompute, get_of_absent h, hresult]
  | ok v => simp only [getOrCompute, get_of_absent h, hresult]

/-! ## The table and its history -/

/-- The table has the first keys that the history puts in order. -/
structure Follows (t : Recent κ ν) (h : History κ ν) : Prop where
  capacity_pos : 0 < t.capacity
  entries : t.entries = h.ranking.take t.capacity
  found : h.FindsStored

namespace Follows

variable {h : History κ ν}

theorem peek?_eq_some_iff (hf : t.Follows h) (k : κ) (v : ν) : t.peek? k = some v ↔
    h.lastStored? k = some v ∧ (h.touchedSince k).dedup.length < t.capacity := by
  rw [peek?, hf.entries]
  exact History.lookup_take_ranking hf.found t.capacity v

theorem holds_iff (hf : t.Follows h) (k : κ) :
    h.Holds t.capacity k ↔ (t.peek? k).isSome = true := by
  simp only [History.Holds, Option.isSome_iff_exists, hf.peek?_eq_some_iff, exists_and_right]

theorem size_le (hf : t.Follows h) : t.size ≤ t.capacity := by
  rw [size, hf.entries, List.length_take]
  exact Nat.min_le_left _ _

theorem nodup_keys (hf : t.Follows h) : (t.entries.map Prod.fst).Nodup := by
  rw [hf.entries]
  exact (History.nodup_ranking h).sublist ((List.take_sublist _ _).map Prod.fst)

/-- All that a use can do, to the table and to the history: nothing, a value is stored, a key is
found, or everything is cleared. -/
theorem act_cases (hf : t.Follows h) (u : Use κ ν ε) :
    (t.act u = t ∧ h.note t.capacity u = h) ∨
    (∃ k v, t.act u = t.put k v ∧ h.note t.capacity u = .stored k v :: h) ∨
    (∃ k v, t.peek? k = some v ∧ t.act u = t.put k v ∧ h.note t.capacity u = .found k :: h) ∨
    (t.act u = t.clear ∧ h.note t.capacity u = .cleared :: h) := by
  have habsent {k : κ} (hv : t.peek? k = none) : ¬ h.Holds t.capacity k := by
    simp [hf.holds_iff, hv]
  have hpresent {k : κ} {v : ν} (hv : t.peek? k = some v) : h.Holds t.capacity k := by
    simp [hf.holds_iff, hv]
  cases u with
  | get k =>
    rw [act, History.note]
    cases hv : t.peek? k with
    | none => exact .inl ⟨by rw [get_of_absent hv], if_neg (habsent hv)⟩
    | some v =>
      exact .inr (.inr (.inl ⟨k, v, hv, by rw [get_of_present hf.size_le hv],
        if_pos (hpresent hv)⟩))
  | put k v => exact .inr (.inl ⟨k, v, rfl, rfl⟩)
  | compute k result =>
    rw [act, History.note]
    cases hv : t.peek? k with
    | none =>
      rw [getOrCompute_of_absent result hv, if_neg (habsent hv)]
      cases result () with
      | error e => exact .inl ⟨rfl, rfl⟩
      | ok v => exact .inr (.inl ⟨k, v, rfl, rfl⟩)
    | some v =>
      rw [getOrCompute_of_present result hv, get_of_present hf.size_le hv, if_pos (hpresent hv)]
      exact .inr (.inr (.inl ⟨k, v, hv, rfl, rfl⟩))
  | clear => exact .inr (.inr (.inr ⟨rfl, rfl⟩))
  | count => exact .inl ⟨rfl, rfl⟩

/-- The table keeps in step when a value comes to the front of both. -/
theorem put (hf : t.Follows h) {h' : History κ ν}
    (hranking : h'.ranking = (k, v) :: without k h.ranking) (hfound : h'.FindsStored) :
    (t.put k v).Follows h' := by
  refine ⟨hf.capacity_pos, ?_, hfound⟩
  obtain ⟨n, hn⟩ := Nat.exists_eq_succ_of_ne_zero (Nat.ne_of_gt hf.capacity_pos)
  show ((k, v) :: without k t.entries).take t.capacity = h'.ranking.take t.capacity
  rw [hranking, hf.entries, hn, List.take_succ_cons, List.take_succ_cons,
    take_without_take (History.nodup_ranking h)]

theorem act (hf : t.Follows h) (u : Use κ ν ε) :
    (t.act u).Follows (h.note t.capacity u) ∧ (t.act u).capacity = t.capacity := by
  rcases hf.act_cases u with ⟨ht, hh⟩ | ⟨k, v, ht, hh⟩ | ⟨k, v, hv, ht, hh⟩ | ⟨ht, hh⟩ <;>
    rw [ht, hh]
  · exact ⟨hf, rfl⟩
  · exact ⟨hf.put rfl hf.found, rfl⟩
  · have hstored := ((hf.peek?_eq_some_iff k v).1 hv).1
    refine ⟨hf.put ?_ ⟨by simp [hstored], hf.found⟩, rfl⟩
    rw [History.ranking, hstored]
  · exact ⟨⟨hf.capacity_pos, List.take_nil.symm, hf.found⟩, rfl⟩

theorem run (hf : t.Follows h) (uses : List (Use κ ν ε)) :
    (t.run uses).Follows (uses.foldl (History.note t.capacity) h) ∧
      (t.run uses).capacity = t.capacity := by
  induction uses generalizing t h with
  | nil => exact ⟨hf, rfl⟩
  | cons u uses ih =>
    obtain ⟨hact, hcapacity⟩ := hf.act u
    have hrest := ih hact
    rw [hcapacity] at hrest
    exact hrest

end Follows

theorem follows_empty (capacity : Nat) : (empty capacity : Recent κ ν).Follows [] := by
  refine ⟨?_, List.take_nil.symm, trivial⟩
  show 0 < if capacity = 0 then fallbackCapacity else capacity
  split
  · decide
  · rename_i h
    exact Nat.pos_of_ne_zero h

/-- A table forgets the key used least recently, and nothing else. After any uses of a new table a
key is present exactly if it was stored since the table was cleared last and fewer other keys were
touched after it than the table has places, and its value is the one stored last. A key that is
looked up has this value; a miss changes nothing. Whatever the computation for a present key is, it
is not asked for; that for an absent key answers, and changes nothing if it fails. The number of
keys is within the capacity. -/
theorem keeps_last_touched (capacity : Nat) (uses : List (Use κ ν ε)) :
    let limit := if capacity = 0 then 256 else capacity
    let t := (empty capacity : Recent κ ν).run uses
    let h := History.ofUses limit uses
    (∀ k v, t.peek? k = some v ↔
      h.lastStored? k = some v ∧ (h.touchedSince k).dedup.length < limit) ∧
    (∀ k, (t.get k).1 = t.peek? k ∧ (t.peek? k = none → (t.get k).2 = t)) ∧
    (∀ k v, t.peek? k = some v → ∀ compute : Unit → Except ε ν,
      t.getOrCompute k compute = (.ok v, (t.get k).2)) ∧
    (∀ k, t.peek? k = none → ∀ compute : Unit → Except ε ν,
      (t.getOrCompute k compute).1 = compute () ∧
      ∀ e, compute () = .error e → (t.getOrCompute k compute).2 = t) ∧
    (∃ keys : List κ, keys.Nodup ∧ (∀ k, k ∈ keys ↔ (t.peek? k).isSome = true) ∧
      t.size = keys.length) ∧
    t.size ≤ limit ∧ t.capacity = limit := by
  intro limit t h
  obtain ⟨hf, hcapacity⟩ := (follows_empty (κ := κ) (ν := ν) capacity).run uses
  have hlimit : t.capacity = limit := hcapacity
  have hkeys (k : κ) : k ∈ t.entries.map Prod.fst ↔ (t.peek? k).isSome = true := by
    simp only [peek?, List.lookup_isSome_iff, List.mem_map, beq_iff_eq, eq_comm (a := k)]
  refine ⟨fun k v => ?_, fun k => ⟨get_fst t k, fun hk => ?_⟩,
    fun k v hk compute => getOrCompute_of_present compute hk, fun k hk compute => ?_,
    ⟨t.entries.map Prod.fst, hf.nodup_keys, hkeys, (List.length_map _).symm⟩,
    hlimit ▸ hf.size_le, hlimit⟩
  · rw [← hlimit]
    exact hf.peek?_eq_some_iff k v
  · rw [get_of_absent hk]
  · rw [getOrCompute_of_absent compute hk]
    cases compute () with
    | error e => exact ⟨rfl, fun _ _ => rfl⟩
    | ok v =>
      refine ⟨rfl, ?_⟩
      rintro e ⟨⟩

-- the second key is forgotten, since the first one was found after it
example : let uses : List (Use Nat Nat Unit) := [.put 1 10, .put 2 20, .get 1, .put 3 30]
    ((empty 2 : Recent Nat Nat).run uses).entries = [(3, 30), (1, 10)] := by
  decide

end Recent

end VerseSearch
