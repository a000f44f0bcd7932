import VerseSearch.Corpus.Decode
import VerseSearch.Proofs.TypedReferences
import VerseSearch.Proofs.ValueLayout

/-!
# Encoded corpora

The JSON texts that hold a list of verses, said without the reader: a verse is an object or an array
of four, its two numbers are JSON numbers or numerals in a string (`Verse.Encoded`), and the array of
all verses is written in any way JSON allows (`Corpus.Encodes`). Every list of verses has such a text
(`Corpus.exists_encodes`).

Main statement: `Corpus.ofJson_undoes_encoding`. The members of an object may come in any order and
with others between them; that order does not matter is shown once, for two neighbours
(`Partial.Adds.swap`), and from there for every permutation.
-/

set_option autoImplicit false

namespace VerseSearch

open Json (Value)

namespace Text

/-- A text is what is left of it after trimming, with blanks around. -/
theorem exists_eq_around_trim (s : List Char) : ∃ before after,
    (∀ c ∈ before, isBlank c = true) ∧ (∀ c ∈ after, isBlank c = true) ∧
      s = before ++ (trim s ++ after) := by
  refine ⟨s.takeWhile isBlank, ((trimStart s).reverse.takeWhile isBlank).reverse,
    fun c hc => List.mem_takeWhile_imp hc,
    fun c hc => List.mem_takeWhile_imp (List.mem_reverse.1 hc), ?_⟩
  have hend : trim s ++ ((trimStart s).reverse.takeWhile isBlank).reverse = trimStart s := by
    rw [trim, trimEnd, ← List.reverse_append, List.takeWhile_append_dropWhile,
      List.reverse_reverse]
  rw [hend, takeWhile_append_trimStart]

end Text

namespace Verse

/-! ## Numbers -/

/-- The value stands for a number: it is a JSON number, or a string with a numeral of digits of
either row between blanks. -/
inductive StandsFor (n : Nat) : Value → Prop where
  | number : StandsFor n (.number (some n))
  | numeral {before digits after : List Char} :
      (∀ c ∈ before, Text.isBlank c = true) → (∀ c ∈ after, Text.isBlank c = true) →
      Numeral.isNumeral digits = true → Numeral.decimal digits = n →
      StandsFor n (.text (some (before ++ (digits ++ after))))

/-- A value is read as the number it stands for, within 32 bits. -/
theorem numberOf_eq_ok_iff {v : Value} {n : UInt32} :
    numberOf v = .ok n ↔ StandsFor n.toNat v := by
  constructor
  · intro h
    unfold numberOf at h
    split at h
    · rename_i k
      split at h
      · rename_i hk
        cases h
        have hvalue : (UInt32.ofNat k).toNat = k := by
          rw [UInt32.toNat_ofNat', Nat.mod_eq_of_lt hk]
        rw [hvalue]
        exact .number
      · cases h
    · rename_i s
      split at h
      · rename_i m hm
        cases h
        obtain ⟨hnumeral, hvalue⟩ := Numeral.value?_eq_some_iff.1 hm
        obtain ⟨before, after, hbefore, hafter, hs⟩ := Text.exists_eq_around_trim s
        rw [hs]
        exact .numeral hbefore hafter hnumeral hvalue
      · cases h
    · cases h
  · intro h
    cases h with
    | number =>
      rw [numberOf, if_pos n.toNat_lt, UInt32.ofNat_toNat]
    | numeral hbefore hafter hnumeral hvalue =>
      rw [numberOf, Query.trim_numeral hbefore hafter hnumeral,
        Numeral.value?_eq_some_iff.2 ⟨hnumeral, hvalue⟩]

/-- The JSON string of a text. -/
def stringValue (s : String) : Value := .text (some s.toList)

@[simp] theorem stringOf_stringValue (s : String) : stringOf (stringValue s) = .ok s := by
  rw [stringValue, stringOf, String.ofList_toList]

/-! ## Members -/

/-- The four keys, in the order of an array. -/
def keys : List (List Char) := ["ayah".toList, "anum".toList, "snum".toList, "surah".toList]

theorem map_eq_ok {α β : Type} {x : Except CorpusFault α} {f : α → β} {y : β}
    (h : x.map f = .ok y) : ∃ a, x = .ok a ∧ f a = y := by
  cases x with
  | error fault => cases h
  | ok a => exact ⟨a, rfl, Except.ok.inj h⟩

/-- A field is filled only if it is empty. -/
theorem of_guarded_map {α β γ : Type} {field : Option γ} {x : Except CorpusFault α} {f : α → β}
    {y : β} (h : (if field.isSome then .error .malformed else x.map f) = .ok y) :
    field = none ∧ ∃ a, x = .ok a ∧ f a = y := by
  split at h
  · cases h
  · exact ⟨Option.not_isSome_iff_eq_none.1 ‹_›, map_eq_ok h⟩

namespace Partial

/-- What adding a member comes to where it succeeds. -/
inductive Adds (p : Partial) : List Char → Value → Partial → Prop where
  | text {v : Value} {s : String} : p.text = none → stringOf v = .ok s →
      Adds p "ayah".toList v { p with text := some s }
  | number {v : Value} {n : UInt32} : p.number = none → numberOf v = .ok n →
      Adds p "anum".toList v { p with number := some n }
  | surahNumber {v : Value} {n : UInt32} : p.surahNumber = none → numberOf v = .ok n →
      Adds p "snum".toList v { p with surahNumber := some n }
  | surahName {v : Value} {s : String} : p.surahName = none → stringOf v = .ok s →
      Adds p "surah".toList v { p with surahName := some s }
  | other {key : List Char} {v : Value} : key ∉ keys → v.isWhole = true → Adds p key v p

variable {p q r : Partial} {key key' : List Char} {v v' : Value}

theorem add_eq_ok_iff : p.add key v = .ok q ↔ p.Adds key v q := by
  constructor
  · intro h
    unfold add at h
    split at h
    · subst_vars
      obtain ⟨hp, s, hs, rfl⟩ := of_guarded_map h
      exact .text hp hs
    split at h
    · subst_vars
      obtain ⟨hp, n, hn, rfl⟩ := of_guarded_map h
      exact .number hp hn
    split at h
    · subst_vars
      obtain ⟨hp, n, hn, rfl⟩ := of_guarded_map h
      exact .surahNumber hp hn
    split at h
    · subst_vars
      obtain ⟨hp, s, hs, rfl⟩ := of_guarded_map h
      exact .surahName hp hs
    split at h
    · cases h
      exact .other (by simp_all [keys]) ‹_›
    · cases h
  · intro h
    cases h with
    | text hp hv => simp [add, hp, hv, Except.map]
    | number hp hv => simp [add, hp, hv, Except.map]
    | surahNumber hp hv => simp [add, hp, hv, Except.map]
    | surahName hp hv => simp [add, hp, hv, Except.map]
    | other hkey hv => simp_all [add, keys]

/-- Two members may be added in either order. -/
theorem Adds.swap (h : p.Adds key v r) (h' : r.Adds key' v' q) :
    ∃ r', p.Adds key' v' r' ∧ r'.Adds key v q := by
  -- Where both have the same one of the four keys, the second finds its field filled.
  cases h with
  | text hp hv =>
    cases h' with
    | text hfilled => cases hfilled
    | number hp' hv' => exact ⟨_, .number hp' hv', .text hp hv⟩
    | surahNumber hp' hv' => exact ⟨_, .surahNumber hp' hv', .text hp hv⟩
    | surahName hp' hv' => exact ⟨_, .surahName hp' hv', .text hp hv⟩
    | other hkey' hv' => exact ⟨_, .other hkey' hv', .text hp hv⟩
  | number hp hv =>
    cases h' with
    | text hp' hv' => exact ⟨_, .text hp' hv', .number hp hv⟩
    | number hfilled => cases hfilled
    | surahNumber hp' hv' => exact ⟨_, .surahNumber hp' hv', .number hp hv⟩
    | surahName hp' hv' => exact ⟨_, .surahName hp' hv', .number hp hv⟩
    | other hkey' hv' => exact ⟨_, .other hkey' hv', .number hp hv⟩
  | surahNumber hp hv =>
    cases h' with
    | text hp' hv' => exact ⟨_, .text hp' hv', .surahNumber hp hv⟩
    | number hp' hv' => exact ⟨_, .number hp' hv', .surahNumber hp hv⟩
    | surahNumber hfilled => cases hfilled
    | surahName hp' hv' => exact ⟨_, .surahName hp' hv', .surahNumber hp hv⟩
    | other hkey' hv' => exact ⟨_, .other hkey' hv', .surahNumber hp hv⟩
  | surahName hp hv =>
    cases h' with
    | text hp' hv' => exact ⟨_, .text hp' hv', .surahName hp hv⟩
    | number hp' hv' => exact ⟨_, .number hp' hv', .surahName hp hv⟩
    | surahNumber hp' hv' => exact ⟨_, .surahNumber hp' hv', .surahName hp hv⟩
    | surahName hfilled => cases hfilled
    | other hkey' hv' => exact ⟨_, .other hkey' hv', .surahName hp hv⟩
  | other hkey hv => exact ⟨q, h', .other hkey hv⟩

variable {m : Option (List Char) × Value} {ms ms' : List (Option (List Char) × Value)}

theorem addAll_cons_eq_ok_iff : p.addAll (m :: ms) = .ok q ↔
    ∃ key r, m.1 = some key ∧ p.Adds key m.2 r ∧ r.addAll ms = .ok q := by
  obtain ⟨key, v⟩ := m
  cases key with
  | none => simp [addAll]
  | some key =>
    rw [addAll]
    split
    · rename_i hadd
      simp [← add_eq_ok_iff, hadd]
    · rename_i r hadd
      simp [← add_eq_ok_iff, hadd]

theorem addAll_append_eq_ok_iff :
    p.addAll (ms ++ ms') = .ok q ↔ ∃ r, p.addAll ms = .ok r ∧ r.addAll ms' = .ok q := by
  induction ms generalizing p with
  | nil => simp [addAll]
  | cons m ms ih =>
    simp only [List.cons_append, addAll_cons_eq_ok_iff, ih]
    constructor
    · rintro ⟨key, r, hkey, hadds, r', hms, hms'⟩
      exact ⟨r', ⟨key, r, hkey, hadds, hms⟩, hms'⟩
    · rintro ⟨r', ⟨key, r, hkey, hadds, hms⟩, hms'⟩
      exact ⟨key, r, hkey, hadds, r', hms, hms'⟩

/-- The members of a verse may come in any order. -/
theorem addAll_perm (h : ms.Perm ms') (hms : p.addAll ms = .ok q) : p.addAll ms' = .ok q := by
  induction h generalizing p with
  | nil => exact hms
  | cons m _ ih =>
    obtain ⟨key, r, hkey, hadds, hrest⟩ := addAll_cons_eq_ok_iff.1 hms
    exact addAll_cons_eq_ok_iff.2 ⟨key, r, hkey, hadds, ih hrest⟩
  | swap m m' ms =>
    obtain ⟨key, r, hkey, hadds, hrest⟩ := addAll_cons_eq_ok_iff.1 hms
    obtain ⟨key', r', hkey', hadds', hrest⟩ := addAll_cons_eq_ok_iff.1 hrest
    obtain ⟨r'', hfirst, hsecond⟩ := hadds.swap hadds'
    exact addAll_cons_eq_ok_iff.2 ⟨key', r'', hkey', hfirst,
      addAll_cons_eq_ok_iff.2 ⟨key, r', hkey, hsecond, hrest⟩⟩
  | trans _ _ ih ih' => exact ih' (ih hms)

/-- Every member can be read as if it were the last one. -/
theorem exists_adds_of_mem (hms : p.addAll ms = .ok q) (h : (some key, v) ∈ ms) :
    ∃ r : Partial, r.Adds key v q := by
  obtain ⟨front, back, rfl⟩ := List.append_of_mem h
  have hlast : p.addAll (front ++ back ++ [(some key, v)]) = .ok q :=
    addAll_perm (List.perm_middle.trans (List.perm_append_singleton _ _).symm) hms
  obtain ⟨r, -, hadd⟩ := addAll_append_eq_ok_iff.1 hlast
  obtain ⟨key', r', hkey, hadds, hq⟩ := addAll_cons_eq_ok_iff.1 hadd
  cases hkey
  cases hq
  exact ⟨r, hadds⟩

/-- Members that a verse does not have change nothing. -/
theorem addAll_others (h : ∀ m ∈ ms, ∃ key, m.1 = some key ∧ key ∉ keys)
    (hwhole : ∀ m ∈ ms, m.2.isWhole = true) : p.addAll ms = .ok p := by
  induction ms with
  | nil => rfl
  | cons m ms ih =>
    rw [List.forall_mem_cons] at h hwhole
    obtain ⟨⟨key, hkey, hother⟩, hrest⟩ := h
    exact addAll_cons_eq_ok_iff.2 ⟨key, p, hkey, .other hother hwhole.1, ih hrest hwhole.2⟩

theorem Adds.number_eq (h : p.Adds "anum".toList v q) :
    ∃ n, numberOf v = .ok n ∧ q.number = some n := by
  generalize hkey : "anum".toList = key at h
  cases h with
  | number _ hv => exact ⟨_, hv, rfl⟩
  | other hother => exact absurd (hkey ▸ by decide) hother
  | text | surahNumber | surahName => exact absurd hkey (by decide)

theorem Adds.surahNumber_eq (h : p.Adds "snum".toList v q) :
    ∃ n, numberOf v = .ok n ∧ q.surahNumber = some n := by
  generalize hkey : "snum".toList = key at h
  cases h with
  | surahNumber _ hv => exact ⟨_, hv, rfl⟩
  | other hother => exact absurd (hkey ▸ by decide) hother
  | text | number | surahName => exact absurd hkey (by decide)

theorem numbers_of_verse? {verse : Verse} (h : p.verse? = some verse) :
    p.number = some verse.number ∧ p.surahNumber = some verse.surahNumber := by
  unfold verse? at h
  split at h
  · cases h
    exact ⟨‹_›, ‹_›⟩
  · cases h

end Partial

/-! ## Verses -/

/-- A JSON value that holds the verse. -/
inductive Encoded (verse : Verse) : Value → Prop where
  | object {members others : List (Option (List Char) × Value)} {number surahNumber : Value} :
      StandsFor verse.number.toNat number → StandsFor verse.surahNumber.toNat surahNumber →
      (∀ m ∈ others, ∃ key, m.1 = some key ∧ key ∉ keys) →
      members.Perm ((some "ayah".toList, stringValue verse.text) :: (some "anum".toList, number) ::
        (some "snum".toList, surahNumber) :: (some "surah".toList, stringValue verse.surahName) ::
        others) →
      Encoded verse (.object members)
  | array {number surahNumber : Value} :
      StandsFor verse.number.toNat number → StandsFor verse.surahNumber.toNat surahNumber →
      Encoded verse
        (.array [stringValue verse.text, number, surahNumber, stringValue verse.surahName])

/-- The verse as an array, with its numbers in strings. -/
def arrayValue (verse : Verse) : Value :=
  .array [stringValue verse.text, .text (some (Numeral.written verse.number.toNat)),
    .text (some (Numeral.written verse.surahNumber.toNat)), stringValue verse.surahName]

theorem standsFor_written (n : Nat) : StandsFor n (.text (some (Numeral.written n))) := by
  have hstands := StandsFor.numeral (List.forall_mem_nil _) (List.forall_mem_nil _)
    (Numeral.isNumeral_written n) (Numeral.decimal_written n)
  rwa [List.nil_append, List.append_nil] at hstands

theorem encoded_arrayValue (verse : Verse) : verse.Encoded verse.arrayValue :=
  .array (standsFor_written _) (standsFor_written _)

theorem isWritable_arrayValue (verse : Verse) : verse.arrayValue.IsWritable := by
  refine Value.isWritable_array ?_
  simp only [List.forall_mem_cons]
  exact ⟨Value.isWritable_text _, Value.isWritable_text _, Value.isWritable_text _,
    Value.isWritable_text _, List.forall_mem_nil _⟩

variable {verse : Verse} {item x : Value} {items : List Value} {verses : List Verse}

/-- A verse is read from every value that holds it. -/
theorem ofValue_of_encoded (h : verse.Encoded item) (hwhole : item.isWhole = true) :
    ofValue item = .ok verse := by
  cases h with
  | @object members others number surahNumber hnumber hsurah hothers hperm =>
    have hmembers : ({} : Partial).addAll members = .ok ⟨some verse.text, some verse.number,
        some verse.surahNumber, some verse.surahName⟩ := by
      have hwholes : ∀ m ∈ others, m.2.isWhole = true := by
        intro m hm
        exact Value.membersAreWhole_eq_true_iff.1 hwhole m (hperm.mem_iff.2 (by simp [hm]))
      refine Partial.addAll_perm hperm.symm ?_
      refine Partial.addAll_cons_eq_ok_iff.2 ⟨_, _, rfl, .text rfl (stringOf_stringValue _), ?_⟩
      refine Partial.addAll_cons_eq_ok_iff.2
        ⟨_, _, rfl, .number rfl (numberOf_eq_ok_iff.2 hnumber), ?_⟩
      refine Partial.addAll_cons_eq_ok_iff.2
        ⟨_, _, rfl, .surahNumber rfl (numberOf_eq_ok_iff.2 hsurah), ?_⟩
      refine Partial.addAll_cons_eq_ok_iff.2
        ⟨_, _, rfl, .surahName rfl (stringOf_stringValue _), ?_⟩
      exact Partial.addAll_others hothers hwholes
    rw [ofValue, hmembers]
    rfl
  | @array number surahNumber hnumber hsurah =>
    have hread := numberOf_eq_ok_iff.2 hnumber
    have hread' := numberOf_eq_ok_iff.2 hsurah
    simp [ofValue, ofItems, bind, Except.bind, hread, hread']

/-- The value at one of the four places of a verse: under the key of the place, or there in the
array. -/
inductive HasAt (i : Nat) (x : Value) : Value → Prop where
  | object {members : List (Option (List Char) × Value)} {key : List Char} :
      keys[i]? = some key → (some key, x) ∈ members → HasAt i x (.object members)
  | array {items : List Value} : items[i]? = some x → HasAt i x (.array items)

theorem numberOf_of_ofItems (h : ofItems items = .ok verse) :
    numberOf (items.getD 1 .broken) = .ok verse.number ∧
      numberOf (items.getD 2 .broken) = .ok verse.surahNumber := by
  simp only [ofItems, bind, Except.bind] at h
  split at h
  · cases h
  split at h
  · cases h
  split at h
  · cases h
  split at h
  · cases h
  split at h
  · cases h
    exact ⟨‹_›, ‹_›⟩
  · cases h

/-- The numbers of a verse that is read are what the values at their places are read as. -/
theorem numberOf_of_hasAt (h : ofValue item = .ok verse) :
    (HasAt 1 x item → numberOf x = .ok verse.number) ∧
      (HasAt 2 x item → numberOf x = .ok verse.surahNumber) := by
  unfold ofValue at h
  split at h
  · split at h
    · cases h
    · rename_i p hp
      split at h
      · rename_i hverse
        cases h
        obtain ⟨hnumber, hsurah⟩ := Partial.numbers_of_verse? hverse
        refine ⟨fun hx => ?_, fun hx => ?_⟩
        · cases hx with
          | object hkey hmem =>
            cases hkey
            obtain ⟨r, hadds⟩ := Partial.exists_adds_of_mem hp hmem
            obtain ⟨n, hn, hp⟩ := hadds.number_eq
            rw [hn, Option.some.inj (hp.symm.trans hnumber)]
        · cases hx with
          | object hkey hmem =>
            cases hkey
            obtain ⟨r, hadds⟩ := Partial.exists_adds_of_mem hp hmem
            obtain ⟨n, hn, hp⟩ := hadds.surahNumber_eq
            rw [hn, Option.some.inj (hp.symm.trans hsurah)]
      · cases h
  · obtain ⟨hnumber, hsurah⟩ := numberOf_of_ofItems h
    refine ⟨fun hx => ?_, fun hx => ?_⟩
    · cases hx with
      | array hitem => rwa [List.getD_eq_getElem?_getD, hitem] at hnumber
    · cases hx with
      | array hitem => rwa [List.getD_eq_getElem?_getD, hitem] at hsurah
  · cases h

/-- The value of a verse has a number out of range, or what stands for none. -/
inductive IsMisnumbered (item : Value) : Prop where
  | number {x : Value} : HasAt 1 x item →
      (∀ n, StandsFor n x → n = 0 ∨ UInt32.size ≤ n) → IsMisnumbered item
  | surahNumber {x : Value} : HasAt 2 x item →
      (∀ n, StandsFor n x → n = 0 ∨ surahCount.toNat < n) → IsMisnumbered item

theorem not_isNumbered_of_isMisnumbered (h : IsMisnumbered item)
    (hverse : ofValue item = .ok verse) : ¬ verse.IsNumbered := by
  rintro ⟨hlow, hhigh, hnumber⟩
  rw [UInt32.le_iff_toNat_le] at hlow hhigh hnumber
  rw [UInt32.toNat_one] at hlow hnumber
  cases h with
  | number hx hnone =>
    have hstands := numberOf_eq_ok_iff.1 ((numberOf_of_hasAt hverse).1 hx)
    have hlt : verse.number.toNat < UInt32.size := verse.number.toNat_lt
    rcases hnone _ hstands with hzero | hlarge <;> omega
  | surahNumber hx hnone =>
    have hstands := numberOf_eq_ok_iff.1 ((numberOf_of_hasAt hverse).2 hx)
    rcases hnone _ hstands with hzero | hlarge <;> omega

theorem ofValues_of_encoded (h : List.Forall₂ Encoded verses items)
    (hwhole : ∀ item ∈ items, item.isWhole = true) : ofValues items = .ok verses := by
  induction h with
  | nil => rfl
  | cons hitem _ ih =>
    rw [List.forall_mem_cons] at hwhole
    rw [ofValues, ofValue_of_encoded hitem hwhole.1, ih hwhole.2]
    rfl

theorem exists_ofValue_of_mem (h : ofValues items = .ok verses) (hitem : item ∈ items) :
    ∃ verse ∈ verses, ofValue item = .ok verse := by
  induction items generalizing verses with
  | nil => cases hitem
  | cons first items ih =>
    rw [ofValues] at h
    split at h
    · cases h
    · rename_i verse hfirst
      obtain ⟨rest, hrest, rfl⟩ := map_eq_ok h
      rcases List.mem_cons.1 hitem with rfl | hmem
      · exact ⟨verse, List.mem_cons_self, hfirst⟩
      · obtain ⟨verse', hmem', hverse'⟩ := ih hrest hmem
        exact ⟨verse', List.mem_cons_of_mem _ hmem', hverse'⟩

end Verse

namespace Corpus

/-- A JSON text that holds the verses. -/
def Encodes (verses : List Verse) (text : String) : Prop :=
  ∃ items, (Value.array items).Written text.toList ∧ List.Forall₂ Verse.Encoded verses items

variable {items : List Value} {text : String}

/-- Every list of verses can be written. -/
theorem exists_encodes (verses : List Verse) : ∃ text, Encodes verses text := by
  have hitems : ∀ item ∈ verses.map Verse.arrayValue, item.IsWritable := by
    intro item hitem
    obtain ⟨verse, -, rfl⟩ := List.mem_map.1 hitem
    exact verse.isWritable_arrayValue
  obtain ⟨s, hs⟩ := (Value.isWritable_array hitems).exists_written
  refine ⟨String.ofList s, verses.map Verse.arrayValue, by rwa [String.toList_ofList], ?_⟩
  rw [List.forall₂_map_right_iff, List.forall₂_same]
  exact fun verse _ => verse.encoded_arrayValue

theorem versesOfJson_of_written (h : (Value.array items).Written text.toList) :
    versesOfJson text.toList = Verse.ofValues items := by
  rw [versesOfJson, Json.parse_of_written h]
  cases hread : Verse.ofValues items <;> simp [hread]

/-- Reading a corpus undoes every way of writing its verses, reads none that is out of range, and
reads nothing at all where a single verse is. -/
theorem ofJson_undoes_encoding (layer : Layer) (text : String) :
    (∀ verses, (∀ v ∈ verses, v.IsNumbered) → Encodes verses text →
        ofJson layer text = .ok ⟨layer, verses⟩) ∧
      (∀ c, ofJson layer text = .ok c → c.layer = layer ∧ ∀ v ∈ c.verses, v.IsNumbered) ∧
      (∀ items, (Value.array items).Written text.toList →
        (∃ item ∈ items, Verse.IsMisnumbered item) → ∃ fault, ofJson layer text = .error fault) := by
  refine ⟨fun verses hnumbered hencodes => ?_, fun c hc => isNumbered_of_ofJson hc, ?_⟩
  · obtain ⟨items, hwritten, hitems⟩ := hencodes
    have hwhole := Value.areWhole_eq_true_iff.1 hwritten.isWhole
    rw [ofJson, versesOfJson_of_written hwritten, Verse.ofValues_of_encoded hitems hwhole]
    simp only
    rw [(checkFrom_eq_ok_iff 0 verses).2 hnumbered]
  · rintro items hwritten ⟨item, hitem, hmisnumbered⟩
    rw [ofJson, versesOfJson_of_written hwritten]
    cases hverses : Verse.ofValues items with
    | error fault => exact ⟨fault, rfl⟩
    | ok verses =>
      obtain ⟨verse, hverse, hread⟩ := Verse.exists_ofValue_of_mem hverses hitem
      have hout := Verse.not_isNumbered_of_isMisnumbered hmisnumbered hread
      simp only
      cases hcheck : checkFrom 0 verses with
      | error fault => exact ⟨fault, rfl⟩
      | ok _ => exact absurd ((checkFrom_eq_ok_iff 0 verses).1 hcheck verse hverse) hout

open Json in
theorem ofJson_verse_in_array :
    ofJson .letters "[[\"ق\",\"٧\",1,\"a\"]]" = .ok ⟨.letters, [⟨"ق", 7, 1, "a"⟩]⟩ := by
  have hletter : ∀ {c : Char}, c ≠ '"' → c ≠ '\\' → ¬ c < ' ' →
      Token.Written (.text (some [c])) ['"', c, '"'] :=
    fun hquote hbackslash hcontrol => .text (.cons (.plain hquote hbackslash hcontrol) .nil)
  have hone : Token.Written (.number (some 1)) ['1'] :=
    .number (@WrittenNumber.natural ['1'] ⟨⟨by decide, List.all_eq_true.1 rfl⟩, nofun⟩)
  have hlaid : (Value.array [.array [.text (some ['ق']), .text (some ['٧']), .number (some 1),
      .text (some ['a'])]]).Written "[[\"ق\",\"٧\",1,\"a\"]]".toList :=
    .next .openArray <| .next .openArray <|
      .next (hletter (by decide) (by decide) (by decide)) <| .next .comma <|
      .next (hletter (by decide) (by decide) (by decide)) <| .next .comma <|
      .next hone <| .next .comma <|
      .next (hletter (by decide) (by decide) (by decide)) <|
      .next .closeArray <| .next .closeArray <| .nil (List.forall_mem_nil _)
  have hseven : Verse.StandsFor 7 (.text (some ['٧'])) :=
    @Verse.StandsFor.numeral 7 [] ['٧'] [] nofun nofun (by decide) (by decide)
  exact (ofJson_undoes_encoding .letters _).1 _ (by decide)
    ⟨_, hlaid, .cons (.array hseven .number) .nil⟩

end Corpus

end VerseSearch
