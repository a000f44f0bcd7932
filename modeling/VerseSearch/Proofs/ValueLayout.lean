import VerseSearch.Json.Value
import VerseSearch.Proofs.TokenLayout

/-!
# How values are written

The tokens of a JSON value, and the texts a value may be written as: all that lay out its tokens
(`Value.Written`). Of the texts of one value some escape a character and some do not, and they differ
in their blanks; the order of the members of an object belongs to the value.

Main statement: a value is read back from every text it is written as (`parse_of_written`). The
stack of the arrays and objects that are still open is a parameter of the statement on tokens
(`build_tokens`), so that it is its own induction hypothesis inside them.
-/

set_option autoImplicit false

namespace VerseSearch.Json

namespace Value

mutual

/-- The tokens of a value. -/
def tokens : Value → List Token
  | .null => [.null]
  | .bool value => [.bool value]
  | .number natural => [.number natural]
  | .text content => [.text content]
  | .array [] => [.openArray, .closeArray]
  | .array (v :: vs) => .openArray :: (tokens v ++ itemsBehind vs)
  | .object [] => [.openObject, .closeObject]
  | .object ((key, v) :: ms) => .openObject :: .text key :: .colon :: (tokens v ++ membersBehind ms)
  | .broken => [.broken]

/-- The tokens behind an item of an array, with the items that follow it. -/
def itemsBehind : List Value → List Token
  | [] => [.closeArray]
  | v :: vs => .comma :: (tokens v ++ itemsBehind vs)

/-- The tokens behind a member of an object, with the members that follow it. -/
def membersBehind : List (Option (List Char) × Value) → List Token
  | [] => [.closeObject]
  | (key, v) :: ms => .comma :: .text key :: .colon :: (tokens v ++ membersBehind ms)

end

/-- How a value is written. -/
def Written (v : Value) (s : List Char) : Prop := Laid v.tokens s

/-- Each token of the value can be written. -/
def IsWritable (v : Value) : Prop := ∀ t ∈ v.tokens, ∃ s, t.Written s

theorem IsWritable.exists_written {v : Value} (h : v.IsWritable) : ∃ s, v.Written s := exists_laid h

theorem isWritable_text (s : List Char) : (Value.text (some s)).IsWritable := by
  intro t ht
  rw [tokens, List.mem_singleton] at ht
  rw [ht]
  exact Token.exists_written_text s

theorem isWritable_array {vs : List Value} (h : ∀ v ∈ vs, v.IsWritable) :
    (array vs).IsWritable := by
  have hbehind : ∀ ws : List Value, (∀ v ∈ ws, v.IsWritable) →
      ∀ t ∈ itemsBehind ws, ∃ s, t.Written s := by
    intro ws hws t ht
    induction ws with
    | nil =>
      rw [itemsBehind, List.mem_singleton] at ht
      rw [ht]
      exact ⟨_, .closeArray⟩
    | cons w ws ih =>
      rw [List.forall_mem_cons] at hws
      rw [itemsBehind, List.mem_cons, List.mem_append] at ht
      rcases ht with rfl | hw | ht
      · exact ⟨_, .comma⟩
      · exact hws.1 t hw
      · exact ih hws.2 ht
  intro t ht
  cases vs with
  | nil =>
    rw [tokens, List.mem_pair] at ht
    rcases ht with rfl | rfl
    · exact ⟨_, .openArray⟩
    · exact ⟨_, .closeArray⟩
  | cons v vs =>
    rw [List.forall_mem_cons] at h
    rw [tokens, List.mem_cons, List.mem_append] at ht
    rcases ht with rfl | hv | ht
    · exact ⟨_, .openArray⟩
    · exact h.1 t hv
    · exact hbehind vs h.2 t ht

/-! ## Only whole values are written -/

mutual

theorem isWhole_of_not_mem : (v : Value) → .broken ∉ v.tokens → v.isWhole = true
  | .null, _ => rfl
  | .bool _, _ => rfl
  | .number _, _ => rfl
  | .text _, _ => rfl
  | .array [], _ => rfl
  | .array (v :: vs), h => by
    simp only [tokens, List.mem_cons, List.mem_append, not_or] at h
    rw [isWhole, areWhole, isWhole_of_not_mem v h.2.1, areWhole_of_not_mem vs h.2.2]
    rfl
  | .object [], _ => rfl
  | .object ((key, v) :: ms), h => by
    simp only [tokens, List.mem_cons, List.mem_append, not_or] at h
    rw [isWhole, membersAreWhole, isWhole_of_not_mem v h.2.2.2.1,
      membersAreWhole_of_not_mem ms h.2.2.2.2]
    rfl
  | .broken, h => absurd List.mem_cons_self h

theorem areWhole_of_not_mem : (vs : List Value) → .broken ∉ itemsBehind vs → areWhole vs = true
  | [], _ => rfl
  | v :: vs, h => by
    simp only [itemsBehind, List.mem_cons, List.mem_append, not_or] at h
    rw [areWhole, isWhole_of_not_mem v h.2.1, areWhole_of_not_mem vs h.2.2]
    rfl

theorem membersAreWhole_of_not_mem : (ms : List (Option (List Char) × Value)) →
    .broken ∉ membersBehind ms → membersAreWhole ms = true
  | [], _ => rfl
  | (_, v) :: ms, h => by
    simp only [membersBehind, List.mem_cons, List.mem_append, not_or] at h
    rw [membersAreWhole, isWhole_of_not_mem v h.2.2.2.1, membersAreWhole_of_not_mem ms h.2.2.2.2]
    rfl

end

theorem not_mem_of_laid {ts : List Token} {s : List Char} (h : Laid ts s) : .broken ∉ ts := by
  induction h with
  | nil => exact List.not_mem_nil
  | cons _ ht _ ih =>
    rw [List.mem_cons, not_or]
    refine ⟨?_, ih⟩
    rintro rfl
    cases ht

theorem Written.isWhole {v : Value} {s : List Char} (h : v.Written s) : v.isWhole = true :=
  isWhole_of_not_mem v (not_mem_of_laid h)

theorem areWhole_eq_true_iff {vs : List Value} :
    areWhole vs = true ↔ ∀ v ∈ vs, v.isWhole = true := by
  induction vs with
  | nil => simp [areWhole]
  | cons v vs ih => rw [areWhole, Bool.and_eq_true, ih, List.forall_mem_cons]

theorem membersAreWhole_eq_true_iff {ms : List (Option (List Char) × Value)} :
    membersAreWhole ms = true ↔ ∀ m ∈ ms, m.2.isWhole = true := by
  induction ms with
  | nil => simp [membersAreWhole]
  | cons m ms ih => rw [membersAreWhole, Bool.and_eq_true, ih, List.forall_mem_cons]

/-! ## No two numbers are neighbours -/

theorem isChain_cons_of_not_number {t : Token} {ts : List Token} (ht : t.isNumber = false)
    (h : ts.IsChain Apart) : (t :: ts).IsChain Apart :=
  List.isChain_cons.2 ⟨fun _ _ ht' => absurd ht' (by simp [ht]), h⟩

theorem head?_itemsBehind_append (vs : List Value) (rest : List Token) :
    ∀ t ∈ (itemsBehind vs ++ rest).head?, t.isNumber = false := by
  intro t ht
  cases vs with
  | nil =>
    rw [itemsBehind] at ht
    cases ht
    rfl
  | cons =>
    rw [itemsBehind] at ht
    cases ht
    rfl

theorem head?_membersBehind_append (ms : List (Option (List Char) × Value)) (rest : List Token) :
    ∀ t ∈ (membersBehind ms ++ rest).head?, t.isNumber = false := by
  intro t ht
  cases ms with
  | nil =>
    rw [membersBehind] at ht
    cases ht
    rfl
  | cons =>
    rw [membersBehind] at ht
    cases ht
    rfl

mutual

theorem isChain_tokens_append : (v : Value) → (rest : List Token) → rest.IsChain Apart →
    (∀ t ∈ rest.head?, t.isNumber = false) → (v.tokens ++ rest).IsChain Apart
  | .null, _, h, _ => isChain_cons_of_not_number rfl h
  | .bool _, _, h, _ => isChain_cons_of_not_number rfl h
  | .number _, _, h, hhead => List.isChain_cons.2 ⟨fun t ht _ => hhead t ht, h⟩
  | .text _, _, h, _ => isChain_cons_of_not_number rfl h
  | .array [], _, h, _ => isChain_cons_of_not_number rfl (isChain_cons_of_not_number rfl h)
  | .array (v :: vs), rest, h, _ => by
    rw [tokens, List.cons_append, List.append_assoc]
    exact isChain_cons_of_not_number rfl
      (isChain_tokens_append v _ (isChain_itemsBehind_append vs rest h)
        (head?_itemsBehind_append vs rest))
  | .object [], _, h, _ => isChain_cons_of_not_number rfl (isChain_cons_of_not_number rfl h)
  | .object ((key, v) :: ms), rest, h, _ => by
    rw [tokens, List.cons_append, List.cons_append, List.cons_append, List.append_assoc]
    exact isChain_cons_of_not_number rfl (isChain_cons_of_not_number rfl
      (isChain_cons_of_not_number rfl (isChain_tokens_append v _
        (isChain_membersBehind_append ms rest h) (head?_membersBehind_append ms rest))))
  | .broken, _, h, _ => isChain_cons_of_not_number rfl h

theorem isChain_itemsBehind_append : (vs : List Value) → (rest : List Token) →
    rest.IsChain Apart → (itemsBehind vs ++ rest).IsChain Apart
  | [], _, h => isChain_cons_of_not_number rfl h
  | v :: vs, rest, h => by
    rw [itemsBehind, List.cons_append, List.append_assoc]
    exact isChain_cons_of_not_number rfl
      (isChain_tokens_append v _ (isChain_itemsBehind_append vs rest h)
        (head?_itemsBehind_append vs rest))

theorem isChain_membersBehind_append : (ms : List (Option (List Char) × Value)) →
    (rest : List Token) → rest.IsChain Apart → (membersBehind ms ++ rest).IsChain Apart
  | [], _, h => isChain_cons_of_not_number rfl h
  | (_, v) :: ms, rest, h => by
    rw [membersBehind, List.cons_append, List.cons_append, List.cons_append, List.append_assoc]
    exact isChain_cons_of_not_number rfl (isChain_cons_of_not_number rfl
      (isChain_cons_of_not_number rfl (isChain_tokens_append v _
        (isChain_membersBehind_append ms rest h) (head?_membersBehind_append ms rest))))

end

end Value

/-! ## Building a value from its tokens -/

/-- What is built behind a value that is complete. -/
def buildBehind (v : Value) (open_ : List Container) (ts : List Token) : Value × List Token :=
  match Progress.ofValue v open_ with
  | .more open' expected => build open' expected ts
  | .done v => (v, ts)
  | .fault => (v, ts)

@[simp] theorem buildBehind_nil (v : Value) (ts : List Token) : buildBehind v [] ts = (v, ts) := rfl

@[simp] theorem buildBehind_array (v : Value) (items : List Value) (around : List Container)
    (ts : List Token) : buildBehind v (.array items :: around) ts =
      build (.array (v :: items) :: around) .separator ts := rfl

@[simp] theorem buildBehind_object (v : Value) (members : List (Option (List Char) × Value))
    (key : Option (List Char)) (around : List Container) (ts : List Token) :
    buildBehind v (.object members key :: around) ts =
      build (.object ((key, v) :: members) none :: around) .separator ts := rfl

/-- A value may begin where a value is expected, also as the first item of an array. -/
def Expected.IsValue (expected : Expected) : Prop := expected = .value ∨ expected = .firstItem

section

variable {open_ open' around : List Container} {expected expected' : Expected} {t : Token}
  {ts : List Token} {v : Value}

theorem build_of_ofValue (h : Progress.step open_ expected t = .ofValue v open') :
    build open_ expected (t :: ts) = buildBehind v open' ts := by
  rw [build, h]
  cases open' with
  | nil => rfl
  | cons c around => cases c <;> rfl

theorem build_of_more (h : Progress.step open_ expected t = .more open' expected') :
    build open_ expected (t :: ts) = build open' expected' ts := by rw [build, h]

/-- The first token of a value leads to the same in both places where a value may begin. -/
theorem step_of_isValue (h : expected.IsValue) (ht : t ≠ .closeArray) :
    Progress.step open_ expected t = .ofFirst open_ t := by
  rcases h with rfl | rfl
  · rfl
  · cases t <;> first | rfl | exact absurd rfl ht

theorem build_openArray (h : expected.IsValue) : build open_ expected (.openArray :: ts) =
    build (.array [] :: open_) .firstItem ts :=
  build_of_more (step_of_isValue h (by decide))

theorem build_openObject (h : expected.IsValue) : build open_ expected (.openObject :: ts) =
    build (.object [] none :: open_) .firstKey ts :=
  build_of_more (step_of_isValue h (by decide))

end

mutual

/-- The tokens of a value build this value in its place. -/
theorem build_tokens (rest : List Token) : (v : Value) → (open_ : List Container) →
    (expected : Expected) → expected.IsValue → v.isWhole = true →
    build open_ expected (v.tokens ++ rest) = buildBehind v open_ rest
  | .null, _, _, he, _ => build_of_ofValue (step_of_isValue he (by decide))
  | .bool _, _, _, he, _ => build_of_ofValue (step_of_isValue he nofun)
  | .number _, _, _, he, _ => build_of_ofValue (step_of_isValue he nofun)
  | .text _, _, _, he, _ => build_of_ofValue (step_of_isValue he nofun)
  | .array [], open_, expected, he, _ => by
    rw [Value.tokens, List.cons_append, build_openArray he]
    exact build_of_ofValue rfl
  | .array (v :: vs), open_, expected, he, h => by
    rw [Value.isWhole, Value.areWhole, Bool.and_eq_true] at h
    rw [Value.tokens, List.cons_append, List.append_assoc, build_openArray he,
      build_tokens _ v _ _ (.inr rfl) h.1, buildBehind_array, build_itemsBehind rest vs _ _ h.2]
    rfl
  | .object [], open_, expected, he, _ => by
    rw [Value.tokens, List.cons_append, build_openObject he]
    exact build_of_ofValue rfl
  | .object ((key, v) :: ms), open_, expected, he, h => by
    rw [Value.isWhole, Value.membersAreWhole, Bool.and_eq_true] at h
    rw [Value.tokens, List.cons_append, List.cons_append, List.cons_append, List.append_assoc,
      build_openObject he, build_of_more rfl, build_of_more rfl,
      build_tokens _ v _ _ (.inl rfl) h.1, buildBehind_object, build_membersBehind rest ms _ _ h.2]
    rfl
  | .broken, _, _, _, h => by cases h

/-- The items that follow in an array come behind those that are read. -/
theorem build_itemsBehind (rest : List Token) : (vs items : List Value) →
    (around : List Container) → Value.areWhole vs = true →
    build (.array items :: around) .separator (Value.itemsBehind vs ++ rest) =
      buildBehind (.array (items.reverse ++ vs)) around rest
  | [], items, around, _ => by
    rw [List.append_nil]
    exact build_of_ofValue rfl
  | v :: vs, items, around, h => by
    rw [Value.areWhole, Bool.and_eq_true] at h
    rw [Value.itemsBehind, List.cons_append, List.append_assoc, build_of_more rfl,
      build_tokens _ v _ _ (.inl rfl) h.1, buildBehind_array, build_itemsBehind rest vs _ _ h.2,
      List.reverse_cons, List.append_assoc, List.singleton_append]

/-- The members that follow in an object come behind those that are read. -/
theorem build_membersBehind (rest : List Token) : (ms members : List (Option (List Char) × Value)) →
    (around : List Container) → Value.membersAreWhole ms = true →
    build (.object members none :: around) .separator (Value.membersBehind ms ++ rest) =
      buildBehind (.object (members.reverse ++ ms)) around rest
  | [], members, around, _ => by
    rw [List.append_nil]
    exact build_of_ofValue rfl
  | (key, v) :: ms, members, around, h => by
    rw [Value.membersAreWhole, Bool.and_eq_true] at h
    rw [Value.membersBehind, List.cons_append, List.cons_append, List.cons_append,
      List.append_assoc, build_of_more rfl, build_of_more rfl, build_of_more rfl,
      build_tokens _ v _ _ (.inl rfl) h.1, buildBehind_object, build_membersBehind rest ms _ _ h.2,
      List.reverse_cons, List.append_assoc, List.singleton_append]

end

/-- A value is read back from every text it is written as. -/
theorem parse_of_written {v : Value} {s : List Char} (h : v.Written s) : parse s = (v, true) := by
  have hchain : v.tokens.IsChain Apart := by
    have hchain := Value.isChain_tokens_append v [] .nil nofun
    rwa [List.append_nil] at hchain
  have hbuild : build [] .value v.tokens = (v, []) := by
    have hbuild := build_tokens [] v [] .value (.inl rfl) h.isWhole
    rwa [List.append_nil, buildBehind_nil] at hbuild
  rw [parse, tokens_of_laid h hchain, hbuild]
  rfl

end VerseSearch.Json
