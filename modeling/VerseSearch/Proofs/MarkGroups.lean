import VerseSearch.Proofs.MarkVerses

/-!
# The groups of a mark query

The text of a mark query has one unit for each character, so its numbered groups can be told from
the query: with a group around the whole, the groups are the whole, the marked beginning, one for
each `+` from left to right, and the rest of the word (`numbers_items`). What a group holds behind a
match is what its part of the query has covered: each `+` has a group with the number of the `+`
before it (`Divides`). So the rest of the word is always in the group behind those of all `+`.
-/

set_option autoImplicit false

namespace VerseSearch

namespace Regex

/-! ## Numbered groups in a sequence -/

theorem numbers_concat_cons (r : Regex) (rs : List Regex) :
    (concat (r :: rs)).numbers = r.numbers ++ (concat rs).numbers := by
  cases rs with
  | nil => exact (List.append_nil _).symm
  | cons t rs => rfl

theorem numbers_concat_append (rs ts : List Regex) :
    (concat (rs ++ ts)).numbers = (concat rs).numbers ++ (concat ts).numbers := by
  induction rs with
  | nil => rfl
  | cons r rs ih =>
    rw [List.cons_append, numbers_concat_cons, numbers_concat_cons, ih, List.append_assoc]

/-- What is left behind a match. -/
theorem rest_mem_rests {r : Regex} {p e : Place} (h : e ∈ r.ways p) : e.rest ∈ r.rests p.rest := by
  rw [← map_rest_ways]
  exact List.mem_map_of_mem h

/-- A letter takes the character before what it leaves. -/
theorem rest_of_mem_ways_letter {c : Char} {p e : Place} (h : e ∈ (letter c).ways p) :
    p.rest = c :: e.rest := by
  obtain ⟨d, hd, hmem⟩ := Place.advance?_eq_some.1 (Option.mem_toList.1 h)
  rw [CharSet.contains_only, decide_eq_true_eq] at hmem
  rw [(Place.next?_eq_some.1 hd).1, hmem]

/-- A group in a sequence holds what its own body has covered, if the number is not used again
behind it. -/
theorem exists_of_mem_ways_group {rs ts : List Regex} {r : Regex} {k : Nat} {p e : Place}
    (hk : k ∉ (concat ts).numbers) (h : e ∈ (concat (rs ++ .group k r :: ts)).ways p) :
    ∃ a b, a ∈ (concat rs).ways p ∧ b ∈ r.ways a ∧ e ∈ (concat ts).ways (a.captured k b) ∧
      e.groups.text k ++ b.rest = a.rest := by
  rw [ways_concat_append] at h
  obtain ⟨a, ha, h⟩ := List.mem_flatMap.1 h
  rw [ways_concat_cons] at h
  obtain ⟨b', hb', he⟩ := List.mem_flatMap.1 h
  obtain ⟨b, hb, rfl⟩ := List.mem_map.1 hb'
  refine ⟨a, b, ha, hb, he, ?_⟩
  rw [text_of_mem_ways hk he, Place.text_captured]
  exact Place.between_append_rest (rest_suffix_of_mem_ways hb)

end Regex

namespace Marks

/-! ## One unit for each character -/

/-- The characters of a query, each with the one before it. -/
def withBefore (q : List Char) : List (Option Char × Char) := (none :: q.map some).zip q

variable {q before after : List Char} {n : Nat} {attached : Bool}

theorem units_eq_flatMap (letter : List Char) (q : List Char) :
    units letter false q =
      (withBefore q).flatMap fun e => unit letter (e.1 == some '\u0651') e.2 := by
  have hbehind : ∀ b : Option Char, units letter (b == some '\u0651') q =
      ((b :: q.map some).zip q).flatMap fun e => unit letter (e.1 == some '\u0651') e.2 := by
    induction q with
    | nil => exact fun _ => rfl
    | cons c q ih =>
      intro b
      rw [units, List.map_cons, List.zip_cons_cons, List.flatMap_cons, ← ih (some c)]
      rfl
  exact hbehind none

theorem placeholder_not_mem_unit {c : Char} (hc : c ≠ placeholder) :
    placeholder ∉ unit consonant.toList attached c := by
  have hletter : placeholder ∉ consonant.toList := by decide
  have hoptional : placeholder ≠ '?' := by decide
  unfold unit
  split
  · decide
  split
  · decide
  split
  · simpa using Ne.symm hc
  · simp [hletter, hoptional, Ne.symm hc]

/-- No placeholder is left. -/
theorem placeholder_not_mem_source (hq : ∀ c ∈ q, c ≠ placeholder) : placeholder ∉ source q := by
  by_cases hne : q = []
  · rw [hne]
    exact List.not_mem_nil
  have hunits : placeholder ∉ units consonant.toList false q := by
    rw [units_eq_flatMap]
    intro h
    obtain ⟨e, he, hmem⟩ := List.mem_flatMap.1 h
    exact placeholder_not_mem_unit (hq e.2 (List.of_mem_zip he).2) hmem
  have hfront : placeholder ∉ " (".toList := by decide
  have hend : placeholder ∉ ")(.*?(?= ))".toList := by decide
  rw [source_eq_units hne hq, wrapWord, List.mem_append, List.mem_append]
  exact not_or.2 ⟨not_or.2 ⟨hfront, hunits⟩, hend⟩

/-! ## One group for each wildcard -/

theorem numbers_unitItems (n : Nat) (attached : Bool) (c : Char) :
    (Regex.concat (unitItems n attached c)).numbers = if c = '+' then [n + 1] else [] := by
  by_cases hbare : c = '-'
  · rw [hbare]
    rfl
  by_cases hany : c = '+'
  · rw [hany]
    rfl
  rw [unitItems, if_neg hbare, if_neg hany, if_neg hany]
  cases attached <;> rfl

/-- The groups of the marks are numbered one after the other, one for each `+`. -/
theorem numbers_items (n : Nat) (attached : Bool) (q : List Char) :
    (Regex.concat (items n attached q)).numbers = List.range' (n + 1) (q.count '+') := by
  induction q generalizing n attached with
  | nil => rfl
  | cons c q ih =>
    rw [items, Regex.numbers_concat_append, numbers_unitItems, ih]
    by_cases hany : c = '+'
    · rw [if_pos hany, if_pos hany, hany, List.count_cons_self, List.range'_succ]
      rfl
    · rw [if_neg hany, if_neg hany, List.count_cons_of_ne hany]
      rfl

/-- The items of a query up to a `+`, its group, and the items behind it. -/
theorem items_append (n : Nat) (attached : Bool) (before after : List Char) :
    items n attached (before ++ '+' :: after) =
      items n attached before ++
        anyItem (n + before.count '+' + 1) :: items (n + before.count '+' + 1) false after := by
  induction before generalizing n attached with
  | nil => rfl
  | cons c before ih =>
    have hnumber : (if c = '+' then n + 1 else n) + before.count '+' =
        n + (c :: before).count '+' := by
      by_cases hany : c = '+'
      · rw [if_pos hany, hany, List.count_cons_self]
        omega
      · rw [if_neg hany, List.count_cons_of_ne hany]
    rw [List.cons_append, items, ih, hnumber, items, List.append_assoc]

/-! ## What the groups hold -/

/-- The groups of a match hold the parts of the query's word. The first group is the whole, the
second the marked beginning of the word and the last the rest of it, which the scan of the query
leaves. The group of a `+` holds what the scan goes over at this `+`. -/
structure Divides (q span : List Char) (groups : Groups) : Prop where
  whole : groups.text 1 = span
  parts : span = ' ' :: (groups.text 2 ++ groups.text (3 + optionalCount q))
  marked : scan false q (groups.text 2 ++ groups.text (3 + optionalCount q)) =
    some (groups.text (3 + optionalCount q))
  wildcard : ∀ before after, q = before ++ '+' :: after → ∃ rest,
    scan false before (groups.text 2 ++ groups.text (3 + optionalCount q)) =
      some (groups.text (3 + before.count '+') ++ rest) ∧
    scanUnit false '+' (groups.text (3 + before.count '+') ++ rest) = some rest

theorem mem_behind {more s : List Char} {left : Option (List Char)} :
    s ∈ behind more left ↔ ∃ rest, left = some rest ∧ s = rest ++ ' ' :: more := by
  cases left <;> simp

/-- The group of a `+` holds what the scan goes over there. -/
theorem exists_of_mem_ways_items (hq : ∀ c ∈ before ++ '+' :: after, Layer.keepsInMarks c = true)
    {p e : Place} {w more : List Char} (hp : p.rest = w ++ ' ' :: more)
    (h : e ∈ (Regex.concat (items n attached (before ++ '+' :: after))).ways p) :
    ∃ rest,
      scan attached before w = some (e.groups.text (n + before.count '+' + 1) ++ rest) ∧
      scanUnit false '+' (e.groups.text (n + before.count '+' + 1) ++ rest) = some rest := by
  obtain ⟨hbefore, hafter⟩ := List.forall_mem_append.1 hq
  have hany := (List.forall_mem_cons.1 hafter).1
  rw [items_append] at h
  have hlater : n + before.count '+' + 1 ∉
      (Regex.concat (items (n + before.count '+' + 1) false after)).numbers := by
    rw [numbers_items, List.mem_range'_1]
    omega
  obtain ⟨a, b, ha, hb, -, htext⟩ := Regex.exists_of_mem_ways_group hlater h
  -- where the scan of the query comes to this wildcard
  have harest := Regex.rest_mem_rests ha
  rw [hp, rests_items hbefore, mem_behind] at harest
  obtain ⟨s, hs, has⟩ := harest
  -- where it goes on
  have hbrest := Regex.rest_mem_rests hb
  have hunit : (Regex.concat (unitItems (n + before.count '+') false '+')).rests
      (s ++ ' ' :: more) = behind more (scanUnit false '+' s) := rests_unitItems hany s
  have hgroup : (Regex.concat (unitItems (n + before.count '+') false '+')).rests =
      (anyItem (n + before.count '+' + 1)).rests := rfl
  rw [hgroup, anyItem, Regex.rests_group] at hunit
  rw [has, hunit, mem_behind] at hbrest
  obtain ⟨rest, hrest, hbs⟩ := hbrest
  rw [has, hbs, ← List.append_assoc] at htext
  have hcut : s = e.groups.text (n + before.count '+' + 1) ++ rest :=
    (List.append_cancel_right htext).symm
  exact ⟨rest, hcut ▸ hs, hcut ▸ hrest⟩

/-- The rest of a word ends before a space. -/
theorem exists_of_mem_ways_tail {p e : Place} (h : e ∈ tail.ways p) :
    ∃ more, e.rest = ' ' :: more := by
  have htail : tail.ways p = ((Regex.star false (.one .notNewline)).ways p).flatMap
      (Regex.look true (.letter ' ')).ways := rfl
  rw [htail] at h
  obtain ⟨m, -, he⟩ := List.mem_flatMap.1 h
  have hrest := Regex.rest_mem_rests he
  cases hm : m.rest with
  | nil =>
    rw [hm, Regex.rests_look] at hrest
    exact absurd hrest List.not_mem_nil
  | cons c s =>
    rw [hm, rests_look_space] at hrest
    split at hrest
    · rename_i hc
      exact ⟨s, by rw [List.mem_singleton.1 hrest, hc]⟩
    · exact absurd hrest List.not_mem_nil

/-- A match of the expression in a group of its own is a space, what the items of the query match
and the rest of a word. The second and the last group hold the two parts of the word, and the groups
between them are those of the items. -/
theorem exists_of_mem_ways_marking {p e : Place}
    (h : e ∈ (Regex.group 1 (.concat (wordItems 1 q))).ways p) :
    ∃ (a b : Place) (more : List Char), b ∈ (Regex.concat (items 2 false q)).ways a ∧
      p.rest = ' ' :: a.rest ∧ a.rest = e.groups.text 2 ++ b.rest ∧
      b.rest = e.groups.text (3 + optionalCount q) ++ e.rest ∧ e.rest = ' ' :: more ∧
      ∀ k, 2 < k → k < 3 + optionalCount q → e.groups.text k = b.groups.text k := by
  obtain ⟨m, hm, rfl⟩ := List.mem_map.1 h
  have hlater : 2 ∉ (Regex.concat [.group (3 + optionalCount q) tail]).numbers := by
    have hnumbers : (Regex.concat [.group (3 + optionalCount q) tail]).numbers =
        [3 + optionalCount q] := rfl
    rw [hnumbers, List.mem_singleton]
    omega
  have hparts : m ∈ (Regex.concat ([.letter ' '] ++ .group 2 (.concat (items 2 false q)) ::
      [.group (3 + optionalCount q) tail])).ways p := hm
  obtain ⟨a, b, ha, hb, hend, hfirst⟩ := Regex.exists_of_mem_ways_group hlater hparts
  obtain ⟨z, hz, rfl⟩ := List.mem_map.1 hend
  obtain ⟨more, hmore⟩ := exists_of_mem_ways_tail hz
  refine ⟨a, b, more, hb, Regex.rest_of_mem_ways_letter ha, ?_, ?_, hmore, fun k hlow hhigh => ?_⟩
  · rw [Place.text_captured_of_ne _ (by decide)]
    exact hfirst.symm
  · rw [Place.text_captured_of_ne _ (by omega), Place.text_captured]
    exact (Place.between_append_rest (Regex.rest_suffix_of_mem_ways hz)).symm
  · have hkept := Regex.text_of_mem_ways (r := tail) (k := k) List.not_mem_nil hz
    rw [Place.text_captured_of_ne _ (by omega), Place.text_captured_of_ne _ (by omega), hkept,
      Place.text_captured_of_ne _ (by omega)]

/-- The groups of a match hold the parts of the query's word. -/
theorem divides_of_mem_ways (hq : ∀ c ∈ q, Layer.keepsInMarks c = true) {p e : Place}
    (h : e ∈ (Regex.group 1 (.concat (wordItems 1 q))).ways p) {span : List Char}
    (hspan : p.rest = span ++ e.rest) : Divides q span e.groups := by
  obtain ⟨a, b, more, hb, hspace, hfirst, hlast, hmore, hbetween⟩ := exists_of_mem_ways_marking h
  rw [hmore] at hlast hspan
  rw [hlast, ← List.append_assoc] at hfirst
  refine ⟨?_, ?_, ?_, fun before after hparts => ?_⟩
  · obtain ⟨m, -, rfl⟩ := List.mem_map.1 h
    rw [Place.text_captured]
    exact Place.between_of_rest (hspan.trans (congrArg (span ++ ·) hmore.symm))
  · rw [hspace, hfirst, ← List.cons_append] at hspan
    exact (List.append_cancel_right hspan).symm
  · have hleft := Regex.rest_mem_rests hb
    rw [hfirst, rests_items hq, mem_behind, hlast] at hleft
    obtain ⟨rest, hscan, hrest⟩ := hleft
    rw [hscan, List.append_cancel_right hrest]
  · have hnumber : 2 + before.count '+' + 1 = 3 + before.count '+' := by omega
    have hcount : before.count '+' < optionalCount q := by
      rw [optionalCount, hparts, List.count_append, List.count_cons_self]
      omega
    subst hparts
    have hgroup := exists_of_mem_ways_items hq hfirst hb
    rw [hnumber, ← hbetween _ (by omega) (by omega)] at hgroup
    exact hgroup

/-! ## One pass -/

/-- The text of a mark query is made in one pass, and its groups are known from the query. The text
is a space, a group with one unit for each character of the query, and a group for the rest of the
word. The unit of a character depends on the one before it alone, and no placeholder is left. In a
group of its own, the text is read as an expression whose first group is the whole and whose second
holds the marks; then comes one group for each `+`, from left to right, and the group behind these
is the rest of the word. Each match in any text divides into groups accordingly. -/
theorem source_in_one_pass (q : List Char) (hne : q ≠ [])
    (hq : ∀ c ∈ q, Layer.keepsInMarks c = true) :
    let body : Regex := .concat (items 2 false q)
    let marking : Regex :=
      .group 1 (.concat [.letter ' ', .group 2 body, .group (3 + optionalCount q) tail])
    source q = " (".toList ++
      (withBefore q).flatMap (fun e => unit consonant.toList (e.1 == some '\u0651') e.2) ++
      ")(.*?(?= ))".toList ∧
    placeholder ∉ source q ∧
    Regex.read ('(' :: source q ++ [')']) = .ok marking ∧
    body.numbers = List.range' 3 (optionalCount q) ∧
    ∀ s span groups, .hit span groups ∈ marking.pieces s → Divides q span groups := by
  intro body marking
  refine ⟨?_, placeholder_not_mem_source (ne_placeholder hq), ?_, numbers_items 2 false q,
    fun s span groups hit => ?_⟩
  · rw [source_eq_units hne (ne_placeholder hq), units_eq_flatMap, wrapWord]
  · obtain ⟨hreads, hstarts⟩ := reads_source hne hq 1
    have hgroup := hreads.choices.capture (List.cons_ne_nil _ _) hstarts
    exact read_of_reads hgroup.reads (by decide)
  · obtain ⟨pre, post, hpieces⟩ := List.append_of_mem hit
    obtain ⟨e, he, hrest, rfl⟩ := Regex.matchAt?_of_pieces hpieces
    refine divides_of_mem_ways hq (List.mem_of_mem_head? he) ?_
    rw [hrest]
    rfl

/-- A shadda with a fatha, then a wildcard of each kind. The second of two words is found, and its
groups hold its parts. -/
theorem one_pass_of_two_wildcards :
    let q := "\u0651\u064E+-".toList
    let verse := "\u0642\u0644 \u0628\u0651\u064E\u0644\u064F\u0645\u0647".toList
    let marking : Regex :=
      .group 1 (.concat [.letter ' ', .group 2 (.concat (items 2 false q)), .group 4 tail])
    q ≠ [] ∧ q.all Layer.keepsInMarks = true ∧
    String.ofList (source q) =
      " ([\u0621-\u064A]?\u0651\u064E([\u0621-\u064A]?[\u064B-\u0652]|" ++
        "[\u0621-\u064A](?=[^\u064B-\u0652]))[\u0621-\u064A](?=[^\u064B-\u0652]))" ++
        "(.*?(?= ))" ∧
    Regex.read ('(' :: source q ++ [')']) = .ok marking ∧
    ∃ span groups, .hit span groups ∈ marking.pieces (' ' :: verse ++ [' ']) ∧
      Divides q span groups := by
  intro q verse marking
  have hne : q ≠ [] := by decide
  have hall : q.all Layer.keepsInMarks = true := by decide
  have hq := List.all_eq_true.1 hall
  obtain ⟨hsource, -, hread, -, hdivides⟩ := source_in_one_pass q hne hq
  have hfinds : FindsWords q 1 marking.matchAt? :=
    (findsWords_wordItems hne hq 1).group (Nat.le_refl 1)
  have hcount := (hfinds.cutWords_pieces verse).countP_isHit
  have hpos : 0 < (marking.pieces (' ' :: verse ++ [' '])).countP Piece.isHit :=
    Nat.lt_of_lt_of_eq (by decide) hcount.symm
  obtain ⟨x, hmem, hx⟩ := List.countP_pos_iff.1 hpos
  refine ⟨hne, hall, ?_, hread, ?_⟩
  · rw [hsource]
    decide
  · cases x with
    | plain c => cases hx
    | hit span groups => exact ⟨span, groups, hmem, hdivides _ span groups hmem⟩

end Marks

end VerseSearch
