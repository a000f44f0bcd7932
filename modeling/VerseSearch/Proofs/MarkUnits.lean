import VerseSearch.Marks.Source

/-!
# The text of a mark query, character by character

The expression of a mark query is made by five replacements on the whole text. Together they do what
one pass does that looks at each character of the query and remembers whether the one before it was
a shadda (`source_eq_units`).
-/

set_option autoImplicit false

namespace VerseSearch.Marks

/-- A consonant, written in the given way, that carries no mark. -/
def bare (letter : List Char) : List Char := letter ++ ("(?=" ++ notMark ++ ")").toList

/-- What one character of a query becomes. The flag says whether a shadda comes before it. -/
def unit (letter : List Char) (attached : Bool) (c : Char) : List Char :=
  if c = '-' then bare letter
  else if c = '+' then '(' :: letter ++ '?' :: mark.toList ++ '|' :: bare letter ++ [')']
  else if attached then [c]
  else letter ++ ['?', c]

/-- What a query becomes, character by character. -/
def units (letter : List Char) : Bool → List Char → List Char
  | _, [] => []
  | attached, c :: q => unit letter attached c ++ units letter (c == '\u0651') q

/-! ## The five replacements -/

/-- A part of a text without the first character of the pattern is left alone. -/
theorem replaceAll_append_of_not_mem {a : Char} (t new : List Char) {s : List Char}
    (h : a ∉ s) (r : List Char) :
    Text.replaceAll (a :: t) new (s ++ r) = s ++ Text.replaceAll (a :: t) new r := by
  induction s with
  | nil => rfl
  | cons c s ih =>
    obtain ⟨hc, hs⟩ := not_or.1 fun hmem => h (List.mem_cons.2 hmem)
    have hprefix : (a :: t).isPrefixOf (c :: (s ++ r)) = false := by
      simp [List.isPrefixOf, hc]
    rw [List.cons_append, Text.replaceAll_cons new hprefix, ih hs, List.cons_append]

/-- A character and its placeholder are replaced if they are the ones that are looked for. -/
theorem replaceAll_placeholder {c : Char} (hc : c ≠ placeholder) (x : Char) (new r : List Char) :
    Text.replaceAll [placeholder, '?', x] new ([placeholder, '?', c] ++ r) =
      (if c = x then new else [placeholder, '?', c]) ++
        Text.replaceAll [placeholder, '?', x] new r := by
  by_cases hx : c = x
  · rw [if_pos hx, hx]
    exact Text.replaceAll_append new r (List.cons_ne_nil _ _)
  · have hprefix : [placeholder, '?', x].isPrefixOf (placeholder :: '?' :: c :: r) = false := by
      simp [List.isPrefixOf, Ne.symm hx]
    have hrest : placeholder ∉ ['?', c] := by
      rw [List.mem_cons, List.mem_singleton, not_or]
      exact ⟨by decide, Ne.symm hc⟩
    rw [if_neg hx]
    exact (Text.replaceAll_cons new hprefix).trans
      (congrArg (placeholder :: ·) (replaceAll_append_of_not_mem ['?', x] new hrest r))

/-- The query when each `-` is expanded. -/
def withBare (q : List Char) : List Char :=
  q.flatMap fun c => if c = '-' then bareUnit else [placeholder, '?', c]

theorem expandBare_prefixPlaceholders {q : List Char} (hq : ∀ c ∈ q, c ≠ placeholder) :
    expandBare (prefixPlaceholders q) = withBare q := by
  induction q with
  | nil => exact Text.replaceAll_nil _ _
  | cons c q ih =>
    obtain ⟨hc, hq⟩ := List.forall_mem_cons.1 hq
    rw [withBare, List.flatMap_cons, ← withBare, ← ih hq]
    exact replaceAll_placeholder hc '-' bareUnit (prefixPlaceholders q)

/-- The query when each `-` and each `+` is expanded. -/
def withAny (q : List Char) : List Char := q.flatMap (unit [placeholder] false)

theorem expandAny_withBare {q : List Char} (hq : ∀ c ∈ q, c ≠ placeholder) :
    expandAny (withBare q) = withAny q := by
  induction q with
  | nil => exact Text.replaceAll_nil _ _
  | cons c q ih =>
    obtain ⟨hc, hq⟩ := List.forall_mem_cons.1 hq
    rw [withBare, List.flatMap_cons, ← withBare, withAny, List.flatMap_cons, ← withAny, ← ih hq]
    by_cases hbare : c = '-'
    · -- a unit that is expanded already has a placeholder, but no question mark behind it
      have hprefix : [placeholder, '?', '+'].isPrefixOf (bareUnit ++ withBare q) = false := rfl
      have hrest : placeholder ∉ ("(?=" ++ notMark ++ ")").toList := by decide
      rw [if_pos hbare, hbare]
      exact (Text.replaceAll_cons anyUnit hprefix).trans
        (congrArg (placeholder :: ·) (replaceAll_append_of_not_mem ['?', '+'] anyUnit hrest _))
    · rw [if_neg hbare, unit, if_neg hbare]
      exact replaceAll_placeholder hc '+' anyUnit (withBare q)

/-- The unit of a wildcard has no shadda, and does not begin with an optional placeholder. -/
theorem attachShadda_wildcard {c : Char} (hwild : c = '-' ∨ c = '+') (r : List Char) :
    attachShadda (unit [placeholder] false c ++ r) = unit [placeholder] false c ++ attachShadda r ∧
      attachShadda ('\u0651' :: (unit [placeholder] false c ++ r)) =
        '\u0651' :: (unit [placeholder] false c ++ attachShadda r) := by
  have hshadda : '\u0651' ∉ unit [placeholder] false c := by
    rcases hwild with rfl | rfl <;> decide
  have hprefix : ['\u0651', placeholder, '?'].isPrefixOf
      ('\u0651' :: (unit [placeholder] false c ++ r)) = false := by
    rcases hwild with rfl | rfl <;> rfl
  have hfree : attachShadda (unit [placeholder] false c ++ r) =
      unit [placeholder] false c ++ attachShadda r := replaceAll_append_of_not_mem _ _ hshadda r
  refine ⟨hfree, ?_⟩
  rw [← hfree]
  exact Text.replaceAll_cons _ hprefix

/-- A mark keeps its optional placeholder unless it stands behind a shadda. -/
theorem attachShadda_mark (c : Char) (r : List Char) :
    attachShadda ([placeholder, '?', c] ++ r) = [placeholder, '?'] ++ attachShadda (c :: r) ∧
      attachShadda ('\u0651' :: ([placeholder, '?', c] ++ r)) =
        '\u0651' :: attachShadda (c :: r) := by
  have hfront : '\u0651' ∉ [placeholder, '?'] := by decide
  refine ⟨?_, ?_⟩
  · exact replaceAll_append_of_not_mem _ _ hfront (c :: r)
  · exact Text.replaceAll_append _ (c :: r) (List.cons_ne_nil _ _)

/-- A shadda takes the optional placeholder behind it. -/
theorem attachShadda_withAny (q : List Char) :
    attachShadda (withAny q) = units [placeholder] false q ∧
      attachShadda ('\u0651' :: withAny q) = '\u0651' :: units [placeholder] true q := by
  induction q with
  | nil => exact ⟨Text.replaceAll_nil _ _, rfl⟩
  | cons c q ih =>
    obtain ⟨ihfree, ihbound⟩ := ih
    rw [withAny, List.flatMap_cons, ← withAny, units, units]
    by_cases hwild : c = '-' ∨ c = '+'
    · obtain ⟨hfree, hbound⟩ := attachShadda_wildcard hwild (withAny q)
      have hunit : unit [placeholder] true c = unit [placeholder] false c := by
        rcases hwild with rfl | rfl <;> rfl
      have hshadda : (c == '\u0651') = false := by rcases hwild with rfl | rfl <;> rfl
      rw [hfree, hbound, ihfree, hunit, hshadda]
      exact ⟨rfl, rfl⟩
    · obtain ⟨hbare, hany⟩ := not_or.1 hwild
      obtain ⟨hfree, hbound⟩ := attachShadda_mark c (withAny q)
      have hunit : unit [placeholder] false c = [placeholder, '?', c] := by
        simp [unit, hbare, hany]
      have hattached : unit [placeholder] true c = [c] := by
        simp [unit, hbare, hany]
      have hnext : attachShadda (c :: withAny q) = c :: units [placeholder] (c == '\u0651') q := by
        by_cases hc : c = '\u0651'
        · rw [hc]
          exact ihbound
        · have hprefix : ['\u0651', placeholder, '?'].isPrefixOf (c :: withAny q) = false := by
            simp [List.isPrefixOf, Ne.symm hc]
          rw [beq_eq_false_iff_ne.2 hc, ← ihfree]
          exact Text.replaceAll_cons _ hprefix
      rw [hunit, hattached, hfree, hbound, hnext]
      exact ⟨rfl, rfl⟩

/-- Filling in the consonants. -/
theorem fillConsonants_units {q : List Char} (hq : ∀ c ∈ q, c ≠ placeholder) (attached : Bool) :
    fillConsonants (units [placeholder] attached q) = units consonant.toList attached q := by
  induction q generalizing attached with
  | nil => exact Text.replaceAll_nil _ _
  | cons c q ih =>
    obtain ⟨hc, hq⟩ := List.forall_mem_cons.1 hq
    have hunit : fillConsonants (unit [placeholder] attached c) =
        unit consonant.toList attached c := by
      by_cases hbare : c = '-'
      · rw [hbare]
        rfl
      by_cases hany : c = '+'
      · rw [hany]
        rfl
      have hoptional : ('?' : Char) ≠ placeholder := by decide
      rw [fillConsonants_eq]
      cases attached <;> simp [unit, hbare, hany, hc, hoptional]
    rw [units, units, ← ih hq, ← hunit, fillConsonants_eq, fillConsonants_eq, fillConsonants_eq,
      List.flatMap_append]

/-- The five replacements together are one pass over the query. -/
theorem source_eq_units {q : List Char} (hne : q ≠ []) (hq : ∀ c ∈ q, c ≠ placeholder) :
    source q = wrapWord (units consonant.toList false q) := by
  rw [source, if_neg hne, expandBare_prefixPlaceholders hq, expandAny_withBare hq,
    (attachShadda_withAny q).1, fillConsonants_units hq]

end VerseSearch.Marks
