/-!
# Splitting a text at a character

The parts of a text do not hold the character it is split at (`not_mem_of_mem_splitAt`), and put
together again they are the text (`joinWith_splitAt`).
-/

set_option autoImplicit false

namespace VerseSearch.Text

/-- The parts of a text between the places where the character stands. There is always one part
more than places. -/
def splitAt (sep : Char) : List Char → List (List Char)
  | [] => [[]]
  | c :: r =>
    if c = sep then [] :: splitAt sep r
    else
      match splitAt sep r with
      | part :: parts => (c :: part) :: parts
      | [] => [[c]]

/-- The parts put together again, with the character between them. -/
def joinWith (sep : Char) : List (List Char) → List Char
  | [] => []
  | [part] => part
  | part :: next :: parts => part ++ sep :: joinWith sep (next :: parts)

/-! ## Laws -/

variable {sep : Char}

theorem splitAt_ne_nil (sep : Char) (s : List Char) : splitAt sep s ≠ [] := by
  cases s with
  | nil => simp [splitAt]
  | cons c r =>
    rw [splitAt]
    split
    · simp
    · split <;> simp

/-- Splitting loses nothing but the places it splits at. -/
theorem joinWith_splitAt (sep : Char) (s : List Char) : joinWith sep (splitAt sep s) = s := by
  induction s with
  | nil => rfl
  | cons c r ih =>
    obtain ⟨part, parts, h⟩ := List.exists_cons_of_ne_nil (splitAt_ne_nil sep r)
    rw [splitAt]
    split
    · rename_i hc
      rw [h] at ih ⊢
      rw [joinWith, ih, hc, List.nil_append]
    · rw [h] at ih ⊢
      cases parts with
      | nil => simpa [joinWith] using ih
      | cons next parts => simpa [joinWith] using ih

theorem splitAt_append (s t : List Char) :
    splitAt sep (s ++ sep :: t) = splitAt sep s ++ splitAt sep t := by
  induction s with
  | nil => simp [splitAt]
  | cons c s ih =>
    rw [List.cons_append, splitAt, splitAt, ih]
    by_cases hc : c = sep
    · simp [hc]
    · obtain ⟨part, parts, h⟩ := List.exists_cons_of_ne_nil (splitAt_ne_nil sep s)
      simp [hc, h]

/-- The parts do not hold the character they are split at. -/
theorem not_mem_of_mem_splitAt {s w : List Char} (h : w ∈ splitAt sep s) : sep ∉ w := by
  induction s generalizing w with
  | nil => simp_all [splitAt]
  | cons c s ih =>
    obtain ⟨part, parts, hs⟩ := List.exists_cons_of_ne_nil (splitAt_ne_nil sep s)
    rw [hs] at ih
    rw [splitAt, hs] at h
    split at h
    · rcases List.mem_cons.1 h with rfl | h
      · exact List.not_mem_nil
      · exact ih h
    · rename_i hc
      rcases List.mem_cons.1 h with rfl | h
      · exact fun hmem => (List.mem_cons.1 hmem).elim (fun he => hc he.symm)
          (ih List.mem_cons_self)
      · exact ih (List.mem_cons_of_mem part h)

/-- Parts with the character in front of each. -/
theorem cons_joinWith {parts : List (List Char)} (h : parts ≠ []) :
    sep :: joinWith sep parts = parts.flatMap (sep :: ·) := by
  induction parts with
  | nil => exact absurd rfl h
  | cons part parts ih =>
    cases parts with
    | nil => simp [joinWith]
    | cons next parts => rw [joinWith, ih (List.cons_ne_nil next parts)]; simp

end VerseSearch.Text
