import VerseSearch.Proofs.Finding
import VerseSearch.Proofs.Transparency

/-!
# Complete libraries

A library is complete when the corpus of every layer is installed. It stays so, loading a corpus
changes nothing any more, and a query has no results only if it has no pattern or is given up
(`Library.IsComplete.find_eq_error_iff`).
-/

set_option autoImplicit false

namespace VerseSearch

namespace Library

/-- The corpus of every layer is installed. -/
def IsComplete (l : Library) : Prop := ∀ layer : Layer, (l.get? layer).isSome = true

variable {l l' : Library}

theorem IsComplete.exists_get? (h : l.IsComplete) (layer : Layer) : ∃ c, l.get? layer = some c :=
  Option.isSome_iff_exists.1 (h layer)

theorem IsComplete.of_growsTo (h : l.IsComplete) (hl : l.GrowsTo l') : l'.IsComplete := by
  intro layer
  obtain ⟨c, hc⟩ := h.exists_get? layer
  exact Option.isSome_iff_exists.2 ⟨c, hl layer c hc⟩

/-- A library grows to another complete one with nothing else in it. -/
theorem IsComplete.get?_of_growsTo (h : l.IsComplete) (hl : l.GrowsTo l') (layer : Layer) :
    l'.get? layer = l.get? layer := by
  obtain ⟨c, hc⟩ := h.exists_get? layer
  rw [hc, hl layer c hc]

/-- What a query finds depends on the installed corpora only. -/
theorem find_congr (h : ∀ layer, l'.get? layer = l.get? layer) (wildcard : String) (q : Query) :
    l'.find wildcard q = l.find wildcard q := by
  have hrequire : ∀ layer, l'.require layer = l.require layer := by
    intro layer
    rw [require, require, h layer]
  cases q with
  | invalid => rfl
  | content layer keyword => rw [find, find, hrequire]
  | reference surah number => rw [find, find, hrequire]

/-- In a complete library a query has no results only for want of a pattern, or because it is given
up. -/
theorem IsComplete.find_eq_error_iff (h : l.IsComplete) {wildcard : String} {q : Query}
    {fault : Fault} : l.find wildcard q = .error fault ↔
      (∃ layer keyword noPattern, q = .content layer keyword ∧
        Pattern.compile wildcard layer keyword = .error noPattern ∧ fault = .pattern noPattern) ∨
      (fault = .givenUp ∧ l.GivesUp wildcard q) := by
  cases q with
  | invalid => simp [find, GivesUp]
  | content layer keyword =>
    obtain ⟨c, hc⟩ := h.exists_get? layer
    rw [find_content_eq_error_iff hc]
    simp
  | reference surah number =>
    obtain ⟨c, hc⟩ := h.exists_get? .letters
    simp [find, require_eq_ok_iff.2 hc, GivesUp]

end Library

end VerseSearch
