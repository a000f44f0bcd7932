import VerseSearch.Corpus.Basic
import VerseSearch.Pattern

/-!
# Search results

Results are positions in a corpus, in its order. They hold the corpus, so a row of the results can
be looked up without the library.
-/

set_option autoImplicit false

namespace VerseSearch

/-- A verse that was found. -/
structure Hit where
  /-- Its position in the corpus. -/
  index : Nat
  /-- Occurrences of the pattern in it; 0 where nothing is counted. -/
  occurrences : Nat
deriving DecidableEq, Repr

/-- A found verse together with its occurrences. -/
structure Row where
  verse : Verse
  occurrences : Nat
deriving DecidableEq, Repr

/-- What a query found. -/
structure Results where
  /-- None for an invalid query. -/
  corpus : Option Corpus
  hits : List Hit
  /-- All occurrences together, where occurrences are counted. -/
  total : Option Nat
  /-- What is emphasized in the verses. -/
  pattern : Option Pattern
deriving DecidableEq, Repr

namespace Results

/-- The results of an invalid query. -/
def empty : Results := ⟨none, [], none, none⟩

/-- The number of verses found. -/
def size (r : Results) : Nat := r.hits.length

/-- The row of a hit. -/
def rowOf? (r : Results) (hit : Hit) : Option Row :=
  r.corpus.bind fun c => (c.verse? hit.index).map fun v => ⟨v, hit.occurrences⟩

/-- The row at a position of the results. -/
def row? (r : Results) (i : Nat) : Option Row := r.hits[i]?.bind r.rowOf?

/-- All rows. -/
def rows (r : Results) : List Row := r.hits.filterMap r.rowOf?

/-- The rows at the positions from `start` on and before `stop`, as far as there are any. -/
def slice (r : Results) (start stop : Nat) : List Row :=
  ((r.hits.take stop).drop start).filterMap r.rowOf?

/-! ## Laws -/

@[simp] theorem size_empty : empty.size = 0 := rfl

@[simp] theorem rows_empty : empty.rows = [] := rfl

/-- All rows are the rows of the widest slice. -/
theorem slice_zero_size (r : Results) : r.slice 0 r.size = r.rows := by
  simp [slice, rows, size]

end Results

end VerseSearch
