import VerseSearch.Layer

/-!
# Verses and corpora

A corpus is the list of verses in their canonical order, written for one layer. Surahs are numbered
from 1 to 114 and verses from 1; a corpus that is read from a file keeps these bounds
(`Verse.IsNumbered`), one that is put together by hand need not.
-/

set_option autoImplicit false

namespace VerseSearch

/-- A verse and its place. -/
structure Verse where
  text : String
  /-- Its number within the surah. -/
  number : UInt32
  surahNumber : UInt32
  surahName : String
deriving DecidableEq, Repr

namespace Verse

/-- The number of surahs. -/
def surahCount : UInt32 := 114

/-- The verse has the number of a surah, and a verse number of its own. -/
def IsNumbered (v : Verse) : Prop :=
  1 ≤ v.surahNumber ∧ v.surahNumber ≤ surahCount ∧ 1 ≤ v.number

instance (v : Verse) : Decidable v.IsNumbered := inferInstanceAs (Decidable (_ ∧ _ ∧ _))

end Verse

/-- The verses as one layer writes them. -/
structure Corpus where
  layer : Layer
  verses : List Verse
deriving DecidableEq, Repr

namespace Corpus

/-- The verse at a position. -/
def verse? (c : Corpus) (i : Nat) : Option Verse := c.verses[i]?

/-- The number of verses. -/
def size (c : Corpus) : Nat := c.verses.length

/-- The first verse with the two numbers. -/
def find? (c : Corpus) (surahNumber number : UInt32) : Option Verse :=
  c.verses.find? fun v => v.surahNumber == surahNumber && v.number == number

end Corpus

end VerseSearch
