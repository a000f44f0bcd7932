import VerseSearch.Fault
import VerseSearch.Text.Path

/-!
# The library of corpora

A library has a place for the corpus of each layer. A place is filled once, by hand (`insert`) or
from a file (`load`), and keeps its corpus from then on: `get?_of_get?_insert` and
`get?_of_get?_load` state that nothing is replaced.
-/

set_option autoImplicit false

namespace VerseSearch

/-- The files that can be read, by path. -/
abbrev Files := String → Option ByteArray

/-- The installed corpora, and the directory of the files of those that are not. -/
structure Library where
  directory : String
  letters : Option Corpus := none
  marks : Option Corpus := none
deriving DecidableEq, Repr

namespace Library

/-- The corpus of a layer, if it is installed. -/
def get? (l : Library) : Layer → Option Corpus
  | .letters => l.letters
  | .marks => l.marks

/-- The library with the corpus in a layer's place. -/
def set (l : Library) (layer : Layer) (c : Corpus) : Library :=
  match layer with
  | .letters => { l with letters := some c }
  | .marks => { l with marks := some c }

/-- The corpus of a layer; a fault if it is not installed. -/
def require (l : Library) (layer : Layer) : Except Fault Corpus :=
  match l.get? layer with
  | some c => .ok c
  | none => .error (.notReady layer)

/-- Installs a corpus in the place of its layer; a fault if the place is taken. -/
def insert (l : Library) (c : Corpus) : Except Fault Library :=
  match l.get? c.layer with
  | some _ => .error (.alreadyLoaded c.layer)
  | none => .ok (l.set c.layer c)

/-- The path of the file for a layer. -/
def path (l : Library) (layer : Layer) : String := Path.join l.directory layer.fileName

/-- The corpus that the file for a layer holds now. -/
def read (l : Library) (files : Files) (layer : Layer) : Except LoadFault Corpus :=
  match files (l.path layer) with
  | none => .error (.missing (l.path layer))
  | some bytes =>
    match String.fromUTF8? bytes with
    | none => .error (.notText (l.path layer))
    | some text =>
      match Corpus.ofJson layer text with
      | .error fault => .error (.content layer fault)
      | .ok c => .ok c

/-- The corpus of a layer, which is read from its file if it is not installed. A file that cannot
be read changes nothing, and may be tried again. -/
def load (l : Library) (files : Files) (layer : Layer) : Except Fault Corpus × Library :=
  match l.get? layer with
  | some c => (.ok c, l)
  | none =>
    match l.read files layer with
    | .error fault => (.error (.load fault), l)
    | .ok c => (.ok c, l.set layer c)

/-- Loads the corpora of several layers, one after another, and counts the loads that succeed. A
load that fails does not keep the others from being tried. -/
def loadEach (l : Library) (files : Files) : List Layer → Nat × Library
  | [] => (0, l)
  | layer :: layers =>
    let loaded := l.load files layer
    let rest := loaded.2.loadEach files layers
    ((if loaded.1.isOk then 1 else 0) + rest.1, rest.2)

/-- The number of verses of each layer whose corpus is installed. -/
def status (l : Library) : List (Layer × Option Nat) :=
  Layer.all.map fun layer => (layer, (l.get? layer).map Corpus.size)

/-- The number of installed corpora. -/
def ready (l : Library) : Nat := Layer.all.countP fun layer => (l.get? layer).isSome

/-! ## Laws -/

theorem get?_set (l : Library) (layer : Layer) (c : Corpus) (other : Layer) :
    (l.set layer c).get? other = if other = layer then some c else l.get? other := by
  cases layer <;> cases other <;> simp [set, get?]

/-- An installed corpus stays when another one is inserted. -/
theorem get?_of_get?_insert {l l' : Library} {c : Corpus} (h : l.insert c = .ok l')
    {layer : Layer} {held : Corpus} (hl : l.get? layer = some held) :
    l'.get? layer = some held := by
  unfold insert at h
  split at h
  · simp at h
  · rename_i hn
    cases h
    rw [get?_set]
    split
    · rename_i heq
      rw [heq, hn] at hl
      simp at hl
    · exact hl

/-- An installed corpus stays when a layer is loaded. -/
theorem get?_of_get?_load {l : Library} {layer : Layer} {held : Corpus}
    (hl : l.get? layer = some held) (files : Files) (other : Layer) :
    (l.load files other).2.get? layer = some held := by
  unfold load
  split
  · exact hl
  · rename_i hn
    split
    · exact hl
    · rw [get?_set]
      split
      · rename_i heq
        rw [heq, hn] at hl
        simp at hl
      · exact hl

end Library

end VerseSearch
