import VerseSearch.Corpus.Decode
import VerseSearch.Regex.Reader

/-!
# What can go wrong with a request

Each fault is a cause; `Fault.message` is the only place that words it. Where one fault ends a row of
answers, `mapM_eq_ok_iff` and `exists_of_mapM_eq_error` say which.
-/

set_option autoImplicit false

namespace VerseSearch

/-- Why a corpus file cannot be loaded. -/
inductive LoadFault where
  /-- There is no such file. -/
  | missing (path : String)
  /-- The bytes of the file are no text. -/
  | notText (path : String)
  /-- The text of the file is no corpus. -/
  | content (layer : Layer) (fault : CorpusFault)
deriving DecidableEq, Repr

namespace LoadFault

/-- The fault in words. -/
def message : LoadFault → String
  | .missing path =>
    "Failed to read corpus at " ++ String.ofList (Text.quote path.toList) ++
      ": No such file or directory (os error 2)"
  | .notText path =>
    "Failed to read corpus at " ++ String.ofList (Text.quote path.toList) ++
      ": stream did not contain valid UTF-8"
  | .content layer fault => fault.message layer

end LoadFault

/-- Why a request has no answer. -/
inductive Fault where
  /-- The keyword and the wildcard together are no regular expression. -/
  | pattern (fault : ReadFault)
  /-- A verse cannot be searched within the limit of tries. -/
  | givenUp
  /-- The corpus of the layer is not installed. -/
  | notReady (layer : Layer)
  /-- The corpus file cannot be loaded. -/
  | load (fault : LoadFault)
  /-- The layer has a corpus already. -/
  | alreadyLoaded (layer : Layer)
deriving DecidableEq, Repr

namespace Fault

/-- The fault in words. What an engine for regular expressions adds to them is left out. -/
def message : Fault → String
  | .pattern _ => "Pattern error"
  | .givenUp => "Pattern error"
  | .notReady layer => "Corpus not ready: " ++ layer.name ++ " corpus has not been loaded yet"
  | .load fault => "Corpus error: " ++ fault.message
  | .alreadyLoaded layer => layer.name ++ " corpus is already loaded"

end Fault

/-! ## Answers in a row -/

variable {α β : Type} {f : α → Except Fault β}

/-- All answers are there if each of them is. -/
theorem mapM_eq_ok_iff {l : List α} {bs : List β} :
    l.mapM f = .ok bs ↔ l.map f = bs.map .ok := by
  induction l generalizing bs with
  | nil => cases bs <;> simp [pure, Except.pure]
  | cons a l ih =>
    rw [List.mapM_cons]
    cases ha : f a with
    | error fault => cases bs <;> simp [ha, bind, Except.bind]
    | ok b =>
      cases hl : l.mapM f with
      | error fault =>
        have hne : ∀ bs : List β, l.map f ≠ bs.map .ok := fun bs h => by
          rw [ih.2 h] at hl
          cases hl
        cases bs <;> simp [ha, bind, Except.bind, hne]
      | ok cs =>
        rw [ih] at hl
        cases bs with
        | nil => simp [bind, Except.bind, pure, Except.pure]
        | cons d bs =>
          have hinj : cs.map (Except.ok : β → Except Fault β) = bs.map .ok ↔ cs = bs :=
            List.map_inj_right fun _ _ h => Except.ok.inj h
          simp [ha, hl, hinj, bind, Except.bind, pure, Except.pure]

/-- The fault that ends a row of answers is one of them. -/
theorem exists_of_mapM_eq_error {l : List α} {fault : Fault} (h : l.mapM f = .error fault) :
    ∃ a ∈ l, f a = .error fault := by
  induction l with
  | nil => cases h
  | cons a l ih =>
    rw [List.mapM_cons] at h
    cases ha : f a with
    | error fault' =>
      rw [ha] at h
      cases h
      exact ⟨a, List.mem_cons_self, ha⟩
    | ok b =>
      rw [ha] at h
      cases hl : l.mapM f with
      | error fault' =>
        rw [hl] at h
        cases h
        obtain ⟨a', ha', hfault⟩ := ih hl
        exact ⟨a', List.mem_cons_of_mem a ha', hfault⟩
      | ok cs =>
        rw [hl] at h
        cases h

end VerseSearch
