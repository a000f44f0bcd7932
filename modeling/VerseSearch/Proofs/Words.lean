import VerseSearch.Emphasis
import VerseSearch.Proofs.GroupTexts
import VerseSearch.Proofs.Occurrences
import VerseSearch.Proofs.Scanning
import VerseSearch.Text.Split

/-!
# Words

A pattern of the mark layer runs on a verse with a space at either end, and each match takes one
space and the word behind it. So the verse is cut word by word (`FindsWords.cutWords`): consecutive
matches never compete for a space, and the first and the last word are words like any other.
-/

set_option autoImplicit false

namespace VerseSearch

/-- A word with its marked beginning between the markers; a word that is not marked stays. -/
def Markers.markWord (m : Markers) (q w : List Char) : List Char :=
  match Marks.split? q w with
  | none => w
  | some (first, rest) => m.around first ++ rest

/-- The spaces that a text was given at its ends are taken back. -/
theorem Markers.unpad_padded (s : List Char) : Markers.unpad (' ' :: s ++ [' ']) = s := by
  simp [Markers.unpad, Markers.dropSpace]

/-- Words with a space in front of each and one behind them, without the first and the last space.
-/
theorem Markers.unpad_words {f : List Char → List Char} {words : List (List Char)}
    (hne : words ≠ []) :
    unpad (words.flatMap (fun w => ' ' :: f w) ++ [' ']) = Text.joinWith ' ' (words.map f) := by
  have hne' : words.map f ≠ [] := fun h => hne (List.map_eq_nil_iff.1 h)
  have hjoin : ' ' :: Text.joinWith ' ' (words.map f) = (words.map f).flatMap (' ' :: ·) :=
    Text.cons_joinWith hne'
  rw [List.flatMap_map] at hjoin
  rw [← hjoin, unpad_padded]

namespace Marks

/-! ## A text cut word by word -/

/-- The pieces of words with a space in front of each, and a last space. A word that the query
marks is one match, and the groups hold its two parts; the groups of the query are numbered from
`n` on. -/
inductive CutWords (q : List Char) (n : Nat) : List (List Char) → List Piece → Prop where
  | done : CutWords q n [] [.plain ' ']
  | unmarked {w : List Char} {ws : List (List Char)} {ps : List Piece} : split? q w = none →
      CutWords q n ws ps → CutWords q n (w :: ws) ((' ' :: w).map .plain ++ ps)
  | marked {w first rest : List Char} {ws : List (List Char)} {ps : List Piece} {groups : Groups} :
      split? q w = some (first, rest) → groups.text (n + 1) = first →
      groups.text (n + 2 + q.count '+') = rest →
      CutWords q n ws ps → CutWords q n (w :: ws) (.hit (' ' :: w) groups :: ps)

/-- Matches that are words which the query marks, with the space before the word. -/
structure FindsWords (q : List Char) (n : Nat) (find : Place → Option Place) : Prop where
  elsewhere : ∀ {p : Place}, p.rest.head? ≠ some ' ' → find p = none
  lastSpace : ∀ {p : Place}, p.rest = [' '] → find p = none
  unmarked : ∀ {p : Place} {w more : List Char}, p.rest = ' ' :: (w ++ ' ' :: more) → ' ' ∉ w →
    split? q w = none → find p = none
  marked : ∀ {p : Place} {w more first rest : List Char}, p.rest = ' ' :: (w ++ ' ' :: more) →
    ' ' ∉ w → split? q w = some (first, rest) → ∃ e, find p = some e ∧ e.rest = ' ' :: more ∧
      e.groups.text (n + 1) = first ∧ e.groups.text (n + 2 + q.count '+') = rest

variable {q : List Char} {n : Nat} {find : Place → Option Place}

/-- Where no match begins the characters are pieces of their own. -/
theorem FindsWords.piecesBy_run (h : FindsWords q n find) (afterHit : Bool) {w s : List Char}
    (hw : ' ' ∉ w) {p : Place} (hp : p.rest = w ++ s) :
    ∃ (afterHit' : Bool) (e : Place), e.rest = s ∧
      piecesBy find afterHit p = w.map .plain ++ piecesBy find afterHit' e := by
  induction w generalizing p afterHit with
  | nil => exact ⟨afterHit, p, hp, rfl⟩
  | cons c w ih =>
    obtain ⟨hc, hw⟩ := not_or.1 fun hmem => hw (List.mem_cons.2 hmem)
    have hnone : find p = none := h.elsewhere (by rw [hp]; simpa using Ne.symm hc)
    let m : Place := ⟨w ++ s, p.groups, (w ++ s).length, rfl⟩
    have hnext : p.next? = some (c, m) := Place.next?_eq_some.2 ⟨hp, rfl⟩
    obtain ⟨afterHit', e, he, hpieces⟩ := ih (p := m) false hw rfl
    refine ⟨afterHit', e, he, ?_⟩
    rw [piecesBy_of_none hnone, onward_of_next? hnext, hpieces]
    rfl

/-- The words of a padded text are cut one by one. -/
theorem FindsWords.cutWords (h : FindsWords q n find) (afterHit : Bool) {words : List (List Char)}
    (hwords : ∀ w ∈ words, ' ' ∉ w) {p : Place}
    (hp : p.rest = words.flatMap (' ' :: ·) ++ [' ']) :
    CutWords q n words (piecesBy find afterHit p) := by
  induction words generalizing p afterHit with
  | nil =>
    let e : Place := ⟨[], p.groups, 0, rfl⟩
    have hnext : p.next? = some (' ', e) := Place.next?_eq_some.2 ⟨hp, rfl⟩
    rw [piecesBy_of_none (h.lastSpace hp), onward_of_next? hnext,
      piecesBy_of_none (h.elsewhere (p := e) (by simp [e])), onward_of_end (Place.next?_eq_none.2 rfl)]
    exact .done
  | cons w words ih =>
    obtain ⟨hw, hwords⟩ := List.forall_mem_cons.1 hwords
    -- behind the word there is a space, that of the next word or the last one
    obtain ⟨more, hmore⟩ : ∃ more, words.flatMap (' ' :: ·) ++ [' '] = ' ' :: more := by
      cases words with
      | nil => exact ⟨[], rfl⟩
      | cons w' words => exact ⟨_, rfl⟩
    have hrest : p.rest = ' ' :: (w ++ ' ' :: more) := by
      rw [hp, List.flatMap_cons, List.append_assoc, hmore]
      rfl
    cases hsplit : split? q w with
    | none =>
      let m : Place := ⟨w ++ ' ' :: more, p.groups, (w ++ ' ' :: more).length, rfl⟩
      have hnext : p.next? = some (' ', m) := Place.next?_eq_some.2 ⟨hrest, rfl⟩
      obtain ⟨afterHit', e, he, hpieces⟩ := h.piecesBy_run false hw (p := m) rfl
      rw [piecesBy_of_none (h.unmarked hrest hw hsplit), onward_of_next? hnext, hpieces]
      exact .unmarked hsplit (ih afterHit' hwords (he.trans hmore.symm))
    | some parts =>
      obtain ⟨first, rest⟩ := parts
      obtain ⟨e, hfind, he, hfirst, hlast⟩ := h.marked hrest hw hsplit
      have hspan : p.rest = (' ' :: w) ++ e.rest := by rw [hrest, he, List.cons_append]
      have hlt : e.left < p.left := by
        rw [p.left_eq, e.left_eq, hspan, List.length_append, List.length_cons]
        omega
      rw [piecesBy_of_hit hfind hlt, Place.between_of_rest hspan]
      exact .marked hsplit hfirst hlast (ih true hwords (p := e.fresh) (he.trans hmore.symm))

/-! ## What a cut text shows -/

variable {words : List (List Char)} {ps : List Piece}

/-- There are as many matches as words that the query marks. -/
theorem CutWords.countP_isHit (h : CutWords q n words ps) :
    ps.countP Piece.isHit = words.countP fun w => (split? q w).isSome := by
  induction h with
  | done => rfl
  | @unmarked w ws ps hsplit _ ih =>
    have hplain : ((' ' :: w).map Piece.plain).countP Piece.isHit = 0 := by
      simp [List.countP_eq_zero, Piece.isHit]
    rw [List.countP_append, hplain, Nat.zero_add, ih, List.countP_cons_of_neg (by simp [hsplit])]
  | marked hsplit _ _ _ ih =>
    rw [List.countP_cons_of_pos rfl, ih, List.countP_cons_of_pos (by simp [hsplit])]

/-- A match is a word that the query marks, with the space before it. -/
theorem CutWords.exists_word (h : CutWords q n words ps) {span : List Char} {groups : Groups}
    (hit : .hit span groups ∈ ps) : ∃ w ∈ words, span = ' ' :: w ∧ (split? q w).isSome = true := by
  induction h with
  | done => simp at hit
  | unmarked _ _ ih =>
    rcases List.mem_append.1 hit with hit | hit
    · simp at hit
    · obtain ⟨w', hw', hspan⟩ := ih hit
      exact ⟨w', List.mem_cons_of_mem _ hw', hspan⟩
  | @marked w _ _ _ _ _ hsplit _ _ _ ih =>
    rcases List.mem_cons.1 hit with hit | hit
    · cases hit
      exact ⟨w, List.mem_cons_self, rfl, by rw [hsplit]; rfl⟩
    · obtain ⟨w', hw', hspan⟩ := ih hit
      exact ⟨w', List.mem_cons_of_mem _ hw', hspan⟩

/-- With the matches replaced, the marked words stand between markers. -/
theorem CutWords.flatMap_replacement (h : CutWords q 1 words ps) (m : Markers) :
    (ps.flatMap fun
      | .plain c => [c]
      | .hit _ groups => m.replacement (.marks (q.count '+')) groups) =
      words.flatMap (fun w => ' ' :: m.markWord q w) ++ [' '] := by
  induction h with
  | done => rfl
  | @unmarked w ws ps hsplit _ ih =>
    rw [List.flatMap_append, ih, List.flatMap_cons, Markers.markWord, hsplit, List.append_assoc]
    simp [List.flatMap_map]
  | @marked w first rest ws ps groups hsplit hfirst hrest _ ih =>
    rw [List.flatMap_cons, ih, List.flatMap_cons, Markers.markWord, hsplit, List.append_assoc,
      ← hfirst, ← hrest]
    rfl

end Marks

end VerseSearch
