import VerseSearch.Proofs.Covering
import VerseSearch.Regex.Pieces

/-!
# Occurrences

A text has an occurrence of an expression exactly if the expression can cover some span of it
(`count_pos_iff`), and each occurrence is the preferred match from the place where it begins
(`matchAt?_of_pieces`).
-/

set_option autoImplicit false

namespace VerseSearch

variable {find : Place → Option Place} {afterHit : Bool} {p q : Place}

/-! ## Whether there is an occurrence -/

/-- A place with a match begins with a match. -/
theorem exists_isHit_piecesBy_of_isSome (h : (find p).isSome = true) :
    ∃ x ∈ piecesBy find false p, x.isHit = true := by
  obtain ⟨q, hq⟩ := Option.isSome_iff_exists.1 h
  rcases piecesBy_cases find false p with ⟨_, _, _, heq⟩ | ⟨_, _, _, heq⟩ | ⟨hno, _⟩
  · exact ⟨_, heq ▸ List.mem_cons_self, rfl⟩
  · exact ⟨_, heq ▸ List.mem_cons_self, rfl⟩
  · cases (hno q hq).2

namespace Regex

/-- Where no match begins the text does not begin with a span that can be covered. -/
theorem rest_ne_append_of_covers {r : Regex} {p : Place} (h : r.matchAt? p = none)
    {span rest : List Char} (hcovers : r.Covers span rest) : p.rest ≠ span ++ rest := by
  intro hrest
  have hsome := isSome_matchAt?_iff.2 ⟨span, rest, hrest, hcovers⟩
  rw [h] at hsome
  cases hsome

/-- From a place on there is a match exactly if a span of the text there can be covered. -/
theorem exists_isHit_piecesBy {r : Regex} {p : Place} :
    (∃ x ∈ piecesBy r.matchAt? false p, x.isHit = true) ↔
      ∃ before span rest, p.rest = before ++ (span ++ rest) ∧ r.Covers span rest := by
  have hfound : ∀ p : Place, (r.matchAt? p).isSome = true →
      ((∃ x ∈ piecesBy r.matchAt? false p, x.isHit = true) ↔
        ∃ before span rest, p.rest = before ++ (span ++ rest) ∧ r.Covers span rest) := by
    intro p h
    obtain ⟨span, rest, hrest, hcovers⟩ := isSome_matchAt?_iff.1 h
    exact iff_of_true (exists_isHit_piecesBy_of_isSome h) ⟨[], span, rest, hrest, hcovers⟩
  obtain ⟨s, hs⟩ : ∃ s, p.rest = s := ⟨_, rfl⟩
  induction s generalizing p with
  | nil =>
    cases h : r.matchAt? p with
    | some q => exact hfound p (h ▸ rfl)
    | none =>
      rw [piecesBy_of_none h, onward_of_end (Place.next?_eq_none.2 hs)]
      refine iff_of_false (by simp) ?_
      rintro ⟨before, span, rest, hrest, hcovers⟩
      obtain ⟨rfl, -⟩ := List.append_eq_nil_iff.1 (hrest.symm.trans hs)
      exact rest_ne_append_of_covers h hcovers hrest
  | cons c s ih =>
    cases h : r.matchAt? p with
    | some q => exact hfound p (h ▸ rfl)
    | none =>
      let q : Place := ⟨s, p.groups, s.length, rfl⟩
      have hnext : p.next? = some (c, q) := Place.next?_eq_some.2 ⟨hs, rfl⟩
      have hplain : (∃ x ∈ piecesBy r.matchAt? false p, x.isHit = true) ↔
          ∃ x ∈ piecesBy r.matchAt? false q, x.isHit = true := by
        rw [piecesBy_of_none h, onward_of_next? hnext]
        simp [Piece.isHit]
      refine hplain.trans ((ih (p := q) rfl).trans ?_)
      rw [hs]
      constructor
      · rintro ⟨before, span, rest, hrest, hcovers⟩
        exact ⟨c :: before, span, rest, congrArg (c :: ·) hrest, hcovers⟩
      · rintro ⟨before, span, rest, hrest, hcovers⟩
        cases before with
        | nil => exact (rest_ne_append_of_covers h hcovers (hs.trans hrest)).elim
        | cons d before =>
          exact ⟨before, span, rest, (List.cons.inj hrest).2, hcovers⟩

/-- A text has an occurrence exactly if the expression can cover a span of it. -/
theorem count_pos_iff {r : Regex} {s : List Char} :
    0 < r.count s ↔ ∃ before span rest, s = before ++ span ++ rest ∧ r.Covers span rest := by
  rw [count, List.countP_pos_iff, pieces, exists_isHit_piecesBy]
  simp only [List.append_assoc]
  rfl

end Regex

/-! ## Where an occurrence is -/

/-- What is found at a place is found at the beginning of the text there. -/
theorem find_start {span rest : List Char} (hp : p.groups = []) (hfind : find p = some q)
    (hspan : span ++ q.rest = p.rest) (hrest : rest = q.rest) :
    ∃ e, find (.start (span ++ rest)) = some e ∧ e.rest = rest ∧ e.groups = q.groups := by
  have hplace : Place.start (span ++ rest) = p := Place.ext_rest (hrest ▸ hspan) hp.symm
  exact ⟨q, hplace ▸ hfind, hrest.symm, rfl⟩

/-- A piece that is a match is what is found at its place, and the pieces behind it are the text
that this leaves. -/
theorem find_of_piecesBy (hfind : ∀ p q, find p = some q → q.rest <:+ p.rest)
    (hp : p.groups = []) {pre post : List Piece} {span : List Char} {groups : Groups}
    (h : piecesBy find afterHit p = pre ++ .hit span groups :: post) :
    ∃ q, find (.start (span ++ post.flatMap Piece.text)) = some q ∧
      q.rest = post.flatMap Piece.text ∧ q.groups = groups := by
  obtain ⟨n, hn⟩ : ∃ n, p.left = n := ⟨_, rfl⟩
  induction n using Nat.strongRecOn generalizing p afterHit pre with
  | _ n ih =>
    -- a match behind the next character
    have honward : ∀ pre : List Piece, onward find p = pre ++ .hit span groups :: post →
        ∃ q, find (.start (span ++ post.flatMap Piece.text)) = some q ∧
          q.rest = post.flatMap Piece.text ∧ q.groups = groups := by
      intro pre hpre
      cases hnext : p.next? with
      | none =>
        rw [onward_of_end hnext] at hpre
        simp at hpre
      | some cq =>
        obtain ⟨c, q⟩ := cq
        rw [onward_of_next? hnext] at hpre
        have hlt : q.left < n := by
          have := Place.left_of_next? hnext
          omega
        cases pre with
        | nil => cases hpre
        | cons x pre =>
          exact ih q.left hlt ((Place.next?_eq_some.1 hnext).2.trans hp) (List.cons.inj hpre).2 rfl
    rcases piecesBy_cases find afterHit p with
      ⟨q, hq, hlt, heq⟩ | ⟨q, hq, hle, heq⟩ | ⟨_, heq⟩ <;> rw [heq] at h
    · cases pre with
      | nil =>
        obtain ⟨hhit, rfl⟩ := List.cons.inj h
        obtain ⟨rfl, rfl⟩ := Piece.hit.inj hhit
        exact find_start hp hq (Place.between_append_rest (hfind p q hq))
          (flatMap_text_piecesBy hfind true q.fresh)
      | cons x pre => exact ih q.left (hn ▸ hlt) (p := q.fresh) rfl (List.cons.inj h).2 rfl
    · cases pre with
      | nil =>
        obtain ⟨hhit, rfl⟩ := List.cons.inj h
        obtain ⟨rfl, rfl⟩ := Piece.hit.inj hhit
        have hall := flatMap_text_piecesBy hfind afterHit p
        rw [heq] at hall
        have hrest : q.rest = p.rest := (hfind p q hq).eq_of_length_le (by
          rw [← p.left_eq, ← q.left_eq]
          omega)
        exact find_start hp hq hrest (hall.trans hrest.symm)
      | cons x pre => exact honward pre (List.cons.inj h).2
    · exact honward pre h

namespace Regex

/-- Each occurrence is the preferred match from where it begins, and it ends where this does. -/
theorem matchAt?_of_pieces {r : Regex} {s : List Char} {pre post : List Piece} {span : List Char}
    {groups : Groups} (h : r.pieces s = pre ++ .hit span groups :: post) :
    ∃ q, r.matchAt? (.start (span ++ post.flatMap Piece.text)) = some q ∧
      q.rest = post.flatMap Piece.text ∧ q.groups = groups := by
  rw [pieces] at h
  exact find_of_piecesBy (fun _ _ => rest_suffix_of_matchAt?) rfl h

/-- A text is cut in the same way by expressions that prefer the same matches. -/
theorem pieces_congr {r r' : Regex} (h : ∀ p, r.matchAt? p = r'.matchAt? p) (s : List Char) :
    r.pieces s = r'.pieces s := by
  rw [pieces, pieces, funext h]

/-- A group around an expression does not change where it matches. -/
theorem matchAt?_group (n : Nat) (r : Regex) (p : Place) :
    (group n r).matchAt? p = (r.matchAt? p).map (p.captured n) := List.head?_map

/-- An occurrence covers what any expression can cover whose matches end at the same places. -/
theorem covers_of_pieces {r r' : Regex}
    (hr : ∀ p, (r.matchAt? p).map Place.rest = (r'.matchAt? p).map Place.rest) {s : List Char}
    {pre post : List Piece} {span : List Char} {groups : Groups}
    (h : r.pieces s = pre ++ .hit span groups :: post) :
    r'.Covers span (post.flatMap Piece.text) := by
  obtain ⟨q, hq, hrest, _⟩ := matchAt?_of_pieces h
  have hends := hr (.start (span ++ post.flatMap Piece.text))
  rw [hq, Option.map_some, hrest] at hends
  obtain ⟨q', hq', hrest'⟩ := Option.map_eq_some_iff.1 hends.symm
  obtain ⟨span', hspan, hcovers⟩ := covers_of_matchAt? hq'
  rw [hrest'] at hspan hcovers
  have hspan : span ++ post.flatMap Piece.text = span' ++ post.flatMap Piece.text := hspan
  rw [List.append_cancel_right hspan]
  exact hcovers

end Regex

end VerseSearch
