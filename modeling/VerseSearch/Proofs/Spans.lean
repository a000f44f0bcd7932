import VerseSearch.Emphasis
import VerseSearch.Proofs.GroupTexts
import VerseSearch.Proofs.Occurrences

/-!
# Spans of a text

A text cut into some spans and the gaps around them (`Spans`) can be put together as it was, or with
markers around the spans. Both are one function (`Spans.joined`), so what holds of the one way holds
of the other: in particular the display form may be taken before or after (`Spans.joined_shown`).

The occurrences of an expression are spans of the text that is searched. Expressions whose matches
end at the same places cut it into the same spans (`Regex.map_bare_pieces`).
-/

set_option autoImplicit false

namespace VerseSearch

/-- Some spans of a text, and what stands before, between and behind them. -/
structure Spans where
  /-- Each span, with the gap before it in front. -/
  parts : List (List Char × List Char)
  /-- What follows the last span. -/
  last : List Char
deriving DecidableEq, Repr

/-- The characters of a text in display form. -/
def displayed (s : List Char) : List Char := (s.filter fun c => !isHidden c).map shownChar

theorem displayForm_eq (text : String) : displayForm text = String.ofList (displayed text.toList) :=
  rfl

theorem displayed_append (s t : List Char) : displayed (s ++ t) = displayed s ++ displayed t := by
  simp [displayed]

/-- The markers in display form. -/
def Markers.shown (m : Markers) : Markers := ⟨displayForm m.opening, displayForm m.closing⟩

theorem Markers.around_shown (m : Markers) (span : List Char) :
    m.shown.around (displayed span) = displayed (m.around span) := by
  simp [around, shown, displayForm_eq, displayed_append]

namespace Spans

/-- The text put together, with `f` applied to its spans. -/
def joined (f : List Char → List Char) (e : Spans) : List Char :=
  e.parts.flatMap (fun part => part.1 ++ f part.2) ++ e.last

/-- The text as it was. -/
def text (e : Spans) : List Char := e.joined id

/-- The text with every span between markers. -/
def written (m : Markers) (e : Spans) : List Char := e.joined m.around

/-- The number of spans. -/
def count (e : Spans) : Nat := e.parts.length

/-- A text without spans. -/
def plain (s : List Char) : Spans := ⟨[], s⟩

/-- A text that is one span. -/
def span (s : List Char) : Spans := ⟨[([], s)], []⟩

/-- The spans of one text and those of the text behind it. -/
def append (e e' : Spans) : Spans :=
  match e'.parts with
  | [] => ⟨e.parts, e.last ++ e'.last⟩
  | (gap, s) :: parts => ⟨e.parts ++ (e.last ++ gap, s) :: parts, e'.last⟩

/-- The spans of a text in display form. -/
def shown (e : Spans) : Spans :=
  ⟨e.parts.map fun part => (displayed part.1, displayed part.2), displayed e.last⟩

/-! ## Laws -/

variable (f : List Char → List Char)

@[simp] theorem joined_plain (s : List Char) : (plain s).joined f = s := rfl

@[simp] theorem joined_span (s : List Char) : (span s).joined f = f s := by simp [joined, span]

@[simp] theorem joined_append (e e' : Spans) :
    (e.append e').joined f = e.joined f ++ e'.joined f := by
  obtain ⟨parts, last⟩ := e
  obtain ⟨parts', last'⟩ := e'
  cases parts' <;> simp [append, joined]

@[simp] theorem count_plain (s : List Char) : (plain s).count = 0 := rfl

@[simp] theorem count_span (s : List Char) : (span s).count = 1 := rfl

@[simp] theorem count_append (e e' : Spans) : (e.append e').count = e.count + e'.count := by
  obtain ⟨parts, last⟩ := e
  obtain ⟨parts', last'⟩ := e'
  cases parts' <;> simp [append, count]

/-- Spans may be changed before or after the text is brought into display form. -/
theorem joined_shown {f g : List Char → List Char}
    (h : ∀ s, g (displayed s) = displayed (f s)) (e : Spans) :
    e.shown.joined g = displayed (e.joined f) := by
  obtain ⟨parts, last⟩ := e
  induction parts with
  | nil => rfl
  | cons part parts ih =>
    simp only [joined, shown, List.map_cons, List.flatMap_cons, List.append_assoc] at ih ⊢
    rw [ih, h, displayed_append part.1, displayed_append (f part.2)]

theorem text_shown (e : Spans) : e.shown.text = displayed e.text :=
  joined_shown (f := id) (g := id) (fun _ => rfl) e

theorem written_shown (m : Markers) (e : Spans) :
    e.shown.written m.shown = displayed (e.written m) := joined_shown m.around_shown e

/-! ## The pieces of a text -/

/-- The matches of a text that is cut into pieces. -/
def ofPieces : List Piece → Spans
  | [] => plain []
  | .plain c :: ps => (plain [c]).append (ofPieces ps)
  | .hit s _ :: ps => (span s).append (ofPieces ps)

/-- Replacing the matches is applying a function to the spans, if each match is replaced by what the
function makes of its span. -/
theorem flatMap_replacement {f : List Char → List Char} {g : List Char → Groups → List Char}
    {ps : List Piece} (h : ∀ s groups, .hit s groups ∈ ps → g s groups = f s) :
    (ps.flatMap fun
      | .plain c => [c]
      | .hit s groups => g s groups) = (ofPieces ps).joined f := by
  induction ps with
  | nil => rfl
  | cons x ps ih =>
    have hps := ih fun s groups hmem => h s groups (List.mem_cons_of_mem x hmem)
    rw [List.flatMap_cons, hps]
    cases x with
    | plain c => rw [ofPieces, joined_append, joined_plain]
    | hit s groups => rw [ofPieces, joined_append, joined_span, ← h s groups List.mem_cons_self]

theorem text_ofPieces (ps : List Piece) : (ofPieces ps).text = ps.flatMap Piece.text := by
  have hreplaced : (ps.flatMap fun
      | .plain c => [c]
      | .hit s _ => s) = (ofPieces ps).joined id := flatMap_replacement fun _ _ _ => rfl
  refine hreplaced.symm.trans (congrArg (fun f => ps.flatMap f) (funext fun x => ?_))
  cases x <;> rfl

theorem count_ofPieces (ps : List Piece) : (ofPieces ps).count = ps.countP Piece.isHit := by
  induction ps with
  | nil => rfl
  | cons x ps ih =>
    cases x <;> simp [ofPieces, ih, List.countP_cons, Piece.isHit, Nat.add_comm]

end Spans

/-! ## Pieces without their groups -/

namespace Piece

/-- The piece without what the groups have covered. -/
def bare : Piece → Piece
  | .plain c => .plain c
  | .hit span _ => .hit span []

@[simp] theorem isHit_bare (x : Piece) : x.bare.isHit = x.isHit := by cases x <;> rfl

theorem countP_isHit_map_bare (ps : List Piece) :
    (ps.map bare).countP isHit = ps.countP isHit := by
  rw [List.countP_map]
  exact congrArg (fun test => ps.countP test) (funext isHit_bare)

end Piece

section

variable {find find' : Place → Option Place}

/-- A match that covers something is found at both places, or at neither. -/
private theorem filter_eq_none_of_rest
    (h : ∀ p q : Place, p.rest = q.rest → (find p).map Place.rest = (find' q).map Place.rest)
    {p q : Place} (hpq : p.rest = q.rest)
    (hnone : ((find p).filter fun e => e.left < p.left) = none) :
    ((find' q).filter fun e => e.left < q.left) = none := by
  have hends := h p q hpq
  rw [Option.filter_eq_none_iff] at hnone ⊢
  intro e he
  rw [he, Option.map_some] at hends
  obtain ⟨d, hd, hrest⟩ := Option.map_eq_some_iff.1 hends
  have hd' := hnone d hd
  rwa [e.left_eq, q.left_eq, ← hrest, ← hpq, ← d.left_eq, ← p.left_eq]

/-- An empty match is found at both places, or at neither. -/
private theorem map_bare_emptyHit (afterHit : Bool) {o o' : Option Place}
    (h : o.map Place.rest = o'.map Place.rest) :
    (emptyHit afterHit o).map Piece.bare = (emptyHit afterHit o').map Piece.bare := by
  cases o <;> cases o' <;> cases afterHit <;> first | rfl | cases h

private theorem map_bare_onward {p q : Place} (hpq : p.rest = q.rest)
    (h : ∀ p' q' : Place, p'.left < p.left → p'.rest = q'.rest →
      (piecesBy find false p').map Piece.bare = (piecesBy find' false q').map Piece.bare) :
    (onward find p).map Piece.bare = (onward find' q).map Piece.bare := by
  cases hnext : p.next? with
  | none =>
    have hnext' : q.next? = none := Place.next?_eq_none.2 (hpq ▸ Place.next?_eq_none.1 hnext)
    rw [onward_of_end hnext, onward_of_end hnext']
  | some cp =>
    obtain ⟨c, p'⟩ := cp
    let q' : Place := ⟨p'.rest, q.groups, p'.left, p'.left_eq⟩
    have hnext' : q.next? = some (c, q') :=
      Place.next?_eq_some.2 ⟨hpq ▸ (Place.next?_eq_some.1 hnext).1, rfl⟩
    have hlt : p'.left < p.left := by
      rw [Place.left_of_next? hnext]
      exact Nat.lt_succ_self _
    rw [onward_of_next? hnext, onward_of_next? hnext', List.map_cons, List.map_cons,
      h p' q' hlt rfl]

/-- Where matches end at the same places, a text is cut into the same pieces, the groups aside. -/
theorem map_bare_piecesBy
    (h : ∀ p q : Place, p.rest = q.rest → (find p).map Place.rest = (find' q).map Place.rest)
    (afterHit : Bool) {p q : Place} (hpq : p.rest = q.rest) :
    (piecesBy find afterHit p).map Piece.bare = (piecesBy find' afterHit q).map Piece.bare := by
  obtain ⟨n, hn⟩ : ∃ n, p.left = n := ⟨_, rfl⟩
  induction n using Nat.strongRecOn generalizing p q afterHit with
  | _ n ih =>
    subst hn
    have hleft : p.left = q.left := by rw [p.left_eq, q.left_eq, hpq]
    have hends := h p q hpq
    cases hfilter : (find p).filter fun e => e.left < p.left with
    | some d =>
      obtain ⟨hd, hdp⟩ := Option.filter_eq_some_iff.1 hfilter
      have hlt : d.left < p.left := of_decide_eq_true hdp
      rw [hd, Option.map_some] at hends
      obtain ⟨e, he, hrest⟩ := Option.map_eq_some_iff.1 hends.symm
      have hde : d.left = e.left := by rw [d.left_eq, e.left_eq, hrest]
      have hbetween : p.between d = q.between e := by
        rw [Place.between, Place.between, hpq, hleft, hde]
      have hfresh := ih d.left hlt true (p := d.fresh) (q := e.fresh) hrest.symm rfl
      rw [piecesBy_of_hit hd hlt, piecesBy_of_hit he (hde ▸ hleft ▸ hlt), List.map_cons,
        List.map_cons, hfresh, Piece.bare, Piece.bare, hbetween]
    | none =>
      have honward := map_bare_onward hpq fun p' q' hlt hpq' => ih p'.left hlt false hpq' rfl
      rw [piecesBy_of_filter_eq_none hfilter,
        piecesBy_of_filter_eq_none (filter_eq_none_of_rest h hpq hfilter), List.map_append,
        List.map_append, map_bare_emptyHit afterHit hends, honward]

end

namespace Regex

/-- Expressions whose matches leave the same of every text cut a text in the same way. -/
theorem map_bare_pieces {r r' : Regex} (h : ∀ s, r.rests s = r'.rests s) (s : List Char) :
    (r.pieces s).map Piece.bare = (r'.pieces s).map Piece.bare := by
  rw [pieces, pieces]
  refine map_bare_piecesBy (fun p q hpq => ?_) false rfl
  rw [map_rest_matchAt?, map_rest_matchAt?, h, hpq]

/-- The group around an expression covers its whole match. -/
theorem text_of_mem_cut?_group {n : Nat} {r : Regex} {s span : List Char} {groups : Groups}
    {ps : List Piece} (hcut : (group n r).cut? s = some ps) (hmem : .hit span groups ∈ ps) :
    groups.text n = span := by
  -- however a match is found, it ends where the group around it has just been closed
  obtain ⟨p, q, hq, rfl, rfl⟩ : ∃ p q : Place, q.rest <:+ p.rest ∧ span = p.between q ∧
      groups = (p.captured n q).groups := by
    cases hr : (group n r).isRegular with
    | true =>
      cases hidle : (group n r).idles with
      | true =>
        simp only [cut?, hr, hidle, if_true] at hcut
        cases hcut
        obtain ⟨p, e, he, rfl, rfl⟩ := exists_find_of_mem_piecesBy hmem
        obtain ⟨q, hq, rfl⟩ := exists_captured_of_sweepAt? he
        exact ⟨p, q, hq, rfl, rfl⟩
      | false =>
        rw [cut?_of_isRegular hr hidle] at hcut
        cases hcut
        obtain ⟨p, e, he, rfl, rfl⟩ := exists_find_of_mem_piecesBy hmem
        rw [matchAt?_group] at he
        obtain ⟨q, hq, rfl⟩ := Option.map_eq_some_iff.1 he
        exact ⟨p, q, rest_suffix_of_matchAt? hq, rfl, rfl⟩
    | false =>
      rw [cut?, hr, if_neg Bool.false_ne_true] at hcut
      obtain ⟨p, e, tries, left, he, rfl, rfl⟩ := exists_found_of_mem_cutBy hcut hmem
      obtain ⟨q, _, hq, hcaptured⟩ := exists_of_explore (r := r) he
      cases hcaptured
      exact ⟨p, q, hq, rfl, rfl⟩
  exact Place.text_captured p n q

end Regex

end VerseSearch
