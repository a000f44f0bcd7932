import VerseSearch.Regex.Explore
import VerseSearch.Regex.FirstWay
import VerseSearch.Regex.Sweep

/-!
# Successive matches in a text

A text is cut into pieces: the spans that match, and the characters between them. Matches are taken
from left to right and do not overlap. After a match that covers something the search goes on where
it ends; after an empty match it goes on one character later. An empty match right at the end of the
match before it does not count.

`Regex.pieces` is what the ways to match make of a text, and `Regex.cut?` is how a text is cut. A
regular expression is run by an automaton, which always comes to an end. Any other one is tried, with
a limit that is set anew behind each match, so the text may not be cut at all; if it is, the pieces are
those that the ways to match make of it (`eq_pieces_of_cut?`).
-/

set_option autoImplicit false

namespace VerseSearch

/-- A piece of a text. -/
inductive Piece where
  /-- A character that no match covers. -/
  | plain (c : Char)
  /-- A span that matches, with what the groups have covered. -/
  | hit (span : List Char) (groups : Groups)
deriving DecidableEq, Repr

namespace Piece

/-- The text of the piece. -/
def text : Piece → List Char
  | .plain c => [c]
  | .hit span _ => span

/-- Whether the piece is a match. -/
def isHit : Piece → Bool
  | .plain _ => false
  | .hit _ _ => true

end Piece

/-- An empty match as a piece, unless it does not count. -/
def emptyHit (afterHit : Bool) : Option Place → List Piece
  | none => []
  | some q => if afterHit then [] else [.hit [] q.groups]

/-- The pieces of what is left at a place, where `find` says whether a match begins at a place and
where it ends. The flag says whether a match ends right before the place. -/
def piecesBy (find : Place → Option Place) (afterHit : Bool) (p : Place) : List Piece :=
  match _h : (find p).filter fun q => q.left < p.left with
  | some q => .hit (p.between q) q.groups :: piecesBy find true q.fresh
  | none =>
    emptyHit afterHit (find p) ++
      match _h : p.next? with
      | none => []
      | some (c, q) => .plain c :: piecesBy find false q
termination_by p.left
decreasing_by
  · exact of_decide_eq_true (Option.filter_eq_some_iff.1 _h).2
  · exact Nat.lt_of_succ_le (Nat.le_of_eq (Place.left_of_next? _h).symm)

/-- The pieces of what is left at a place, where `find` tries to find a match at a place with the tries
that are left, and comes to its end with those that are left then. Going on one character later costs
a try. -/
def cutBy (find : Place → Nat → Attempt) (afterHit : Bool) (tries : Nat) (p : Place) :
    Option (List Piece) :=
  let onward (tries : Nat) : Option (List Piece) :=
    match _h : p.next? with
    | none => some []
    | some (c, q) => (cutBy find false tries q).map (.plain c :: ·)
  match find p tries with
  | .givenUp => none
  | .failed 0 => none
  | .failed (tries + 1) => onward tries
  | .found q _ =>
    if q.left < p.left then (cutBy find true tryLimit q.fresh).map (.hit (p.between q) q.groups :: ·)
    else (onward tryLimit).map (emptyHit afterHit (some q) ++ ·)
termination_by p.left
decreasing_by
  · exact Nat.lt_of_succ_le (Nat.le_of_eq (Place.left_of_next? _h).symm)
  · assumption

namespace Regex

/-- The text cut into matches and the characters between them, as the ways to match have it. -/
def pieces (r : Regex) (s : List Char) : List Piece := piecesBy r.matchAt? false (.start s)

/-- The number of matches. -/
def count (r : Regex) (s : List Char) : Nat := (r.pieces s).countP Piece.isHit

/-- The text cut into matches and the characters between them, unless the search is given up. -/
def cut? (r : Regex) (s : List Char) : Option (List Piece) :=
  if r.isRegular then
    if r.idles then some (piecesBy r.sweepAt? false (.start s))
    else
      let route := r.search s
      some (piecesBy route.find? false (.start s))
  else cutBy (r.explore .found) false tryLimit (.start s)

/-- The number of matches, unless the search is given up. -/
def count? (r : Regex) (s : List Char) : Option Nat := (r.cut? s).map fun ps => ps.countP Piece.isHit

/-- The text with every match replaced by what `f` makes of its span and groups, unless the search is
given up. -/
def replaceHits? (r : Regex) (f : List Char → Groups → List Char) (s : List Char) :
    Option (List Char) :=
  (r.cut? s).map fun ps => ps.flatMap fun
    | .plain c => [c]
    | .hit span groups => f span groups

/-- Whether the ways to match tell what an expression matches: it does not refer to groups, and it is
not left to an automaton with repetitions of what may cover nothing. -/
def isPlain (r : Regex) : Bool := !r.refers && !(r.isRegular && r.idles)

end Regex

/-! ## Laws -/

/-- Pieces depend only on what is found at the places of the text. -/
theorem piecesBy_congr {f g : Place → Option Place} {s : List Char}
    (h : ∀ p, p.rest <:+ s → f p = g p)
    (hg : ∀ p q, g p = some q → q.rest <:+ p.rest) (afterHit : Bool) {p : Place}
    (hp : p.rest <:+ s) : piecesBy f afterHit p = piecesBy g afterHit p := by
  fun_induction piecesBy g afterHit p with
  | case1 afterHit p q hq ih =>
    rw [piecesBy, h p hp]
    split
    · rename_i q' hq'
      rw [hq] at hq'
      cases hq'
      rw [ih ((hg p q (Option.filter_eq_some_iff.1 hq).1).trans hp)]
    · rename_i hq'
      rw [hq] at hq'
      cases hq'
  | case2 afterHit p hq ih =>
    rw [piecesBy, h p hp]
    split
    · rename_i hq'
      rw [hq] at hq'
      cases hq'
    · congr 1
      split
      · rfl
      · rename_i c q hn
        rw [ih c q hn ((Place.rest_suffix_of_next? hn).trans hp)]

/-- The pieces put together are what is left at the place. -/
theorem flatMap_text_piecesBy {f : Place → Option Place}
    (hf : ∀ p q, f p = some q → q.rest <:+ p.rest) (afterHit : Bool) (p : Place) :
    (piecesBy f afterHit p).flatMap Piece.text = p.rest := by
  fun_induction piecesBy f afterHit p with
  | case1 afterHit p q hq ih =>
    rw [List.flatMap_cons, ih]
    exact Place.between_append_rest (hf p q (Option.filter_eq_some_iff.1 hq).1)
  | case2 afterHit p hq ih =>
    have hempty : (emptyHit afterHit (f p)).flatMap Piece.text = [] := by
      cases f p <;> cases afterHit <;> rfl
    rw [List.flatMap_append, hempty, List.nil_append]
    split
    · rename_i hn
      rw [Place.next?_eq_none.1 hn]
      rfl
    · rename_i c q hn
      rw [List.flatMap_cons, ih c q hn, (Place.next?_eq_some.1 hn).1]
      rfl

/-! ### One piece at a time -/

variable {find : Place → Option Place} {afterHit : Bool} {p q : Place}

/-- The pieces from a place on when no match that covers something begins there, and an empty one
is set aside. -/
def onward (find : Place → Option Place) (p : Place) : List Piece :=
  match p.next? with
  | none => []
  | some (c, q) => .plain c :: piecesBy find false q

theorem onward_of_next? {c : Char} (h : p.next? = some (c, q)) :
    onward find p = .plain c :: piecesBy find false q := by
  rw [onward, h]

theorem onward_of_end (h : p.next? = none) : onward find p = [] := by
  rw [onward, h]

theorem piecesBy_of_filter_eq_none (h : ((find p).filter fun q => q.left < p.left) = none) :
    piecesBy find afterHit p = emptyHit afterHit (find p) ++ onward find p := by
  rw [piecesBy]
  split
  · rename_i q hq
    rw [h] at hq
    cases hq
  · congr 1
    split
    · rename_i hnext
      rw [onward_of_end hnext]
    · rename_i c q hnext
      rw [onward_of_next? hnext]

/-- All that a text can begin with when it is cut: a match that covers something, an empty match, or
neither. -/
theorem piecesBy_cases (find : Place → Option Place) (afterHit : Bool) (p : Place) :
    (∃ q, find p = some q ∧ q.left < p.left ∧
      piecesBy find afterHit p = .hit (p.between q) q.groups :: piecesBy find true q.fresh) ∨
    (∃ q, find p = some q ∧ ¬q.left < p.left ∧
      piecesBy find afterHit p = .hit [] q.groups :: onward find p) ∨
    ((∀ q, find p = some q → ¬q.left < p.left ∧ afterHit = true) ∧
      piecesBy find afterHit p = onward find p) := by
  cases hfilter : (find p).filter fun q => q.left < p.left with
  | some q =>
    obtain ⟨hq, hlt⟩ := Option.filter_eq_some_iff.1 hfilter
    refine .inl ⟨q, hq, of_decide_eq_true hlt, ?_⟩
    rw [piecesBy]
    split
    · rename_i q' hq'
      rw [hfilter] at hq'
      cases hq'
      rfl
    · rename_i hq'
      rw [hfilter] at hq'
      cases hq'
  | none =>
    rw [piecesBy_of_filter_eq_none hfilter]
    rw [Option.filter_eq_none_iff] at hfilter
    cases hfind : find p with
    | none => exact .inr (.inr ⟨fun _ h => (nomatch h), rfl⟩)
    | some q =>
      have hle : ¬q.left < p.left := by simpa using hfilter q hfind
      cases afterHit with
      | false => exact .inr (.inl ⟨q, rfl, hle, rfl⟩)
      | true => exact .inr (.inr ⟨fun _ h => Option.some.inj h ▸ ⟨hle, rfl⟩, rfl⟩)

/-- Behind a match that covers something the text is cut afresh. -/
theorem piecesBy_of_hit (h : find p = some q) (hlt : q.left < p.left) :
    piecesBy find afterHit p = .hit (p.between q) q.groups :: piecesBy find true q.fresh := by
  rcases piecesBy_cases find afterHit p with ⟨q', hq, _, heq⟩ | ⟨q', hq, hle, _⟩ | ⟨hle, _⟩
  · rw [h] at hq
    cases hq
    exact heq
  · rw [h] at hq
    cases hq
    exact absurd hlt hle
  · exact absurd hlt (hle q h).1

/-- Where no match begins the next character is a piece of its own. -/
theorem piecesBy_of_none (h : find p = none) : piecesBy find afterHit p = onward find p := by
  rcases piecesBy_cases find afterHit p with ⟨q', hq, _⟩ | ⟨q', hq, _⟩ | ⟨_, heq⟩
  · rw [h] at hq
    cases hq
  · rw [h] at hq
    cases hq
  · exact heq

/-- An empty match sets the next character aside as if there was none, apart from counting itself. -/
theorem piecesBy_of_empty (h : find p = some q) (hle : ¬q.left < p.left) :
    piecesBy find afterHit p = emptyHit afterHit (some q) ++ onward find p := by
  rw [← h]
  refine piecesBy_of_filter_eq_none (Option.filter_eq_none_iff.2 fun q' hq' => ?_)
  rw [h] at hq'
  cases hq'
  simpa using hle

/-! ### Cutting by trying -/

variable {attempt : Place → Nat → Attempt} {tries : Nat} {ps : List Piece}

/-- The pieces from a place on, where no match that covers something is found, and an empty one is set
aside. -/
def cutOnward (attempt : Place → Nat → Attempt) (tries : Nat) (p : Place) : Option (List Piece) :=
  match p.next? with
  | none => some []
  | some (c, q) => (cutBy attempt false tries q).map (.plain c :: ·)

/-- How a text is cut depends on what is found at its beginning. -/
theorem cutBy_eq (attempt : Place → Nat → Attempt) (afterHit : Bool) (tries : Nat) (p : Place) :
    cutBy attempt afterHit tries p =
      match attempt p tries with
      | .givenUp => none
      | .failed 0 => none
      | .failed (tries + 1) => cutOnward attempt tries p
      | .found q _ =>
        if q.left < p.left then
          (cutBy attempt true tryLimit q.fresh).map (.hit (p.between q) q.groups :: ·)
        else (cutOnward attempt tryLimit p).map (emptyHit afterHit (some q) ++ ·) := by
  have honward : ∀ tries, (match _h : p.next? with
      | none => some []
      | some (c, q) => (cutBy attempt false tries q).map (.plain c :: ·)) =
        cutOnward attempt tries p := by
    intro tries
    unfold cutOnward
    split <;> simp_all
  rw [cutBy]
  simp only [honward]

/-- A text that is cut by trying is cut as `find` has it, if `find` says what is found. -/
theorem eq_piecesBy_of_cutBy (h : ∀ p tries, (attempt p tries).Agrees (find p))
    (hcut : cutBy attempt afterHit tries p = some ps) : ps = piecesBy find afterHit p := by
  obtain ⟨n, hn⟩ : ∃ n, p.left = n := ⟨_, rfl⟩
  induction n using Nat.strongRecOn generalizing p afterHit tries ps with
  | _ n ih =>
    subst hn
    have honward : ∀ tries ps, cutOnward attempt tries p = some ps → ps = onward find p := by
      intro tries ps hps
      rw [cutOnward] at hps
      split at hps
      · rename_i hnext
        cases hps
        rw [onward_of_end hnext]
      · rename_i c q hnext
        obtain ⟨qs, hqs, rfl⟩ := Option.map_eq_some_iff.1 hps
        have hlt : q.left < p.left := Nat.lt_of_succ_le (Nat.le_of_eq (Place.left_of_next? hnext).symm)
        rw [onward_of_next? hnext, ih q.left hlt hqs rfl]
    have hagrees := h p tries
    rw [cutBy_eq] at hcut
    split at hcut <;> rename_i hattempt
    · cases hcut
    · cases hcut
    · have hfind : find p = none := by rwa [hattempt] at hagrees
      rw [piecesBy_of_none hfind, honward _ _ hcut]
    · rename_i q left
      have hfind : find p = some q := by rwa [hattempt] at hagrees
      split at hcut
      · rename_i hlt
        obtain ⟨qs, hqs, rfl⟩ := Option.map_eq_some_iff.1 hcut
        rw [piecesBy_of_hit hfind hlt, ih q.left hlt (p := q.fresh) hqs rfl]
      · rename_i hle
        obtain ⟨qs, hqs, rfl⟩ := Option.map_eq_some_iff.1 hcut
        rw [piecesBy_of_empty hfind hle, honward _ _ hqs]

/-- A text that is cut by trying is there in its pieces. -/
theorem flatMap_text_cutBy
    (h : ∀ p q tries left, attempt p tries = .found q left → q.rest <:+ p.rest)
    (hcut : cutBy attempt afterHit tries p = some ps) : ps.flatMap Piece.text = p.rest := by
  obtain ⟨n, hn⟩ : ∃ n, p.left = n := ⟨_, rfl⟩
  induction n using Nat.strongRecOn generalizing p afterHit tries ps with
  | _ n ih =>
    subst hn
    have honward : ∀ tries ps, cutOnward attempt tries p = some ps →
        ps.flatMap Piece.text = p.rest := by
      intro tries ps hps
      rw [cutOnward] at hps
      split at hps
      · rename_i hnext
        cases hps
        exact (Place.next?_eq_none.1 hnext).symm
      · rename_i c q hnext
        obtain ⟨qs, hqs, rfl⟩ := Option.map_eq_some_iff.1 hps
        have hlt : q.left < p.left := Nat.lt_of_succ_le (Nat.le_of_eq (Place.left_of_next? hnext).symm)
        rw [List.flatMap_cons, ih q.left hlt hqs rfl, (Place.next?_eq_some.1 hnext).1]
        rfl
    rw [cutBy_eq] at hcut
    split at hcut <;> rename_i hattempt
    · cases hcut
    · cases hcut
    · exact honward _ _ hcut
    · rename_i q left
      split at hcut
      · rename_i hlt
        obtain ⟨qs, hqs, rfl⟩ := Option.map_eq_some_iff.1 hcut
        rw [List.flatMap_cons, ih q.left hlt (p := q.fresh) hqs rfl]
        exact Place.between_append_rest (h p q _ _ hattempt)
      · obtain ⟨qs, hqs, rfl⟩ := Option.map_eq_some_iff.1 hcut
        have hempty : (emptyHit afterHit (some q)).flatMap Piece.text = [] := by
          cases afterHit <;> rfl
        rw [List.flatMap_append, hempty, honward _ _ hqs, List.nil_append]

/-! ### Where matches are found -/

/-- A match that covers nothing lies between its two places, too. -/
private theorem between_of_not_lt (h : ¬q.left < p.left) : p.between q = [] := by
  rw [Place.between, Nat.sub_eq_zero_of_le (Nat.not_lt.1 h), List.take_zero]

private theorem eq_of_mem_emptyHit {span : List Char} {groups : Groups} (hle : ¬q.left < p.left)
    (hmem : .hit span groups ∈ emptyHit afterHit (some q)) :
    span = p.between q ∧ groups = q.groups := by
  rw [between_of_not_lt hle]
  cases afterHit with
  | true => cases hmem
  | false =>
    cases List.mem_singleton.1 hmem
    exact ⟨rfl, rfl⟩

/-- Every match among the pieces was found somewhere. -/
theorem exists_find_of_mem_piecesBy {span : List Char} {groups : Groups}
    (hmem : .hit span groups ∈ piecesBy find afterHit p) :
    ∃ q e, find q = some e ∧ span = q.between e ∧ groups = e.groups := by
  fun_induction piecesBy find afterHit p with
  | case1 afterHit p q hq ih =>
    rcases List.mem_cons.1 hmem with heq | hmem
    · cases heq
      exact ⟨p, q, (Option.filter_eq_some_iff.1 hq).1, rfl, rfl⟩
    · exact ih hmem
  | case2 afterHit p hq ih =>
    rcases List.mem_append.1 hmem with hmem | hmem
    · cases hfind : find p with
      | none =>
        rw [hfind] at hmem
        cases hmem
      | some q =>
        rw [Option.filter_eq_none_iff] at hq
        have hle : ¬q.left < p.left := by simpa using hq q hfind
        rw [hfind] at hmem
        exact ⟨p, q, hfind, eq_of_mem_emptyHit hle hmem⟩
    · split at hmem
      · cases hmem
      · rename_i c q hn
        rcases List.mem_cons.1 hmem with heq | hmem
        · cases heq
        · exact ih c q hn hmem

/-- Every match of a text that is cut by trying was found somewhere. -/
theorem exists_found_of_mem_cutBy {span : List Char} {groups : Groups}
    (hcut : cutBy attempt afterHit tries p = some ps) (hmem : .hit span groups ∈ ps) :
    ∃ q e tries left, attempt q tries = .found e left ∧ span = q.between e ∧ groups = e.groups := by
  obtain ⟨n, hn⟩ : ∃ n, p.left = n := ⟨_, rfl⟩
  induction n using Nat.strongRecOn generalizing p afterHit tries ps with
  | _ n ih =>
    subst hn
    have honward : ∀ tries ps, cutOnward attempt tries p = some ps → .hit span groups ∈ ps →
        ∃ q e tries left, attempt q tries = .found e left ∧ span = q.between e ∧
          groups = e.groups := by
      intro tries ps hps hmem
      rw [cutOnward] at hps
      split at hps
      · cases hps
        cases hmem
      · rename_i c q hnext
        obtain ⟨qs, hqs, rfl⟩ := Option.map_eq_some_iff.1 hps
        have hlt : q.left < p.left := Nat.lt_of_succ_le (Nat.le_of_eq (Place.left_of_next? hnext).symm)
        rcases List.mem_cons.1 hmem with heq | hmem
        · cases heq
        · exact ih q.left hlt hqs hmem rfl
    rw [cutBy_eq] at hcut
    split at hcut <;> rename_i hattempt
    · cases hcut
    · cases hcut
    · exact honward _ _ hcut hmem
    · rename_i q left
      split at hcut
      · rename_i hlt
        obtain ⟨qs, hqs, rfl⟩ := Option.map_eq_some_iff.1 hcut
        rcases List.mem_cons.1 hmem with heq | hmem
        · cases heq
          exact ⟨p, q, tries, left, hattempt, rfl, rfl⟩
        · exact ih q.left hlt (p := q.fresh) hqs hmem rfl
      · rename_i hle
        obtain ⟨qs, hqs, rfl⟩ := Option.map_eq_some_iff.1 hcut
        rcases List.mem_append.1 hmem with hmem | hmem
        · exact ⟨p, q, tries, left, hattempt, eq_of_mem_emptyHit hle hmem⟩
        · exact honward _ _ hqs hmem

namespace Regex

variable {r : Regex} {s : List Char}

/-- A regular expression always comes to an end, with the pieces that the ways to match make. -/
theorem cut?_of_isRegular (hr : r.isRegular = true) (hidle : r.idles = false) (s : List Char) :
    r.cut? s = some (r.pieces s) := by
  rw [cut?, if_pos hr, hidle, if_neg Bool.false_ne_true]
  exact congrArg some (piecesBy_congr (fun _ hp => search_find? hr hp)
    (fun _ _ => rest_suffix_of_matchAt?) false (List.suffix_refl s))

/-- The pieces that a text is cut into are those that the ways to match make. -/
theorem eq_pieces_of_cut? (hr : r.isPlain = true) (h : r.cut? s = some ps) : ps = r.pieces s := by
  simp only [isPlain, Bool.and_eq_true, Bool.not_eq_true', Bool.and_eq_false_iff] at hr
  obtain ⟨hrefers, hr⟩ := hr
  cases hregular : r.isRegular with
  | true =>
    have hidle : r.idles = false := hr.resolve_left (by simp [hregular])
    rw [cut?_of_isRegular hregular hidle] at h
    exact (Option.some.inj h).symm
  | false =>
    rw [cut?, if_neg (by simp [hregular])] at h
    exact eq_piecesBy_of_cutBy (fun p tries => agrees_explore_found hrefers p tries) h

theorem flatMap_text_pieces (r : Regex) (s : List Char) : (r.pieces s).flatMap Piece.text = s :=
  flatMap_text_piecesBy (fun _ _ => rest_suffix_of_matchAt?) false (.start s)

/-- Cutting a text into pieces loses nothing. -/
theorem flatMap_text_cut? (h : r.cut? s = some ps) : ps.flatMap Piece.text = s := by
  cases hr : r.isRegular with
  | true =>
    cases hidle : r.idles with
    | true =>
      simp only [cut?, hr, hidle, if_true] at h
      cases h
      exact flatMap_text_piecesBy (fun _ _ => rest_suffix_of_sweepAt?) false (.start s)
    | false =>
      rw [cut?_of_isRegular hr hidle] at h
      cases h
      exact r.flatMap_text_pieces s
  | false =>
    rw [cut?, hr, if_neg Bool.false_ne_true] at h
    exact flatMap_text_cutBy (fun _ _ _ _ => rest_suffix_of_explore) h

end Regex

end VerseSearch
