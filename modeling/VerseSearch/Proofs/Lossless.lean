import Mathlib.Data.List.Infix
import VerseSearch.Proofs.HamzaSeats

/-!
# Nothing is lost between a query and its expression

The tokens of a query give its letters back, and an article token stands exactly where the query has
the three letters of an article: no such place is passed over or cut in two, since an article begins
with its only alef (`articlePlaces_tokens`). The segments of a list of tokens are the only ones with
these tokens in which every run of letters has a letter and no two runs stand side by side
(`eq_segments_iff`); so taking the tokens one by one from the left makes the same segments
(`foldl_addToken`).
-/

set_option autoImplicit false

namespace VerseSearch.Letters

/-! ## Articles -/

/-- The families that are written with the article. -/
def articles : List Family := [.articleRelative, .articleLam]

/-- The article that a text begins with. -/
def article? (s : List Char) : Option Family := articles.find? fun f => f.letters.isPrefixOf s

/-- The places of a text at which an article stands, from left to right, where the first place has
the number `n`. -/
def articlesFrom (n : Nat) (s : List Char) : List (Nat × Family) :=
  (s.tails.zipIdx n).filterMap fun place => (article? place.1).map fun f => (place.2, f)

/-- The article that a token stands for. -/
def Token.article? : Token → Option Family
  | .letter _ => none
  | .family f => if f ∈ articles then some f else none

/-- The articles among tokens, each with the number of letters before it, where `n` letters are
before the first token. -/
def articlePlaces (n : Nat) : List Token → List (Nat × Family)
  | [] => []
  | t :: ts => (t.article?.map fun f => (n, f)).toList ++ articlePlaces (n + t.letters.length) ts

variable {c : Char} {s : List Char} {f : Family}

theorem articlesFrom_cons (n : Nat) (c : Char) (s : List Char) :
    articlesFrom n (c :: s) =
      ((article? (c :: s)).map fun f => (n, f)).toList ++ articlesFrom (n + 1) s := by
  rw [articlesFrom, List.tails_cons, List.zipIdx_cons]
  cases h : article? (c :: s) with
  | none => exact List.filterMap_cons_none (by rw [h]; rfl)
  | some f => exact List.filterMap_cons_some (by rw [h]; rfl)

/-- An article begins with an alef. -/
theorem article?_of_ne (hc : c ≠ '\u0627') (s : List Char) : article? (c :: s) = none := by
  simp [article?, articles, Family.letters, List.isPrefixOf, Ne.symm hc]

/-- There is no article where the tokens have none. -/
theorem article?_eq_none (hrelative : ∀ r, c = '\u0627' → s ≠ '\u0644' :: '\u0630' :: r)
    (hlam : ∀ r, c = '\u0627' → s ≠ '\u0644' :: '\u0644' :: r) : article? (c :: s) = none := by
  refine List.find?_eq_none.2 fun f hf hprefix => ?_
  obtain ⟨r, hr⟩ := List.isPrefixOf_iff_prefix.1 hprefix
  simp only [articles, List.mem_cons, List.not_mem_nil, or_false] at hf
  rcases hf with rfl | rfl
  · obtain ⟨hc, hs⟩ := List.cons.inj hr
    exact hrelative r hc.symm hs.symm
  · obtain ⟨hc, hs⟩ := List.cons.inj hr
    exact hlam r hc.symm hs.symm

theorem article?_ofLetter (c : Char) : (Token.ofLetter c).article? = none := by
  unfold Token.ofLetter
  split
  · rename_i f hf
    unfold Family.ofLetter? at hf
    split at hf <;> cases hf <;> rfl
  · rfl

/-- The articles among the tokens are the articles of the query, each at its place. -/
theorem articlePlaces_tokens (q : List Char) (n : Nat) :
    articlePlaces n (tokens q) = articlesFrom n q := by
  fun_induction tokens q generalizing n with
  | case1 r ih =>
    -- the lam and the thal begin no article
    rw [articlePlaces, ih, articlesFrom_cons, articlesFrom_cons, articlesFrom_cons,
      article?_of_ne (c := '\u0644') (by decide), article?_of_ne (c := '\u0630') (by decide)]
    rfl
  | case2 r ih =>
    rw [articlePlaces, ih, articlesFrom_cons, articlesFrom_cons, articlesFrom_cons,
      article?_of_ne (c := '\u0644') (by decide), article?_of_ne (c := '\u0644') (by decide)]
    rfl
  | case3 c r hrelative hlam ih =>
    have hlength : (Token.ofLetter c).letters.length = 1 := by rw [letters_ofLetter]; rfl
    rw [articlePlaces, ih, articlesFrom_cons, article?_ofLetter, hlength,
      article?_eq_none hrelative hlam]
  | case4 => rfl

/-- An alef and a lam that are no article, and the article of the divine name behind them. -/
example : articlePlaces 0 (tokens "\u0627\u0644\u0627\u0644\u0644\u0647".toList) =
    [(2, .articleLam)] := by decide

/-! ## Segments -/

/-- A run of letters. -/
def Segment.isLiteral : Segment → Bool
  | .literal _ => true
  | .family _ => false

/-- Letters are grouped as far as they can be: no run of letters is empty, and no two runs stand
side by side. -/
structure IsGrouped (ss : List Segment) : Prop where
  not_empty : Segment.literal [] ∉ ss
  apart : ss.IsChain fun s t => ¬(s.isLiteral = true ∧ t.isLiteral = true)

/-- No run of letters comes first. -/
def NoLiteralFirst (ss : List Segment) : Prop := ∀ s ∈ ss.head?, s.isLiteral = false

variable {ts : List Token} {ss : List Segment} {run : List Char}

theorem isGrouped_nil : IsGrouped [] := ⟨List.not_mem_nil, .nil⟩

theorem isGrouped_family_cons : IsGrouped (.family f :: ss) ↔ IsGrouped ss := by
  constructor
  · intro h
    exact ⟨fun hmem => h.not_empty (List.mem_cons_of_mem _ hmem), (List.isChain_cons.1 h.apart).2⟩
  · intro h
    refine ⟨?_, List.isChain_cons.2 ⟨fun t _ hboth => ?_, h.apart⟩⟩
    · simpa using h.not_empty
    · exact Bool.false_ne_true hboth.1

theorem isGrouped_literal_cons :
    IsGrouped (.literal run :: ss) ↔ run ≠ [] ∧ NoLiteralFirst ss ∧ IsGrouped ss := by
  constructor
  · intro h
    obtain ⟨hfirst, hapart⟩ := List.isChain_cons.1 h.apart
    refine ⟨?_, fun t ht => ?_, ⟨fun hmem => h.not_empty (List.mem_cons_of_mem _ hmem), hapart⟩⟩
    · rintro rfl
      exact h.not_empty List.mem_cons_self
    · exact Bool.eq_false_iff.2 fun hlit => hfirst t ht ⟨rfl, hlit⟩
  · rintro ⟨hrun, hfirst, hss⟩
    refine ⟨?_, List.isChain_cons.2 ⟨fun t ht hboth => ?_, hss.apart⟩⟩
    · simpa [Ne.symm hrun] using hss.not_empty
    · rw [hfirst t ht] at hboth
      exact Bool.false_ne_true hboth.2

/-- A letter joins the run behind it, or is a run by itself. -/
theorem segments_letter_cons (c : Char) (ts : List Token) :
    (∃ run ss, segments ts = .literal run :: ss ∧
      segments (.letter c :: ts) = .literal (c :: run) :: ss) ∨
    (NoLiteralFirst (segments ts) ∧
      segments (.letter c :: ts) = .literal [c] :: segments ts) := by
  rw [segments]
  split
  · rename_i run ss h
    exact .inl ⟨run, ss, h, rfl⟩
  · rename_i hnot
    refine .inr ⟨fun s hs => ?_, rfl⟩
    obtain ⟨ss, hss⟩ := List.head?_eq_some_iff.1 hs
    cases s with
    | literal run => exact absurd hss (hnot run ss)
    | family f => rfl

/-- Segments are grouped. -/
theorem isGrouped_segments (ts : List Token) : IsGrouped (segments ts) := by
  induction ts with
  | nil => exact isGrouped_nil
  | cons t ts ih =>
    cases t with
    | family f => exact isGrouped_family_cons.2 ih
    | letter c =>
      rcases segments_letter_cons c ts with ⟨run, ss, h, hcons⟩ | ⟨hfirst, hcons⟩
      · rw [h] at ih
        obtain ⟨-, hss⟩ := isGrouped_literal_cons.1 ih
        rw [hcons]
        exact isGrouped_literal_cons.2 ⟨List.cons_ne_nil c run, hss⟩
      · rw [hcons]
        exact isGrouped_literal_cons.2 ⟨List.cons_ne_nil c [], hfirst, ih⟩

/-- Letters before a segment that is no run of letters make one run. -/
theorem segments_letters_append (hrun : run ≠ []) (hfirst : NoLiteralFirst (segments ts)) :
    segments (run.map Token.letter ++ ts) = .literal run :: segments ts := by
  induction run with
  | nil => exact absurd rfl hrun
  | cons c run ih =>
    cases run with
    | nil =>
      rcases segments_letter_cons c ts with ⟨r, ss, h, -⟩ | ⟨-, hcons⟩
      · rw [h] at hfirst
        exact absurd (hfirst _ rfl).symm Bool.false_ne_true
      · exact hcons
    | cons d run =>
      -- the letters behind the first one make a run, which the first one joins
      have hrest := ih (List.cons_ne_nil d run)
      rcases segments_letter_cons c ((d :: run).map Token.letter ++ ts) with
        ⟨r, ss, h, hcons⟩ | ⟨hno, -⟩
      · rw [hrest] at h
        cases h
        exact hcons
      · rw [hrest] at hno
        exact absurd (hno _ rfl).symm Bool.false_ne_true

/-- Grouped segments are the segments of their tokens. -/
theorem IsGrouped.segments_tokens (h : IsGrouped ss) :
    segments (ss.flatMap Segment.tokens) = ss := by
  induction ss with
  | nil => rfl
  | cons s ss ih =>
    cases s with
    | family f =>
      have hss := ih (isGrouped_family_cons.1 h)
      exact congrArg (Segment.family f :: ·) hss
    | literal run =>
      obtain ⟨hrun, hfirst, hgrouped⟩ := isGrouped_literal_cons.1 h
      have hss := ih hgrouped
      rw [List.flatMap_cons, Segment.tokens, segments_letters_append hrun (by rwa [hss]), hss]

/-- The segments of tokens are the only grouped ones that have these tokens. -/
theorem eq_segments_iff : ss = segments ts ↔ IsGrouped ss ∧ ss.flatMap Segment.tokens = ts := by
  constructor
  · rintro rfl
    exact ⟨isGrouped_segments ts, flatMap_tokens_segments ts⟩
  · rintro ⟨hgrouped, rfl⟩
    exact hgrouped.segments_tokens.symm

/-! ## Segments from the left -/

/-- The segments with one more token behind them. A letter joins a run of letters at the end. -/
def addToken (ss : List Segment) (t : Token) : List Segment :=
  match t, ss.getLast? with
  | .letter c, some (.literal run) => ss.dropLast ++ [.literal (run ++ [c])]
  | .letter c, _ => ss ++ [.literal [c]]
  | .family f, _ => ss ++ [.family f]

/-- A letter is added to the run at the end, or the token is a segment of its own behind all
others. -/
theorem addToken_cases (ss : List Segment) (t : Token) :
    (∃ before run c, ss = before ++ [.literal run] ∧ t = .letter c ∧
      addToken ss t = before ++ [.literal (run ++ [c])]) ∨
    (∃ s, s.tokens = [t] ∧ s ≠ .literal [] ∧ addToken ss t = ss ++ [s] ∧
      ∀ last ∈ ss.getLast?, ¬(last.isLiteral = true ∧ s.isLiteral = true)) := by
  unfold addToken
  split
  · rename_i c run hlast
    obtain ⟨before, rfl⟩ := List.getLast?_eq_some_iff.1 hlast
    exact .inl ⟨before, run, c, rfl, rfl, by rw [List.dropLast_concat]⟩
  · rename_i c hlast
    refine .inr ⟨.literal [c], rfl, by simp, rfl, fun last hmem hboth => ?_⟩
    cases last with
    | literal run => exact hlast run hmem
    | family f => exact Bool.false_ne_true hboth.1
  · exact .inr ⟨.family _, rfl, by simp, rfl, fun _ _ hboth => Bool.false_ne_true hboth.2⟩

theorem tokens_addToken (ss : List Segment) (t : Token) :
    (addToken ss t).flatMap Segment.tokens = ss.flatMap Segment.tokens ++ [t] := by
  rcases addToken_cases ss t with ⟨before, run, c, rfl, rfl, h⟩ | ⟨s, hs, -, h, -⟩
  · simp [h, Segment.tokens]
  · simp [h, hs]

theorem IsGrouped.addToken (h : IsGrouped ss) (t : Token) : IsGrouped (addToken ss t) := by
  rcases addToken_cases ss t with ⟨before, run, c, rfl, rfl, hadd⟩ | ⟨s, -, hne, hadd, hlast⟩
  · -- the run at the end stays a run
    obtain ⟨hbefore, -, hend⟩ := List.isChain_append.1 h.apart
    rw [hadd]
    refine ⟨?_, List.isChain_append.2 ⟨hbefore, .singleton _, fun s hs s' hs' => ?_⟩⟩
    · have hempty := h.not_empty
      simp only [List.mem_append, not_or] at hempty
      simp [hempty.1]
    · cases hs'
      exact hend s hs (.literal run) rfl
  · rw [hadd]
    refine ⟨?_, List.isChain_append.2 ⟨h.apart, .singleton _, fun s' hs' s'' hs'' => ?_⟩⟩
    · simp [h.not_empty, Ne.symm hne]
    · cases hs''
      exact hlast s' hs'

/-- Tokens that are added one by one keep segments grouped, and all of them are there at the end. -/
theorem IsGrouped.addTokens (h : IsGrouped ss) (ts : List Token) :
    IsGrouped (ts.foldl Letters.addToken ss) ∧
      (ts.foldl Letters.addToken ss).flatMap Segment.tokens = ss.flatMap Segment.tokens ++ ts := by
  induction ts generalizing ss with
  | nil => exact ⟨h, (List.append_nil _).symm⟩
  | cons t ts ih =>
    obtain ⟨hgrouped, htokens⟩ := ih (h.addToken t)
    refine ⟨hgrouped, ?_⟩
    rw [List.foldl_cons, htokens, tokens_addToken, List.append_assoc, List.singleton_append]

/-- Tokens taken one by one from the left make the segments. -/
theorem foldl_addToken (ts : List Token) : ts.foldl addToken [] = segments ts :=
  eq_segments_iff.2 (isGrouped_nil.addTokens ts)

/-! ## Queries, tokens, segments, expressions -/

/-- Nothing is lost on the way from a query to its expression. The letters of the tokens are the
query, each hamza without its seat. The articles among the tokens are those that stand in the query,
each at its place and in the same order. The segments of any tokens are the only ones with these
tokens in which no run of letters is empty and no two runs stand side by side, also when they are
put together from the left; and whatever the wildcard is, their expression is that of the tokens one
by one, each with the wildcard behind it. -/
theorem tokens_and_segments_lossless (q : List Char) (ts : List Token) (wildcard : List Char) :
    (tokens q).flatMap Token.letters = q.map unseat ∧
    articlePlaces 0 (tokens q) = articlesFrom 0 q ∧
    (∀ ss, ss = segments ts ↔ IsGrouped ss ∧ ss.flatMap Segment.tokens = ts) ∧
    ts.foldl addToken [] = segments ts ∧
    emit wildcard (segments ts) = ts.flatMap fun t => t.source ++ wildcard :=
  ⟨flatMap_letters_tokens q, articlePlaces_tokens q 0, fun _ => eq_segments_iff, foldl_addToken ts,
    emit_eq_flatMap wildcard ts⟩

end VerseSearch.Letters
