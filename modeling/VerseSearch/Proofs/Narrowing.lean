import VerseSearch.Proofs.Appending
import VerseSearch.Proofs.LargeQueries

/-!
# Typing on narrows the results

A letter query with one more character finds nothing that the query itself does not find, and a mark
query with one more character counts no more. The character may change what came before it: it may
go before the last vowel, or turn alef and lam into an article with spellings of its own. In each
case what carries the longer query carries the shorter one somewhere in itself (`Narrows`). Only a
query that is refused for its size, or that is given up, finds less than a longer one.
-/

set_option autoImplicit false

namespace VerseSearch

namespace Letters

/-! ## Tokens that ask for more -/

/-- Every span that carries the first tokens has a part, with nothing but fillers in front of it,
that carries the second ones. -/
def Narrows (ts' ts : List Token) : Prop :=
  ∀ span' next, Carries ts' span' next → ∃ fill span rest, span' = fill ++ (span ++ rest) ∧
    (∀ c ∈ fill, isFiller c = true) ∧ Carries ts span (rest ++ next)

variable {t : Token} {ts ts' : List Token} {span next : List Char}

/-- A span is carried by its first token, fillers and the span of the others. -/
theorem Carries.exists_parts (h : Carries (t :: ts) span next) :
    ∃ first fill rest, span = first ++ (fill ++ rest) ∧
      t.spells first (fill ++ rest ++ next) = true ∧ (∀ c ∈ fill, isFiller c = true) ∧
      Carries ts rest next := by
  cases ts with
  | nil => exact ⟨span, [], [], by simp, h, by simp, rfl⟩
  | cons t' ts => exact h

namespace Narrows

theorem refl (ts : List Token) : Narrows ts ts := fun span _ h =>
  ⟨[], span, [], by simp, by simp, h⟩

/-- Everything asks for more than nothing. -/
theorem nil (ts : List Token) : Narrows ts [] := fun span _ _ => ⟨[], [], span, rfl, by simp, rfl⟩

theorem cons (t : Token) (h : Narrows ts' ts) : Narrows (t :: ts') (t :: ts) := by
  intro span' next hspan
  obtain ⟨first, fill, rest, rfl, hfirst, hfill, hrest⟩ := hspan.exists_parts
  cases ts with
  | nil => exact ⟨[], first, fill ++ rest, rfl, by simp, hfirst⟩
  | cons u us =>
    obtain ⟨fill', span, rest', rfl, hfill', hspan⟩ := h rest next hrest
    refine ⟨[], first ++ ((fill ++ fill') ++ span), rest', by simp, by simp, first, fill ++ fill',
      span, rfl, by simpa using hfirst, ?_, hspan⟩
    exact fun c hc => (List.mem_append.1 hc).elim (hfill c) (hfill' c)

theorem append_left (us : List Token) (h : Narrows ts' ts) : Narrows (us ++ ts') (us ++ ts) := by
  induction us with
  | nil => exact h
  | cons u us ih => exact ih.cons u

/-- A letter that is a filler may stand before the others. -/
theorem of_filler {m : Char} (hm : isFiller m = true) (ts : List Token) :
    Narrows (.letter m :: ts) ts := by
  intro span' next hspan
  obtain ⟨first, fill, rest, rfl, hfirst, hfill, hrest⟩ := hspan.exists_parts
  obtain rfl : first = [m] := by simpa [Token.spells] using hfirst
  exact ⟨m :: fill, rest, [], by simp, List.forall_mem_cons.2 ⟨hm, hfill⟩, hrest⟩

/-- Each way to write the article begins with an alef and goes on with a lam. -/
theorem article {f : Family} (hf : f = .articleRelative ∨ f = .articleLam) :
    Narrows [.family f] [.family .alef, .letter '\u0644'] := by
  intro span' next hspan
  -- one alef, fillers, the lam and what is left of the span
  have hparts : ∀ (first : Char) (fill rest : List Char),
      Family.alef.spells [first] (fill ++ ['\u0644'] ++ (rest ++ next)) = true →
      (∀ c ∈ fill, isFiller c = true) → span' = first :: (fill ++ '\u0644' :: rest) →
      ∃ fill span rest, span' = fill ++ (span ++ rest) ∧ (∀ c ∈ fill, isFiller c = true) ∧
        Carries [.family .alef, .letter '\u0644'] span (rest ++ next) := by
    intro first fill rest hfirst hfill hspan'
    exact ⟨[], first :: (fill ++ ['\u0644']), rest, by simp [hspan'], by simp, [first], fill,
      ['\u0644'], rfl, hfirst, hfill, rfl⟩
  rcases hf with rfl | rfl
  · obtain rfl : span' = ['\u0671', '\u0644', '\u0651', '\u064E', '\u0630', '\u0650'] := by
      simpa [Carries, Token.spells, Family.spells] using hspan
    exact hparts '\u0671' [] ['\u0651', '\u064E', '\u0630', '\u0650'] rfl (by simp) rfl
  · simp only [Carries, Token.spells, Family.spells, Bool.or_eq_true, Bool.and_eq_true,
      beq_iff_eq] at hspan
    rcases hspan with (rfl | rfl) | ⟨rfl, _⟩
    · exact hparts '\u0627' ['\u0653'] ['\u0644', '\u0651'] rfl (List.all_eq_true.1 rfl) rfl
    · exact hparts '\u0671' [] ['\u0644', '\u0651'] rfl (by simp) rfl
    · exact hparts '\u0671' [] ['\u0651', '\u064E'] rfl (by simp) rfl

end Narrows

theorem AddsToken.narrows {c : Char} (h : AddsToken c ts ts') : Narrows ts' ts := by
  cases h with
  | appended => simpa using (Narrows.nil [Token.ofLetter c]).append_left ts
  | fused us hf _ => exact (Narrows.article hf).append_left us

/-- A query with one more character asks for more. -/
theorem narrows_tokens_clean (q : List Char) (c : Char) :
    Narrows (tokens (clean (q ++ [c]))) (tokens (clean q)) := by
  have h := extends_clean_append q c
  generalize clean q = s, clean (q ++ [c]) = s' at h
  cases h with
  | dropped => exact .refl _
  | appended => exact (addsToken_tokens_append s c).narrows
  | @exchanged s v hv hc =>
    -- the mark that went before the vowel is skipped as a filler
    have hvowel : v ≠ '\u0630' ∧ v ≠ '\u0644' := by
      simp only [isVowel, Bool.or_eq_true, beq_iff_eq] at hv
      rcases hv with (rfl | rfl) | rfl <;> decide
    have hmark : c ≠ '\u0630' ∧ c ≠ '\u0644' ∧ Token.ofLetter c = .letter c ∧
        isFiller c = true := by
      simp only [precedesVowel, Bool.or_eq_true, beq_iff_eq] at hc
      rcases hc with rfl | rfl <;> decide
    obtain ⟨hthal, hlam, hletter, hfiller⟩ := hmark
    have hboth : s ++ [c, v] = (s ++ [c]) ++ [v] := by simp
    rw [hboth, tokens_append_of_ne _ hvowel.1 hvowel.2, tokens_append_of_ne _ hvowel.1 hvowel.2,
      tokens_append_of_ne _ hthal hlam, hletter, List.append_assoc]
    exact (Narrows.of_filler hfiller [Token.ofLetter v]).append_left (tokens s)

/-! ## Letter queries -/

theorem tokens_eq_nil_iff {q : List Char} : tokens q = [] ↔ q = [] := by
  fun_cases tokens q <;> simp

/-- A query that leaves something to search for does so with one more character. -/
theorem tokens_clean_append_ne_nil {q : List Char} (c : Char) (h : tokens (clean q) ≠ []) :
    tokens (clean (q ++ [c])) ≠ [] := by
  rw [Ne, tokens_eq_nil_iff] at h ⊢
  have hlength := (extends_clean_append q c).length_le
  rintro hnil
  rw [hnil, List.length_nil, Nat.le_zero, List.length_eq_zero_iff] at hlength
  exact h hlength

/-- The source of a query is empty if nothing is left to search for. -/
theorem tokens_ne_nil_of_source {q : List Char} (h : source nonConsonant.toList q ≠ []) :
    tokens (clean q) ≠ [] := by
  intro hnil
  rw [source, hnil] at h
  exact h rfl

variable {keyword : String} {c : Char}

/-- A verse with an occurrence of a query and one more character has one of the query, unless it is
too much for the query. -/
theorem count_pos_of_push (hne : tokens (clean keyword.toList) ≠ []) {text : String} {n' : Nat}
    (hcount : (pattern (keyword.push c)).count text = .ok n') (hpos : 0 < n')
    (hgiven : (pattern keyword).givesUp text = false) :
    ∃ n, (pattern keyword).count text = .ok n ∧ 0 < n := by
  have hpush : (keyword.push c).toList = keyword.toList ++ [c] := String.toList_push c
  rw [count_pattern, Pattern.unlessGivenUp_eq_ok] at hcount
  obtain ⟨_, rfl⟩ := hcount
  rw [hpush, count_expression_pos_iff (tokens_clean_append_ne_nil c hne)] at hpos
  refine ⟨_, (count_pattern keyword text).trans (Pattern.unlessGivenUp_of_false hgiven _), ?_⟩
  rw [count_expression_pos_iff hne]
  obtain ⟨before, span', rest', htext, hspan'⟩ := hpos
  obtain ⟨fill, span, rest, rfl, _, hspan⟩ :=
    narrows_tokens_clean keyword.toList c span' rest' hspan'
  exact ⟨before ++ fill, span, rest ++ rest', by simp [htext], hspan⟩

end Letters

/-! ## Mark queries -/

namespace Marks

variable {test : Char → Bool} {w rest : List Char}

theorem newline_mem_of_scanMark (htest : test '\n' = false) (h : scanMark test w = some rest)
    (hw : '\n' ∈ w) : '\n' ∈ rest := by
  cases w with
  | nil => cases h
  | cons m w =>
    rw [scanMark] at h
    split at h
    · rename_i hm
      cases h
      refine (List.mem_cons.1 hw).resolve_left ?_
      rintro rfl
      rw [htest] at hm
      cases hm
    · cases h

theorem newline_mem_of_scanMarked (htest : test '\n' = false) (h : scanMarked test w = some rest)
    (hw : '\n' ∈ w) : '\n' ∈ rest := by
  cases w with
  | nil => cases h
  | cons l w =>
    rw [scanMarked] at h
    split at h
    · rename_i hl
      refine newline_mem_of_scanMark htest h ((List.mem_cons.1 hw).resolve_left ?_)
      rintro rfl
      exact absurd hl (by decide)
    · exact newline_mem_of_scanMark htest h hw

theorem newline_mem_of_scanBare (h : scanBare w = some rest) (hw : '\n' ∈ w) : '\n' ∈ rest := by
  cases w with
  | nil => cases h
  | cons l w =>
    rw [scanBare] at h
    split at h
    · rename_i hl
      cases h
      refine (List.mem_cons.1 hw).resolve_left ?_
      rintro rfl
      exact absurd (Bool.and_eq_true_iff.1 hl).1 (by decide)
    · cases h

/-- What is scanned over are letters and marks, so the lines of a word end in what is left. -/
theorem newline_mem_of_scanUnit {attached : Bool} {d : Char} (hd : Layer.keepsInMarks d = true)
    (h : scanUnit attached d w = some rest) (hw : '\n' ∈ w) : '\n' ∈ rest := by
  have hmark : isMark '\n' = false := by decide
  have hself : decide ('\n' = d) = false := by
    rw [decide_eq_false_iff_not]
    rintro rfl
    exact absurd hd (by decide)
  unfold scanUnit at h
  split at h
  · exact newline_mem_of_scanBare h hw
  split at h
  · rcases Option.or_eq_some_iff.1 h with h | ⟨_, h⟩
    · exact newline_mem_of_scanMarked hmark h hw
    · exact newline_mem_of_scanBare h hw
  split at h
  · exact newline_mem_of_scanMark hself h hw
  · exact newline_mem_of_scanMarked hself h hw

theorem newline_mem_of_scan {attached : Bool} {q : List Char}
    (hq : ∀ d ∈ q, Layer.keepsInMarks d = true) (h : scan attached q w = some rest)
    (hw : '\n' ∈ w) : '\n' ∈ rest := by
  induction q generalizing attached w with
  | nil => exact Option.some.inj h ▸ hw
  | cons d q ih =>
    obtain ⟨hd, hq⟩ := List.forall_mem_cons.1 hq
    obtain ⟨u, hu, hrest⟩ := Option.bind_eq_some_iff.1 h
    exact ih hq hrest (newline_mem_of_scanUnit hd hu hw)

/-- A longer query is scanned part by part. -/
theorem scan_append_eq_some {attached : Bool} {q q' : List Char}
    (h : scan attached (q ++ q') w = some rest) :
    ∃ u attached', scan attached q w = some u ∧ scan attached' q' u = some rest := by
  induction q generalizing attached w with
  | nil => exact ⟨w, attached, rfl, h⟩
  | cons d q ih =>
    obtain ⟨u, hu, hrest⟩ := Option.bind_eq_some_iff.1 h
    obtain ⟨v, attached', hv, hrest⟩ := ih hrest
    exact ⟨v, attached', Option.bind_eq_some_iff.2 ⟨u, hu, hv⟩, hrest⟩

theorem isSome_split?_iff {q : List Char} :
    (split? q w).isSome = true ↔ ∃ rest, scan false q w = some rest ∧ '\n' ∉ rest := by
  unfold split?
  cases scan false q w with
  | none => simp
  | some rest =>
    by_cases hline : '\n' ∈ rest <;> simp [hline]

/-- A word that a query marks is marked by every beginning of the query. -/
theorem isSome_split?_of_append {q q' : List Char} (hq' : ∀ d ∈ q', Layer.keepsInMarks d = true)
    (h : (split? (q ++ q') w).isSome = true) : (split? q w).isSome = true := by
  obtain ⟨rest, hscan, hline⟩ := isSome_split?_iff.1 h
  obtain ⟨u, _, hu, hrest⟩ := scan_append_eq_some hscan
  exact isSome_split?_iff.2 ⟨u, hu, fun hmem => hline (newline_mem_of_scan hq' hrest hmem)⟩

/-- A mark query with one more character occurs in no more words. -/
theorem countP_push_le {q : List Char} {c : Char} (hc : Layer.keepsInMarks c = true)
    (words : List (List Char)) :
    (words.countP fun w => (split? (q ++ [c]) w).isSome) ≤
      words.countP fun w => (split? q w).isSome :=
  List.countP_mono_left fun _ _ h =>
    isSome_split?_of_append (List.forall_mem_singleton.2 hc) h

end Marks

/-! ## Results -/

/-- The positions in the corpus of the verses that were found. -/
def Results.positions (r : Results) : List Nat := r.hits.map Hit.index

/-- A content query finds the verses that its pattern occurs in. -/
theorem mem_positions_ofContent {c : Corpus} {p : Pattern} {i : Nat} :
    i ∈ (Results.ofContent c p).positions ↔
      ∃ v n, c.verses[i]? = some v ∧ p.count v.text = .ok n ∧ 0 < n := by
  have hhits : (Results.ofContent c p).hits = hitsBy p.positiveCount? c.verses := rfl
  rw [Results.positions, hhits, List.mem_map]
  constructor
  · rintro ⟨hit, hmem, rfl⟩
    obtain ⟨v, hv, hcount⟩ := mem_hitsBy.1 hmem
    exact ⟨v, hit.occurrences, hv, Pattern.positiveCount?_eq_some_iff.1 hcount⟩
  · rintro ⟨v, n, hv, hcount⟩
    exact ⟨⟨i, n⟩, mem_hitsBy.2 ⟨v, hv, Pattern.positiveCount?_eq_some_iff.2 hcount⟩, rfl⟩

/-- A query finds the verse it occurs in if no verse is too much for it. -/
theorem find_of_count {l : Library} {layer : Layer} {c : Corpus} {v : Verse}
    {wildcard keyword : String} {p : Pattern} {i n : Nat} (hc : l.get? layer = some c)
    (hp : Pattern.compile wildcard layer keyword = .ok p)
    (hgiven : ∀ w ∈ c.verses, p.givesUp w.text = false) (hv : c.verses[i]? = some v)
    (hcount : p.count v.text = .ok n) (hpos : 0 < n) :
    ∃ r, l.find wildcard (.content layer keyword) = .ok r ∧ i ∈ r.positions :=
  ⟨_, Library.find_content_eq_ok_iff.2 ⟨_, p, hc, hp, hgiven, rfl⟩,
    mem_positions_ofContent.2 ⟨v, n, hv, hcount, hpos⟩⟩

/-- A query that occurs in the only verse of the corpus finds it. -/
theorem find_only_verse {l : Library} {v : Verse} {wildcard keyword : String} {p : Pattern} {n : Nat}
    (hc : l.get? .letters = some ⟨.letters, [v]⟩)
    (hp : Pattern.compile wildcard .letters keyword = .ok p) (hcount : p.count v.text = .ok n)
    (hpos : 0 < n) :
    ∃ r, l.find wildcard (.content .letters keyword) = .ok r ∧ 0 ∈ r.positions := by
  refine find_of_count hc hp (fun w hw => ?_) rfl hcount hpos
  rw [List.mem_singleton.1 hw]
  exact Pattern.givesUp_eq_false_iff.2 ⟨n, hcount⟩

/-- A content query is refused with its pattern. -/
theorem find_content_of_refused {l : Library} {c : Corpus} {wildcard : String} {layer : Layer}
    {keyword : String} {fault : ReadFault} (hc : l.get? layer = some c)
    (hp : Pattern.compile wildcard layer keyword = .error fault) :
    l.find wildcard (.content layer keyword) = .error (.pattern fault) := by
  have hrequire : l.require layer = .ok c := Library.require_eq_ok_iff.2 hc
  rw [Library.find, hrequire]
  simp only [hp]

/-- A validated letter query has no question mark. -/
theorem Letters.questionMark_not_mem {q : List Char}
    (hq : ∀ d ∈ q, Layer.keepsInLetters d = true ∨ d = ' ') : '?' ∉ q := by
  intro hmem
  exact absurd (hq _ hmem) (by decide)

/-- A letter query with one more character, searched for by its pattern, is found only in verses that
the query itself is found in, if no verse is too much for this. -/
theorem Letters.positions_subset_of_push {keyword : String} {c : Char} {corpus : Corpus}
    (hne : tokens (clean keyword.toList) ≠ [])
    (hgiven : ∀ v ∈ corpus.verses, (pattern keyword).givesUp v.text = false) :
    (Results.ofContent corpus (pattern (keyword.push c))).positions ⊆
      (Results.ofContent corpus (pattern keyword)).positions := by
  intro i hi
  obtain ⟨v, n', hv, hcount, hpos⟩ := mem_positions_ofContent.1 hi
  obtain ⟨n, hn⟩ := count_pos_of_push hne hcount hpos (hgiven v (List.mem_of_getElem? hv))
  exact mem_positions_ofContent.2 ⟨v, n, hv, hn⟩

/-- Typing on only narrows the results. A letter query with one more character finds, in every
library, only verses that the query itself finds, unless the query itself takes too much memory,
which takes more than 3000 characters, or is given up because a verse is too much for it. A mark query
with one more character occurs in every text at most as often as the query itself, and a text of up to
249 000 characters is not too much for either. -/
theorem narrows_push (keyword : String) (c : Char) :
    ((∀ d ∈ (keyword.push c).toList, Layer.keepsInLetters d = true ∨ d = ' ') →
      Letters.source Letters.nonConsonant.toList keyword.toList ≠ [] →
      ∀ (l : Library) (r' : Results),
        l.find Letters.nonConsonant (.content .letters (keyword.push c)) = .ok r' →
        (∃ r, l.find Letters.nonConsonant (.content .letters keyword) = .ok r ∧
          r'.positions ⊆ r.positions) ∨
        (l.find Letters.nonConsonant (.content .letters keyword) = .error (.pattern .tooLarge) ∧
          3000 < keyword.toList.length) ∨
        (l.find Letters.nonConsonant (.content .letters keyword) = .error .givenUp ∧
          l.GivesUp Letters.nonConsonant (.content .letters keyword))) ∧
    ((∀ d ∈ (keyword.push c).toList, Layer.keepsInMarks d = true) → keyword.toList ≠ [] →
      ∃ p p', Pattern.ofMarks keyword = .ok p ∧ Pattern.ofMarks (keyword.push c) = .ok p' ∧
        ∀ text : String,
          (∃ n n', p.count text = p.unlessGivenUp text n ∧
            p'.count text = p'.unlessGivenUp text n' ∧ n' ≤ n) ∧
          (text.toList.length ≤ 249000 → p.givesUp text = false ∧ p'.givesUp text = false)) := by
  have hpush : (keyword.push c).toList = keyword.toList ++ [c] := String.toList_push c
  constructor
  · intro hkept hsource l r' hfind
    have hmark' := Letters.questionMark_not_mem hkept
    have hmark : '?' ∉ keyword.toList := fun hmem => hmark' (by simp [hpush, hmem])
    have hne := Letters.tokens_ne_nil_of_source hsource
    have hne' : Letters.tokens (Letters.clean (keyword.push c).toList) ≠ [] := by
      rw [hpush]
      exact Letters.tokens_clean_append_ne_nil c hne
    obtain ⟨corpus, p', hcorpus, hp', _, rfl⟩ := Library.find_content_eq_ok_iff.1 hfind
    obtain rfl : p' = Letters.pattern (keyword.push c) := by
      rw [Pattern.compile, Letters.ofLetters_eq hmark' hne'] at hp'
      split at hp' <;> cases hp'
      rfl
    have hcompile := Letters.ofLetters_eq hmark hne
    by_cases hfits : (Letters.expression (Letters.tokens (Letters.clean keyword.toList))).fits = true
    · rw [if_pos hfits] at hcompile
      cases hq : l.find Letters.nonConsonant (.content .letters keyword) with
      | ok r =>
        left
        obtain ⟨corpus', p, hcorpus', hp, hall, rfl⟩ := Library.find_content_eq_ok_iff.1 hq
        cases hcorpus.symm.trans hcorpus'
        cases hcompile.symm.trans hp
        exact ⟨_, rfl, Letters.positions_subset_of_push hne hall⟩
      | error fault =>
        right
        right
        rcases (Library.find_content_eq_error_iff hcorpus).1 hq with ⟨_, hno, _⟩ | ⟨rfl, hgiven⟩
        · cases hcompile.symm.trans hno
        · exact ⟨rfl, hgiven⟩
    · refine .inr (.inl ⟨?_, Nat.lt_of_not_le fun hshort => hfits (Letters.fits_of_length_le hshort)⟩)
      exact find_content_of_refused hcorpus (hcompile.trans (if_neg hfits))
  · intro hkept hne
    have hkeyword : ∀ d ∈ keyword.toList, Layer.keepsInMarks d = true := fun d hd =>
      hkept d (by simp [hpush, hd])
    have hne' : (keyword.push c).toList ≠ [] := by simp [hpush]
    refine ⟨_, _, Marks.ofMarks_eq_ok hne hkeyword, Marks.ofMarks_eq_ok hne' hkept, fun text =>
      ⟨⟨_, _, Marks.count_pattern hne hkeyword text, Marks.count_pattern hne' hkept text, ?_⟩,
        fun htext => ⟨Marks.givesUp_pattern hne hkeyword htext,
          Marks.givesUp_pattern hne' hkept htext⟩⟩⟩
    rw [hpush]
    exact Marks.countP_push_le (hkept c (by simp [hpush])) _

/-- Alef and lam with another lam, which makes them an article, and a fatha with a shadda. -/
theorem narrows_article_and_shadda :
    (∀ (l : Library) (r' : Results),
      l.find Letters.nonConsonant (.content .letters ("\u0627\u0644".push '\u0644')) = .ok r' →
      ∃ r, l.find Letters.nonConsonant (.content .letters "\u0627\u0644") = .ok r ∧
        r'.positions ⊆ r.positions) ∧
    ∃ p p', Pattern.ofMarks "\u064E" = .ok p ∧ Pattern.ofMarks ("\u064E".push '\u0651') = .ok p' ∧
      ∃ n n', p.count "\u0631\u064E\u0628\u0651" = .ok n ∧
        p'.count "\u0631\u064E\u0628\u0651" = .ok n' ∧ n' ≤ n := by
  have hletters : ∀ d ∈ ("\u0627\u0644".push '\u0644').toList,
      Layer.keepsInLetters d = true ∨ d = ' ' := by
    intro d hd
    left
    exact List.all_eq_true.1 (show List.all _ Layer.keepsInLetters = true by decide) d hd
  constructor
  · intro l r' hfind
    rcases (narrows_push "\u0627\u0644" '\u0644').1 hletters (by decide) l r' hfind with
      hr | ⟨_, hlarge⟩ | ⟨_, _, _, c, p, hq, _, hp, v, _, hgiven⟩
    · exact hr
    · exact absurd hlarge (by decide)
    · -- neither letter looks at what follows
      cases hq
      have hmark : '?' ∉ "\u0627\u0644".toList := by decide
      rcases Letters.ofLetters_eq_pattern_or hmark (by decide) with hcompile | ⟨_, hlong⟩
      · cases hp.symm.trans hcompile
        rw [Pattern.givesUp_of_isRegular (Letters.matchers_pattern _) (by decide)] at hgiven
        cases hgiven
      · exact absurd hlong (by decide)
  · obtain ⟨p, p', hp, hp', hcounts⟩ :=
      (narrows_push "\u064E" '\u0651').2 (List.all_eq_true.1 (by decide)) (by decide)
    obtain ⟨⟨n, n', hn, hn', hle⟩, hshort⟩ := hcounts "\u0631\u064E\u0628\u0651"
    obtain ⟨hgiven, hgiven'⟩ := hshort (by decide)
    rw [Pattern.unlessGivenUp_of_false hgiven] at hn
    rw [Pattern.unlessGivenUp_of_false hgiven'] at hn'
    exact ⟨p, p', hp, hp', n, n', hn, hn', hle⟩

/-! ### A query that is refused -/

section Maddas

variable {n : Nat} {keyword : String} {l : Library} {c : Corpus}

/-- From 6000 on, alef maddas find no verse. -/
theorem find_maddas (hkeyword : keyword.toList = Letters.maddas n) (h : 6000 ≤ n)
    (hc : l.get? .letters = some c) :
    l.find Letters.nonConsonant (.content .letters keyword) = .error (.pattern .tooLarge) :=
  find_content_of_refused hc (Letters.ofLetters_maddas hkeyword h)

/-- With a yeh behind them they find themselves. -/
theorem find_maddas_yeh (hkeyword : keyword.toList = Letters.maddas n ++ ['\u064A'])
    (hn : 2 * n + 2 ≤ tryLimit) {v : Verse} (htext : v.text = keyword)
    (hc : l.get? .letters = some ⟨.letters, [v]⟩) :
    ∃ r, l.find Letters.nonConsonant (.content .letters keyword) = .ok r ∧ 0 ∈ r.positions := by
  have hcompile : Pattern.compile Letters.nonConsonant .letters keyword =
      .ok (Letters.pattern keyword) := Letters.ofLetters_maddas_yeh hkeyword
  have hcount : (Letters.pattern keyword).count v.text = .ok 1 := by
    rw [htext]
    exact Letters.count_maddas_yeh hkeyword hn
  exact find_only_verse hc hcompile hcount Nat.one_pos

end Maddas

/-! ### A query that is given up -/

namespace Letters

/-- A yeh and 20 fathas, and behind them a tatweel and 19 fathas and a beh. -/
def fathasThenBeh : List Char := yehFathas 20 ++ (tatweelFathas 19 ++ ['\u0628'])

variable {keyword text : String}

theorem tokens_clean_yehFathas_beh : tokens (clean (yehFathas 20 ++ ['\u0628'])) =
    .family .yeh :: (List.replicate 20 (.letter '\u064E') ++ [.letter '\u0628']) := by
  decide +kernel

/-- With a beh behind them a yeh and fathas are a query. -/
theorem ofLetters_yehFathas_beh (hkeyword : keyword.toList = yehFathas 20 ++ ['\u0628']) :
    Pattern.ofLetters nonConsonant keyword = .ok (pattern keyword) := by
  have htokens := tokens_clean_yehFathas_beh
  have hmark : '?' ∉ yehFathas 20 ++ ['\u0628'] := by decide
  have hne : tokens (clean (yehFathas 20 ++ ['\u0628'])) ≠ [] := by simp [htokens]
  rw [← hkeyword] at htokens hmark hne
  rw [ofLetters_eq hmark hne, htokens, if_pos (Regex.fits_of_not_isRegular (by decide))]

/-- With the beh the query is found at once, and its last wildcard passes the fewer fathas. -/
theorem count_fathas_beh (hkeyword : keyword.toList = yehFathas 20 ++ ['\u0628'])
    (htext : text.toList = fathasThenBeh) : (pattern keyword).count text = .ok 1 := by
  let r := expression (.family .yeh :: (List.replicate 20 (.letter '\u064E') ++ [.letter '\u0628']))
  have hfound : r.explore .found (.start fathasThenBeh) tryLimit =
      .found ⟨[], [], 0, rfl⟩ (tryLimit - 22) := by decide +kernel
  have hcut := Regex.cut?_eq_of_found (r := r) (by decide) (by decide) hfound rfl
    (failsAfter_yeh_of_end _ rfl) (by decide)
  rw [← htext] at hcut
  have hr : r = expression (tokens (clean keyword.toList)) := by
    rw [hkeyword, tokens_clean_yehFathas_beh]
  rw [hr] at hcut
  exact Pattern.count_of_cut?_eq_some (matchers_pattern keyword) hcut

/-- Without it the query is found once, and then the tatweel is tried. -/
theorem givesUp_fathasThenBeh (hkeyword : keyword.toList = yehFathas 20)
    (htext : text.toList = fathasThenBeh) : (pattern keyword).givesUp text = true := by
  let r := expression (.family .yeh :: List.replicate 20 (.letter '\u064E'))
  let behind : Place := ⟨tatweelFathas 19 ++ ['\u0628'], [], 21, rfl⟩
  have hfound : r.explore .found (.start fathasThenBeh) tryLimit =
      .found behind (tryLimit - 2) := by decide +kernel
  have hbehind : cutBy (r.explore .found) true tryLimit behind = none :=
    cutBy_eq_none (failsAfter_yehFathas (by decide) (by decide) (by simp; decide) rfl) true (by decide)
  have hcut : r.cut? fathasThenBeh = none := by
    rw [Regex.cut?, isRegular_yehFathas, if_neg Bool.false_ne_true, cutBy_eq, hfound]
    show (if behind.left < (Place.start fathasThenBeh).left then
      (cutBy (r.explore .found) true tryLimit behind).map _ else _) = none
    rw [if_pos (by decide), hbehind]
    rfl
  rw [Pattern.givesUp, matchers_pattern, hkeyword, tokens_clean_yehFathas]
  rw [← htext] at hcut
  exact Option.isNone_iff_eq_none.2 hcut

end Letters

/-- A query that is refused, or given up, may find something with one more character. -/
theorem not_narrows_refused_or_given_up :
    (let keyword := String.ofList (Letters.maddas 6000)
      let verse : Verse := ⟨keyword.push '\u064A', 1, 1, "\u0633"⟩
      let l : Library := { directory := "data", letters := some ⟨.letters, [verse]⟩ }
      (∀ d ∈ (keyword.push '\u064A').toList, Layer.keepsInLetters d = true) ∧
        Letters.source Letters.nonConsonant.toList keyword.toList ≠ [] ∧
        (∃ r, l.find Letters.nonConsonant (.content .letters (keyword.push '\u064A')) = .ok r ∧
          0 ∈ r.positions) ∧
        l.find Letters.nonConsonant (.content .letters keyword) = .error (.pattern .tooLarge)) ∧
    (let keyword := String.ofList (Letters.yehFathas 20)
      let verse : Verse := ⟨String.ofList Letters.fathasThenBeh, 1, 1, "\u0633"⟩
      let l : Library := { directory := "data", letters := some ⟨.letters, [verse]⟩ }
      (∀ d ∈ (keyword.push '\u0628').toList, Layer.keepsInLetters d = true) ∧
        Letters.source Letters.nonConsonant.toList keyword.toList ≠ [] ∧
        (∃ r, l.find Letters.nonConsonant (.content .letters (keyword.push '\u0628')) = .ok r ∧
          0 ∈ r.positions) ∧
        l.find Letters.nonConsonant (.content .letters keyword) = .error .givenUp) := by
  constructor
  · intro keyword verse l
    have hkeyword : keyword.toList = Letters.maddas 6000 := String.toList_ofList
    have hpush : (keyword.push '\u064A').toList = Letters.maddas 6000 ++ ['\u064A'] := by
      rw [String.toList_push, hkeyword]
    have hcorpus : l.get? .letters = some ⟨.letters, [verse]⟩ := rfl
    have htext : verse.text = keyword.push '\u064A' := by rfl
    have htries : 2 * 6000 + 2 ≤ tryLimit := by decide
    refine ⟨fun d hd => ?_, Letters.source_ne_nil ?_, find_maddas_yeh hpush htries htext hcorpus,
      find_maddas hkeyword (Nat.le_refl 6000) hcorpus⟩
    · rw [hpush] at hd
      rcases Letters.mem_maddas_yeh hd with rfl | rfl <;> decide
    · rw [hkeyword, Letters.tokens_clean_maddas, Ne, List.replicate_eq_nil_iff]
      decide
  · intro keyword verse l
    have hkeyword : keyword.toList = Letters.yehFathas 20 := String.toList_ofList
    have hverse : verse.text.toList = Letters.fathasThenBeh := String.toList_ofList
    have hpush : (keyword.push '\u0628').toList = Letters.yehFathas 20 ++ ['\u0628'] := by
      rw [String.toList_push, hkeyword]
    have hne : Letters.tokens (Letters.clean keyword.toList) ≠ [] := by
      rw [hkeyword, Letters.tokens_clean_yehFathas]
      exact List.cons_ne_nil _ _
    refine ⟨?_, Letters.source_ne_nil hne, ?_, ?_⟩
    · rw [hpush]
      exact List.all_eq_true.1 (by decide)
    · have hcompile : Pattern.compile Letters.nonConsonant .letters (keyword.push '\u0628') =
          .ok (Letters.pattern (keyword.push '\u0628')) := Letters.ofLetters_yehFathas_beh hpush
      exact find_only_verse rfl hcompile (Letters.count_fathas_beh hpush hverse) Nat.one_pos
    · have hcompile : Pattern.compile Letters.nonConsonant .letters keyword =
          .ok (Letters.pattern keyword) := Letters.ofLetters_yehFathas hkeyword
      exact (Library.find_content_eq_error_iff rfl).2 (.inr ⟨rfl, .letters, keyword, _, _, rfl, rfl,
        hcompile, verse, List.mem_cons_self, Letters.givesUp_fathasThenBeh hkeyword hverse⟩)

end VerseSearch
