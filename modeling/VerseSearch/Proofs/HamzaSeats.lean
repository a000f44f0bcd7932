import VerseSearch.Proofs.LargeQueries
import VerseSearch.Search.Find

/-!
# Queries that compile to one expression

Two letter queries compile to one expression exactly if they are the same once each hamza is taken
off its seat (`expression_identifies_seats`). One half is that no step of the compiler looks at the
seat of a hamza (`clean_map_unseat`, `tokens_map_unseat`). The other half is that nothing else is
lost: the tokens give the letters back (`flatMap_letters_tokens`), and the text of an expression can
be cut into the texts of its tokens in one way only (`emit_injective`), since the text of a token
with the wildcard behind it is never the beginning of that of another one
(`Token.prefixFree_source`).
-/

set_option autoImplicit false

namespace VerseSearch.Letters

/-! ## Hamza seats -/

/-- The ways to type a hamza. -/
def hamzas : List Char := ['\u0621', '\u0623', '\u0624', '\u0626']

/-- A hamza on an alef, a waw or a yeh becomes one on its own. -/
def unseat (c : Char) : Char := if c ∈ hamzas then '\u0621' else c

variable {c d : Char} {q : List Char}

theorem unseat_eq_iff (hd : d ∉ hamzas) : unseat c = d ↔ c = d := by
  unfold unseat
  split
  · rename_i hc
    refine iff_of_false ?_ ?_ <;> rintro rfl
    · exact hd (by decide)
    · exact hd hc
  · exact Iff.rfl

theorem unseat_of_not_mem (hc : c ∉ hamzas) : unseat c = c := if_neg hc

/-- Taking hamzas off their seats does not bring a text without hamzas to the front. -/
theorem map_unseat_ne_append {p : List Char} (hp : p.all (fun c => decide (c ∉ hamzas)) = true)
    (h : ∀ r, q ≠ p ++ r) (r : List Char) : q.map unseat ≠ p ++ r := by
  induction p generalizing q with
  | nil => exact absurd rfl (h q)
  | cons d p ih =>
    obtain ⟨hd, hrest⟩ := Bool.and_eq_true_iff.1 hp
    intro heq
    obtain ⟨c, q', rfl, hc, hq'⟩ := List.map_eq_cons_iff.1 heq
    obtain rfl := (unseat_eq_iff (of_decide_eq_true hd)).1 hc
    exact ih hrest (fun r' hr' => h r' (by rw [hr', List.cons_append])) hq'

theorem contains_signs_unseat (c : Char) : signs.contains (unseat c) = signs.contains c := by
  have hnone : hamzas.all (fun c => !signs.contains c) = true := by decide
  unfold unseat
  split
  · rename_i hc
    have hsign := List.all_eq_true.1 hnone c hc
    rw [Bool.not_eq_true'] at hsign
    rw [hsign]
    decide
  · rfl

theorem isVowel_unseat (c : Char) : isVowel (unseat c) = isVowel c := by
  rw [Bool.eq_iff_iff]
  simp [isVowel, unseat_eq_iff, hamzas]

theorem precedesVowel_unseat (c : Char) : precedesVowel (unseat c) = precedesVowel c := by
  rw [Bool.eq_iff_iff]
  simp [precedesVowel, unseat_eq_iff, hamzas]

theorem stripSigns_map_unseat (q : List Char) :
    stripSigns (q.map unseat) = (stripSigns q).map unseat := by
  simp only [stripSigns, List.filter_map, Function.comp_def, contains_signs_unseat]

theorem reorderMarks_map_unseat (q : List Char) :
    reorderMarks (q.map unseat) = (reorderMarks q).map unseat := by
  fun_induction reorderMarks q with
  | case1 => rfl
  | case2 c => rfl
  | case3 v m r h ih =>
    rw [List.map_cons, List.map_cons, reorderMarks, isVowel_unseat, precedesVowel_unseat, if_pos h,
      ih, List.map_cons, List.map_cons]
  | case4 v m r h ih =>
    rw [List.map_cons, List.map_cons, reorderMarks, isVowel_unseat, precedesVowel_unseat, if_neg h,
      ← List.map_cons, ih, List.map_cons]

theorem foldInner_map_unseat (q : List Char) :
    foldInner (q.map unseat) = (foldInner q).map unseat := by
  fun_induction foldInner q with
  | case1 r ih => exact congrArg (fun s => ' ' :: '\u064A' :: '\u0627' :: s) ih
  | case2 r ih => exact congrArg (fun s => ' ' :: '\u0648' :: '\u064A' :: '\u0627' :: s) ih
  | case3 c r hya hwaya ih =>
    rw [List.map_cons, foldInner, ih, List.map_cons]
    · intro r' hc
      obtain rfl := (unseat_eq_iff (by decide)).1 hc
      exact map_unseat_ne_append (p := ['\u064A', '\u0627', ' ']) (by decide)
        (fun r'' => hya r'' rfl) r'
    · intro r' hc
      obtain rfl := (unseat_eq_iff (by decide)).1 hc
      exact map_unseat_ne_append (p := ['\u0648', '\u064A', '\u0627', ' ']) (by decide)
        (fun r'' => hwaya r'' rfl) r'
  | case4 => rfl

theorem foldLeading_map_unseat (q : List Char) :
    foldLeading (q.map unseat) = (foldLeading q).map unseat := by
  fun_cases foldLeading q with
  | case1 r => rfl
  | case2 r => rfl
  | case3 _ hya hwaya =>
    rw [foldLeading]
    · exact map_unseat_ne_append (p := ['\u064A', '\u0627', ' ']) (by decide) hya
    · exact map_unseat_ne_append (p := ['\u0648', '\u064A', '\u0627', ' ']) (by decide) hwaya

/-- Cleaning does not look at the seats. -/
theorem clean_map_unseat (q : List Char) : clean (q.map unseat) = (clean q).map unseat := by
  rw [clean, stripSigns_map_unseat, reorderMarks_map_unseat, foldVocative, foldInner_map_unseat,
    foldLeading_map_unseat]
  rfl

theorem ofLetter_unseat (c : Char) : Token.ofLetter (unseat c) = Token.ofLetter c := by
  by_cases hc : c ∈ hamzas
  · simp only [hamzas, List.mem_cons, List.not_mem_nil, or_false] at hc
    rcases hc with rfl | rfl | rfl | rfl <;> decide
  · rw [unseat_of_not_mem hc]

/-- A query has the same tokens with and without seats. -/
theorem tokens_map_unseat (q : List Char) : tokens (q.map unseat) = tokens q := by
  fun_induction tokens q with
  | case1 r ih => exact congrArg (Token.family .articleRelative :: ·) ih
  | case2 r ih => exact congrArg (Token.family .articleLam :: ·) ih
  | case3 c r hrelative hlam ih =>
    rw [List.map_cons, tokens, ih, ofLetter_unseat]
    · intro r' hc
      obtain rfl := (unseat_eq_iff (by decide)).1 hc
      exact map_unseat_ne_append (p := ['\u0644', '\u0630']) (by decide)
        (fun r'' => hrelative r'' rfl) r'
    · intro r' hc
      obtain rfl := (unseat_eq_iff (by decide)).1 hc
      exact map_unseat_ne_append (p := ['\u0644', '\u0644']) (by decide)
        (fun r'' => hlam r'' rfl) r'
  | case4 => rfl

/-! ## The letters of tokens -/

/-- The letters of a query that the token is written for. -/
def Token.letters : Token → List Char
  | .letter c => [c]
  | .family f => f.letters

theorem letters_ofLetter (c : Char) : (Token.ofLetter c).letters = [unseat c] := by
  unfold Token.ofLetter
  split
  · rename_i f hf
    unfold Family.ofLetter? at hf
    split at hf <;> cases hf <;> rfl
  · rename_i hf
    have hc : c ∉ hamzas := by
      intro hc
      simp only [hamzas, List.mem_cons, List.not_mem_nil, or_false] at hc
      rcases hc with rfl | rfl | rfl | rfl <;> cases hf
    rw [unseat_of_not_mem hc]
    rfl

/-- The tokens give the letters of the query back, each hamza without its seat. -/
theorem flatMap_letters_tokens (q : List Char) :
    (tokens q).flatMap Token.letters = q.map unseat := by
  fun_induction tokens q with
  | case1 r ih => exact congrArg (fun s => '\u0627' :: '\u0644' :: '\u0630' :: s) ih
  | case2 r ih => exact congrArg (fun s => '\u0627' :: '\u0644' :: '\u0644' :: s) ih
  | case3 c r _ _ ih =>
    rw [List.flatMap_cons, letters_ofLetter, ih, List.map_cons, List.singleton_append]
  | case4 => rfl

/-- Two queries have the same tokens exactly if they are the same without seats. -/
theorem tokens_eq_iff {q q' : List Char} :
    tokens q = tokens q' ↔ q.map unseat = q'.map unseat := by
  constructor
  · intro h
    rw [← flatMap_letters_tokens, h, flatMap_letters_tokens]
  · intro h
    rw [← tokens_map_unseat q, h, tokens_map_unseat]

/-! ## The texts of tokens -/

/-- The token stands for a family, or for a letter that is no sign. -/
def Token.IsClean (t : Token) : Prop := ∀ c, t = .letter c → c ∉ signs

/-- The text of a family in an expression can be told by its first six characters. -/
theorem Family.eq_of_take {f g : Family}
    (h : (f.expansion.toList ++ nonConsonant.toList).take 6 =
      (g.expansion.toList ++ nonConsonant.toList).take 6) : f = g := by
  cases f <;> cases g <;> first | rfl | exact absurd h (by decide)

/-- A family is not written like a letter: its text begins with a sign, or it does not go on with
the wildcard. -/
theorem Family.source_ne_letter (f : Family) (hc : c ∉ signs) (r r' : List Char) :
    f.expansion.toList ++ nonConsonant.toList ++ r ≠ c :: (nonConsonant.toList ++ r') := by
  have hstart : ∃ a b s, f.expansion.toList ++ nonConsonant.toList = a :: b :: s ∧
      (a ∈ signs ∨ b ≠ '[') := by
    cases f <;> exact ⟨_, _, _, rfl, by decide⟩
  obtain ⟨a, b, s, hs, hab⟩ := hstart
  intro h
  rw [hs] at h
  obtain ⟨rfl, hrest⟩ := List.cons.inj h
  exact hab.elim hc fun hb => hb (List.cons.inj hrest).1

/-- The text of a token with the wildcard behind it tells the token, whatever comes after it. -/
theorem Token.prefixFree_source {t t' : Token} (ht : t.IsClean) (ht' : t'.IsClean)
    {r r' : List Char} (h : t.source ++ nonConsonant.toList ++ r =
      t'.source ++ nonConsonant.toList ++ r') : t = t' ∧ r = r' := by
  cases t with
  | letter c =>
    cases t' with
    | letter d =>
      obtain ⟨rfl, hrest⟩ := List.cons.inj h
      exact ⟨rfl, List.append_cancel_left hrest⟩
    | family g => exact absurd h.symm (g.source_ne_letter (ht c rfl) r' r)
  | family f =>
    cases t' with
    | letter d => exact absurd h (f.source_ne_letter (ht' d rfl) r r')
    | family g =>
      have hlong (f : Family) : 6 ≤ (f.expansion.toList ++ nonConsonant.toList).length := by
        cases f <;> decide
      rw [Token.source, Token.source] at h
      have htake := congrArg (List.take 6) h
      rw [List.take_append_of_le_length (hlong f), List.take_append_of_le_length (hlong g)] at htake
      obtain rfl := Family.eq_of_take htake
      exact ⟨rfl, List.append_cancel_left h⟩

theorem emit_injective {ts ts' : List Token} (hts : ∀ t ∈ ts, t.IsClean)
    (hts' : ∀ t ∈ ts', t.IsClean)
    (h : emit nonConsonant.toList (segments ts) = emit nonConsonant.toList (segments ts')) :
    ts = ts' := by
  have hnil (t : Token) (r : List Char) : t.source ++ nonConsonant.toList ++ r ≠ [] := by
    have hwild : nonConsonant.toList ≠ [] := by decide
    simp [hwild]
  rw [emit_eq_flatMap, emit_eq_flatMap] at h
  induction ts generalizing ts' with
  | nil =>
    cases ts' with
    | nil => rfl
    | cons t' ts' => exact absurd h.symm (hnil t' _)
  | cons t ts ih =>
    cases ts' with
    | nil => exact absurd h (hnil t _)
    | cons t' ts' =>
      obtain ⟨ht, htail⟩ := List.forall_mem_cons.1 hts
      obtain ⟨ht', htail'⟩ := List.forall_mem_cons.1 hts'
      rw [List.flatMap_cons, List.flatMap_cons] at h
      obtain ⟨rfl, hrest⟩ := Token.prefixFree_source ht ht' h
      rw [ih htail htail' hrest]

/-- Cleaning leaves clean tokens. -/
theorem isClean_of_mem_tokens {q : List Char} {t : Token} (h : t ∈ tokens (clean q)) :
    t.IsClean := by
  rintro c rfl
  exact (mem_of_mem_clean (mem_of_letter_mem_tokens h)).2

theorem source_eq_iff {q q' : List Char} :
    source nonConsonant.toList q = source nonConsonant.toList q' ↔
      (clean q).map unseat = (clean q').map unseat := by
  rw [← tokens_eq_iff]
  constructor
  · intro h
    exact emit_injective (fun t => isClean_of_mem_tokens) (fun t => isClean_of_mem_tokens) h
  · intro h
    rw [source, source, h]

/-- The compiler identifies exactly the queries that differ in the seats of their hamzas. Two
queries have one expression if and only if they are, cleaned, the same without seats. So queries
that are the same without seats compile to the same, and find the same in every library; and patterns
are the same for no other two cleaned queries. -/
theorem expression_identifies_seats (k k' : String) :
    (source nonConsonant.toList k.toList = source nonConsonant.toList k'.toList ↔
      (clean k.toList).map unseat = (clean k'.toList).map unseat) ∧
    (k.toList.map unseat = k'.toList.map unseat →
      Pattern.ofLetters nonConsonant k = Pattern.ofLetters nonConsonant k' ∧
      ∀ l : Library, l.find nonConsonant (.content .letters k) =
        l.find nonConsonant (.content .letters k')) ∧
    ∀ p p', Pattern.ofLetters nonConsonant k = .ok p → Pattern.ofLetters nonConsonant k' = .ok p' →
      (p.same p' = true ↔ (clean k.toList).map unseat = (clean k'.toList).map unseat) := by
  refine ⟨source_eq_iff, fun h => ?_, fun p p' hp hp' => ?_⟩
  · have hsource : source nonConsonant.toList k.toList = source nonConsonant.toList k'.toList := by
      rw [source_eq_iff, ← clean_map_unseat, h, clean_map_unseat]
    have hpattern : Pattern.ofLetters nonConsonant k = Pattern.ofLetters nonConsonant k' := by
      rw [Pattern.ofLetters, Pattern.ofLetters, hsource]
    refine ⟨hpattern, fun l => ?_⟩
    simp only [Library.find, Pattern.compile, hpattern]
  · obtain ⟨hs, hkind⟩ := Pattern.source_of_build hp
    obtain ⟨hs', hkind'⟩ := Pattern.source_of_build hp'
    rw [Pattern.same, hs, hs', hkind, hkind', ← source_eq_iff]
    simp [String.ofList_inj]

/-- A seen, a hamza and a lam have one pattern with the hamza on an alef and on a yeh. -/
theorem identifies_seats_of_ask :
    let p := pattern "\u0633\u0623\u0644"
    let p' := pattern "\u0633\u0626\u0644"
    Pattern.ofLetters nonConsonant "\u0633\u0623\u0644" = .ok p ∧
      Pattern.ofLetters nonConsonant "\u0633\u0626\u0644" = .ok p' ∧
      Pattern.ofLetters nonConsonant "\u0633\u0623\u0644" =
        Pattern.ofLetters nonConsonant "\u0633\u0626\u0644" ∧
      p.same p' = true := by
  intro p p'
  have hp : Pattern.ofLetters nonConsonant "\u0633\u0623\u0644" = .ok p :=
    (ofLetters_eq (by decide) (by decide)).trans (if_pos (fits_of_length_le (by decide)))
  have hp' : Pattern.ofLetters nonConsonant "\u0633\u0626\u0644" = .ok p' :=
    (ofLetters_eq (by decide) (by decide)).trans (if_pos (fits_of_length_le (by decide)))
  obtain ⟨-, hequal, hsame⟩ := expression_identifies_seats "\u0633\u0623\u0644"
    "\u0633\u0626\u0644"
  exact ⟨hp, hp', (hequal (by decide)).1, (hsame p p' hp hp').2 (by decide)⟩

end VerseSearch.Letters
