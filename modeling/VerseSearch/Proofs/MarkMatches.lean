import VerseSearch.Proofs.Words

/-!
# What a mark query matches

A word of a verse is an occurrence of a mark query exactly if the scan of the query finds its marks
at the beginning of the word, with no line feed behind them (`findsWords_wordItems`). The groups then
hold the beginning of the word and the rest of it.
-/

set_option autoImplicit false

namespace VerseSearch.Marks

/-! ## The expression -/

/-- The rest of a word, up to the next space. -/
def tail : Regex := .concat [.star false (.one .notNewline), .look true (.letter ' ')]

/-- A space, the marks of the query and the rest of the word, where `n` groups are numbered
before. -/
def wordItems (n : Nat) (q : List Char) : List Regex :=
  [.letter ' ', .group (n + 1) (.concat (items (n + 1) false q)), .group (n + 2 + q.count '+') tail]

variable {q : List Char} {n : Nat}

theorem ne_placeholder (hq : ∀ c ∈ q, Layer.keepsInMarks c = true) : ∀ c ∈ q, c ≠ placeholder := by
  rintro c hc rfl
  exact absurd (hq _ hc) (by decide)

/-- The text of a query is read as the items of a word. -/
theorem reads_source (hne : q ≠ []) (hq : ∀ c ∈ q, Layer.keepsInMarks c = true) (n : Nat) :
    Reads 3 n (source q) (wordItems n q) (n + 2 + q.count '+') ∧ StartsItem (source q) := by
  rw [source_eq_units hne (ne_placeholder hq)]
  refine ⟨?_, startsItem_cons (by decide) _⟩
  obtain ⟨hunits, hstarts⟩ := reads_units hq (n + 1) false
  have hbody := hunits.choices.capture (List.cons_ne_nil _ _) hstarts
  have hrest := (readsItem_dot (n := n + 1 + q.count '+' + 1)).lazy rfl
  have hahead := (readsItem_letter (n := n + 1 + q.count '+' + 1) (c := ' ') (by decide)).reads
  have hlook := (hahead.choices.look (List.cons_ne_nil _ _)).reads
  have htail := ((hrest.mono (by decide)).append hlook (startsItem_cons (by decide) _)).choices
  have hgroup := htail.capture (List.cons_ne_nil _ _) (startsItem_cons (by decide) _)
  have hnumber : n + 1 + q.count '+' + 1 = n + 2 + q.count '+' := by omega
  have hspace := (readsItem_letter (n := n) (c := ' ') (by decide)).reads
  have hall := (hspace.mono (by decide)).append
    (hbody.reads.append (hgroup.reads.mono (by decide)) (startsItem_cons (by decide) _))
    (startsItem_cons (by decide) _)
  have htext : wrapWord (units consonant.toList false q) =
      [' '] ++ ('(' :: units consonant.toList false q ++ [')'] ++
        ('(' :: (['.', '*', '?'] ++ ['(', '?', '=', ' ', ')']) ++ [')'])) := by
    simp [wrapWord]
  rw [hnumber] at hall
  rw [htext]
  exact hall

/-! ## Matches -/

theorem rests_letter_cons (a c : Char) (s : List Char) :
    (Regex.letter a).rests (c :: s) = if c = a then [s] else [] := by
  simp [Regex.letter]

theorem rests_look_space (c : Char) (s : List Char) :
    (Regex.look true (.letter ' ')).rests (c :: s) = if c = ' ' then [c :: s] else [] := by
  rw [Regex.rests_look, rests_letter_cons]
  by_cases hc : c = ' ' <;> simp [hc]

variable {w more first rest : List Char}

/-- The rest of a word is passed unless a line ends in it. -/
theorem head?_rests_tail (hw : ' ' ∉ w) (more : List Char) :
    (tail.rests (w ++ ' ' :: more)).head? = if '\n' ∈ w then none else some (' ' :: more) := by
  have htail : ∀ s, tail.rests s = ((Regex.star false (.one .notNewline)).rests s).flatMap
      (Regex.look true (.letter ' ')).rests := fun s => Regex.rests_seq
  rw [htail]
  induction w with
  | nil =>
    rw [Regex.rests_star]
    show (List.flatMap _ ((' ' :: more) :: _)).head? = _
    rw [List.flatMap_cons, rests_look_space, if_pos rfl]
    rfl
  | cons c w ih =>
    obtain ⟨hc, hw⟩ := not_or.1 fun hmem => hw (List.mem_cons.2 hmem)
    rw [Regex.rests_star]
    show (List.flatMap _ ((c :: (w ++ ' ' :: more)) :: _)).head? = _
    rw [List.flatMap_cons, rests_look_space, if_neg (Ne.symm hc), List.nil_append]
    by_cases hline : c = '\n'
    · simp [hline]
    · have hmem : '\n' ∈ c :: w ↔ '\n' ∈ w := by simp [Ne.symm hline]
      simp only [List.cons_append, Regex.rests_one_cons, CharSet.contains_notNewline, hline,
        decide_false, Bool.not_false, if_true, List.flatMap_singleton, List.length_cons,
        Nat.lt_succ_self, hmem]
      exact ih hw

/-- What a word of the query leaves, without the groups. -/
theorem rests_wordItems (hq : ∀ c ∈ q, Layer.keepsInMarks c = true) (w more : List Char) :
    (Regex.concat (wordItems n q)).rests (' ' :: (w ++ ' ' :: more)) =
      (behind more (scan false q w)).flatMap tail.rests := by
  rw [wordItems, Regex.rests_concat_cons, rests_letter_cons, if_pos rfl, List.flatMap_singleton,
    Regex.rests_concat_cons, Regex.rests_group, rests_items hq]
  exact congrArg (fun f => List.flatMap f _) (funext fun s => Regex.rests_group _)

/-- No match begins where there is no space. -/
theorem matchAt?_elsewhere {p : Place} (h : p.rest.head? ≠ some ' ') :
    (Regex.concat (wordItems n q)).matchAt? p = none := by
  refine Regex.matchAt?_eq_none ?_
  rw [wordItems, Regex.rests_concat_cons]
  cases hp : p.rest with
  | nil => rfl
  | cons c s =>
    have hc : c ≠ ' ' := by
      rintro rfl
      exact h (by rw [hp]; rfl)
    rw [rests_letter_cons, if_neg hc]
    rfl

/-- No match begins at the last space. -/
theorem matchAt?_lastSpace (hne : q ≠ []) {p : Place} (h : p.rest = [' ']) :
    (Regex.concat (wordItems n q)).matchAt? p = none := by
  refine Regex.matchAt?_eq_none ?_
  rw [h, wordItems, Regex.rests_concat_cons, rests_letter_cons, if_pos rfl, List.flatMap_singleton,
    Regex.rests_concat_cons, Regex.rests_group, rests_items_nil hne]
  rfl

/-- No match begins at a word that is not marked. -/
theorem matchAt?_unmarked (hq : ∀ c ∈ q, Layer.keepsInMarks c = true) {p : Place}
    (hp : p.rest = ' ' :: (w ++ ' ' :: more)) (hw : ' ' ∉ w) (h : split? q w = none) :
    (Regex.concat (wordItems n q)).matchAt? p = none := by
  refine Regex.matchAt?_eq_none ?_
  rw [hp, rests_wordItems hq]
  unfold split? at h
  split at h
  · rename_i hscan
    rw [hscan]
    rfl
  · rename_i rest hscan
    split at h
    · rename_i hline
      have hrest : ' ' ∉ rest := fun hmem => hw ((suffix_of_scan hscan).subset hmem)
      have htail := head?_rests_tail hrest more
      rw [if_pos hline, List.head?_eq_none_iff] at htail
      rw [hscan, behind_some, List.flatMap_singleton, htail]
    · cases h

/-- A match at a word that is marked ends with the word, and its groups hold the two parts. -/
theorem matchAt?_marked (hq : ∀ c ∈ q, Layer.keepsInMarks c = true) {p : Place}
    (hp : p.rest = ' ' :: (w ++ ' ' :: more)) (hw : ' ' ∉ w) (h : split? q w = some (first, rest)) :
    ∃ e, (Regex.concat (wordItems n q)).matchAt? p = some e ∧ e.rest = ' ' :: more ∧
      e.groups.text (n + 1) = first ∧ e.groups.text (n + 2 + q.count '+') = rest := by
  obtain ⟨hscan, hline⟩ := scan_of_split? h
  have hparts := append_of_split? h
  -- the space
  obtain ⟨b, hb, hbrest⟩ : ∃ b, (Regex.letter ' ').ways p = [b] ∧ b.rest = w ++ ' ' :: more :=
    Regex.exists_ways_eq_singleton (by rw [hp, rests_letter_cons, if_pos rfl])
  -- the marks
  obtain ⟨m, hm, hmrest⟩ : ∃ m, (Regex.concat (items (n + 1) false q)).ways b = [m] ∧
      m.rest = rest ++ ' ' :: more :=
    Regex.exists_ways_eq_singleton (by rw [hbrest, rests_items hq, hscan, behind_some])
  -- the rest of the word
  have hrest : ' ' ∉ rest := fun hmem => hw ((suffix_of_scan hscan).subset hmem)
  obtain ⟨e, he, herest⟩ : ∃ e, tail.matchAt? (b.captured (n + 1) m) = some e ∧
      e.rest = ' ' :: more := by
    have hend := Regex.map_rest_matchAt? tail (b.captured (n + 1) m)
    have hcaptured : (b.captured (n + 1) m).rest = rest ++ ' ' :: more := hmrest
    rw [hcaptured, head?_rests_tail hrest more, if_neg hline] at hend
    exact Option.map_eq_some_iff.1 hend
  refine ⟨(b.captured (n + 1) m).captured (n + 2 + q.count '+') e, ?_, herest, ?_, ?_⟩
  · rw [Regex.matchAt?, wordItems, Regex.ways_concat_cons, hb, List.flatMap_singleton,
      Regex.ways_concat_cons, Regex.ways, hm, List.map_singleton, List.flatMap_singleton,
      Regex.concat, Regex.ways, List.head?_map]
    rw [Regex.matchAt?] at he
    rw [he]
    rfl
  · have hkept : e.groups.text (n + 1) = (b.captured (n + 1) m).groups.text (n + 1) :=
      Regex.text_of_mem_ways (r := tail) (List.not_mem_nil) (List.mem_of_mem_head? he)
    rw [Place.text_captured_of_ne _ (by omega), hkept, Place.text_captured]
    refine Place.between_of_rest ?_
    rw [hbrest, hmrest, ← hparts, List.append_assoc]
  · rw [Place.text_captured]
    refine Place.between_of_rest ?_
    rw [herest]
    exact hmrest

/-- The expression of a query finds the words that the query marks. -/
theorem findsWords_wordItems (hne : q ≠ []) (hq : ∀ c ∈ q, Layer.keepsInMarks c = true) (n : Nat) :
    FindsWords q n (Regex.concat (wordItems n q)).matchAt? where
  elsewhere := matchAt?_elsewhere
  lastSpace := matchAt?_lastSpace hne
  unmarked := matchAt?_unmarked hq
  marked := matchAt?_marked hq

/-- So it does in a group with a number of its own. -/
theorem FindsWords.group {r : Regex} (h : FindsWords q n r.matchAt?) {k : Nat} (hk : k ≤ n) :
    FindsWords q n (Regex.group k r).matchAt? where
  elsewhere hp := by rw [Regex.matchAt?_group, h.elsewhere hp]; rfl
  lastSpace hp := by rw [Regex.matchAt?_group, h.lastSpace hp]; rfl
  unmarked hp hw hsplit := by rw [Regex.matchAt?_group, h.unmarked hp hw hsplit]; rfl
  marked {p w more first rest} hp hw hsplit := by
    obtain ⟨e, he, herest, hfirst, hlast⟩ := h.marked hp hw hsplit
    refine ⟨p.captured k e, ?_, herest, ?_, ?_⟩
    · rw [Regex.matchAt?_group, he]
      rfl
    · rw [Place.text_captured_of_ne _ (by omega), hfirst]
    · rw [Place.text_captured_of_ne _ (by omega), hlast]

end VerseSearch.Marks
