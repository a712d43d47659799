import FluentMerge.Proofs.Charset.Declared
import Mathlib

/-!
# The first declaration of a text

A declaration is the word `charset`, the sign and a label, with white space around the sign or
without (`Declaration`). What a text declares is the label of the declaration furthest in front
(`declared?_eq_some_iff`), so a word without sign or label behind it does not hide a declaration
further on. The label comes in lower case, and behind the word and the sign it is found again
(`declared?_word_append`).
-/

namespace FluentMerge.Charset

open Text (isWhite trimStart)

/-! ## Case -/

/-- The character with its case folded. Besides the capital letters, the long s and the Kelvin sign
fold to letters of ASCII. -/
def foldChar (c : Char) : Char :=
  if c = '\u017f' then 's' else if c = '\u212a' then 'k' else c.toLower

/-- Whether a character is, whatever its case, a letter, a digit or one of the signs of a label. -/
def IsLabelChar (c : Char) : Prop :=
  (foldChar c).isAlphanum = true ∨ foldChar c ∈ ['_', '.', ':', '-']

theorem foldChar_of_ne {c : Char} (hs : c ≠ '\u017f') (hk : c ≠ '\u212a') :
    foldChar c = c.toLower := by
  rw [foldChar, if_neg hs, if_neg hk]

/-- Letters of the word are compared by their folds. No letter of it is a k. -/
theorem isLetterAnyCase_iff {letter c : Char} (h : letter ∈ ['c', 'h', 'a', 'r', 's', 'e', 't']) :
    isLetterAnyCase letter c = true ↔ foldChar c = letter := by
  by_cases hs : c = '\u017f'
  · subst hs
    simp only [List.mem_cons, List.not_mem_nil, or_false] at h
    rcases h with rfl | rfl | rfl | rfl | rfl | rfl | rfl <;> decide
  by_cases hk : c = '\u212a'
  · subst hk
    simp only [List.mem_cons, List.not_mem_nil, or_false] at h
    rcases h with rfl | rfl | rfl | rfl | rfl | rfl | rfl <;> decide
  · simp [isLetterAnyCase, foldChar_of_ne hs hk, hs]

theorem isLabelChar_iff (c : Char) : isLabelChar c = true ↔ IsLabelChar c := by
  by_cases hs : c = '\u017f'
  · subst hs
    exact iff_of_true (by decide) (.inl (by decide))
  by_cases hk : c = '\u212a'
  · subst hk
    exact iff_of_true (by decide) (.inl (by decide))
  rw [isLabelChar, IsLabelChar, foldChar_of_ne hs hk]
  by_cases hupper : c.isUpper = true
  · simp [Char.isAlphanum, Char.isAlpha, hupper]
  · rw [Char.toLower_eq_of_not_isUpper hupper]
    simp [hs, hk]

theorem isWhite_of_isLabelChar {c : Char} (h : isLabelChar c = true) : isWhite c = false := by
  simp only [isLabelChar, Char.isAlphanum, Bool.or_eq_true, List.contains_iff_mem, List.mem_cons,
    List.not_mem_nil, or_false] at h
  rcases h with (halpha | hdigit) | hsign
  · exact Text.isWhite_of_isAlpha halpha
  · exact Text.isWhite_of_isDigit hdigit
  · rcases hsign with rfl | rfl | rfl | rfl | rfl | rfl <;> decide

/-! ## Declarations -/

/-- A declaration and the text behind it. The label is as long as it can be: what is behind it does
not go on with a label character. -/
structure Declaration where
  word : List Char
  before : List Char
  after : List Char
  label : List Char
  rest : List Char
  fold_word : word.map foldChar = "charset".toList
  isWhite_before : ∀ c ∈ before, isWhite c = true
  isWhite_after : ∀ c ∈ after, isWhite c = true
  label_ne : label ≠ []
  isLabelChar_label : ∀ c ∈ label, IsLabelChar c
  head_rest : ∀ c ∈ rest.head?, ¬IsLabelChar c

namespace Declaration

/-- The text of a declaration and what is behind it. -/
def text (d : Declaration) : List Char :=
  d.word ++ (d.before ++ '=' :: (d.after ++ (d.label ++ d.rest)))

/-- The label in lower case. -/
def name (d : Declaration) : List Char := d.label.map lowerChar

end Declaration

/-- Whether the text has a declaration of `label` behind `p`. -/
def DeclaresAt (p text label : List Char) : Prop :=
  ∃ d : Declaration, text = p ++ d.text ∧ label = d.name

/-- Whether the declaration of the text that is furthest in front is one of `label`. -/
def DeclaresFirst (text label : List Char) : Prop :=
  ∃ p, DeclaresAt p text label ∧ ∀ q other, DeclaresAt q text other → p.length ≤ q.length

/-! ## What stands at the front -/

theorem afterWord?_append {word w : List Char}
    (hword : ∀ letter ∈ word, letter ∈ ['c', 'h', 'a', 'r', 's', 'e', 't'])
    (h : w.map foldChar = word) (t : List Char) : afterWord? word (w ++ t) = some t := by
  induction w generalizing word with
  | nil =>
    cases h
    rfl
  | cons c w ih =>
    subst h
    have hletter : isLetterAnyCase (foldChar c) c = true :=
      (isLetterAnyCase_iff (hword _ (.head _))).2 rfl
    rw [List.map_cons, List.cons_append, afterWord?, if_pos hletter]
    exact ih (fun letter hmem => hword letter (.tail _ hmem)) rfl

theorem exists_of_afterWord? {word s t : List Char}
    (hword : ∀ letter ∈ word, letter ∈ ['c', 'h', 'a', 'r', 's', 'e', 't'])
    (h : afterWord? word s = some t) : ∃ w, w.map foldChar = word ∧ s = w ++ t := by
  fun_induction afterWord? word s with
  | case1 =>
    cases h
    exact ⟨[], rfl, rfl⟩
  | case2 => cases h
  | case3 letter word c s hletter ih =>
    obtain ⟨w, hw, rfl⟩ := ih (fun x hmem => hword x (.tail _ hmem)) h
    have hfold := (isLetterAnyCase_iff (hword letter (.head _))).1 hletter
    exact ⟨c :: w, by rw [List.map_cons, hfold, hw], rfl⟩
  | case4 => cases h

/-- A declaration at the front is found. -/
theorem Declaration.labelHere?_text (d : Declaration) : labelHere? d.text = some d.name := by
  have hlabel : ∀ c ∈ d.label, isLabelChar c = true := fun c hc =>
    (isLabelChar_iff c).2 (d.isLabelChar_label c hc)
  have hrest : ∀ c ∈ d.rest.head?, isLabelChar c = false := by
    intro c hc
    rw [← Bool.not_eq_true, isLabelChar_iff]
    exact d.head_rest c hc
  have hequals : trimStart (d.before ++ '=' :: (d.after ++ (d.label ++ d.rest))) =
      '=' :: (d.after ++ (d.label ++ d.rest)) := by
    rw [trimStart, List.dropWhile_append_of_pos d.isWhite_before]
    exact Text.trimStart_cons_of_not (by decide)
  have hvalue : trimStart (d.after ++ (d.label ++ d.rest)) = d.label ++ d.rest := by
    rw [trimStart, List.dropWhile_append_of_pos d.isWhite_after]
    apply Text.dropWhile_of_head
    intro c hc
    rw [List.head?_append_of_ne_nil _ d.label_ne] at hc
    exact isWhite_of_isLabelChar (hlabel c (List.mem_of_mem_head? hc))
  have hrun : (d.label ++ d.rest).takeWhile isLabelChar = d.label := by
    rw [takeWhile_append_of_head hrest, List.takeWhile_eq_self_iff]
    exact hlabel
  rw [labelHere?_eq, text, afterWord?_append (fun _ h => h) d.fold_word, Option.bind_some,
    labelBehindWord?, hequals]
  dsimp only
  rw [hvalue, hrun, if_pos ⟨rfl, d.label_ne⟩, name]

/-- What is found at the front is a declaration. -/
theorem exists_declaration_of_labelHere? {s label : List Char} (h : labelHere? s = some label) :
    ∃ d : Declaration, s = d.text ∧ label = d.name := by
  rw [labelHere?_eq] at h
  obtain ⟨t, hword, hbehind⟩ := Option.bind_eq_some_iff.1 h
  -- the word in either case, then white space around an equals sign, then the label
  obtain ⟨word, hfold, rfl⟩ := exists_of_afterWord? (fun _ h => h) hword
  rw [labelBehindWord?] at hbehind
  split at hbehind
  · cases hbehind
  · next c u hu =>
    dsimp only at hbehind
    split at hbehind
    · next hlabel =>
      obtain ⟨rfl, hne⟩ := hlabel
      cases hbehind
      -- the label is as long as it can be
      have hlast : ∀ c ∈ ((trimStart u).dropWhile isLabelChar).head?, ¬IsLabelChar c := by
        intro c hc hlabel
        have hnot := List.head?_dropWhile_not isLabelChar (trimStart u)
        rw [hc] at hnot
        simp [(isLabelChar_iff c).2 hlabel] at hnot
      refine ⟨⟨word, t.takeWhile isWhite, u.takeWhile isWhite, _, _, hfold,
        fun c => List.mem_takeWhile_imp, fun c => List.mem_takeWhile_imp, hne,
        fun c hc => (isLabelChar_iff c).1 (List.mem_takeWhile_imp hc), hlast⟩, ?_, rfl⟩
      rw [Declaration.text]
      dsimp only
      rw [List.takeWhile_append_dropWhile, trimStart, List.takeWhile_append_dropWhile, ← hu,
        trimStart, List.takeWhile_append_dropWhile]
    · cases hbehind

theorem labelHere?_eq_some_iff {s label : List Char} :
    labelHere? s = some label ↔ DeclaresAt [] s label := by
  constructor
  · exact exists_declaration_of_labelHere?
  · rintro ⟨d, rfl, rfl⟩
    exact d.labelHere?_text

/-! ## The search -/

theorem not_declaresAt_nil {p label : List Char} : ¬DeclaresAt p [] label := by
  rintro ⟨d, htext, -⟩
  simp [Declaration.text] at htext

theorem declaresAt_cons {c : Char} {p text label : List Char} :
    DeclaresAt (c :: p) (c :: text) label ↔ DeclaresAt p text label := by
  simp [DeclaresAt]

/-- Where no declaration begins at the front, each begins further on. -/
theorem DeclaresAt.behind {c : Char} {p text label : List Char}
    (h : DeclaresAt p (c :: text) label) (hfront : labelHere? (c :: text) = none) :
    ∃ q, p = c :: q ∧ DeclaresAt q text label := by
  cases p with
  | nil =>
    rw [labelHere?_eq_some_iff.2 h] at hfront
    cases hfront
  | cons e q =>
    obtain ⟨d, htext, hlabel⟩ := h
    obtain ⟨rfl, htail⟩ := List.cons.inj htext
    exact ⟨q, rfl, d, htail, hlabel⟩

/-- There the first declaration is the first of what follows. -/
theorem declaresFirst_cons {c : Char} {text label : List Char}
    (hfront : labelHere? (c :: text) = none) :
    DeclaresFirst (c :: text) label ↔ DeclaresFirst text label := by
  constructor
  · rintro ⟨p, hp, hfirst⟩
    obtain ⟨q, rfl, hq⟩ := hp.behind hfront
    exact ⟨q, hq, fun t other ht =>
      Nat.le_of_succ_le_succ (hfirst (c :: t) other (declaresAt_cons.2 ht))⟩
  · rintro ⟨p, hp, hfirst⟩
    refine ⟨c :: p, declaresAt_cons.2 hp, fun q other hq => ?_⟩
    obtain ⟨t, rfl, ht⟩ := hq.behind hfront
    exact Nat.succ_le_succ (hfirst t other ht)

/-- The search finds the label of the first declaration. -/
theorem declared?_eq_some_iff {text label : List Char} :
    declared? text = some label ↔ DeclaresFirst text label := by
  induction text with
  | nil =>
    refine iff_of_false (by simp [declared?]) ?_
    rintro ⟨p, hp, -⟩
    exact not_declaresAt_nil hp
  | cons c text ih =>
    cases hfront : labelHere? (c :: text) with
    | none =>
      rw [declared?, hfront, declaresFirst_cons hfront]
      exact ih
    | some found =>
      have hfound := labelHere?_eq_some_iff.1 hfront
      rw [declared?, hfront]
      constructor
      · rintro ⟨⟩
        exact ⟨[], hfound, fun q other _ => Nat.zero_le _⟩
      · rintro ⟨p, hp, hfirst⟩
        -- a declaration stands at the front, so the first one is there
        obtain rfl := List.eq_nil_of_length_eq_zero (Nat.le_zero.1 (hfirst [] found hfound))
        exact hfront.symm.trans (labelHere?_eq_some_iff.2 hp)

/-- Nothing is found exactly where there is no declaration. -/
theorem declared?_eq_none_iff {text : List Char} :
    declared? text = none ↔ ∀ p label, ¬DeclaresAt p text label := by
  induction text with
  | nil => exact iff_of_true rfl fun p label => not_declaresAt_nil
  | cons c text ih =>
    cases hfront : labelHere? (c :: text) with
    | none =>
      rw [declared?, hfront]
      refine ih.trans ⟨fun h p label hp => ?_, fun h p label hp => ?_⟩
      · obtain ⟨q, -, hq⟩ := hp.behind hfront
        exact h q label hq
      · exact h (c :: p) label (declaresAt_cons.2 hp)
    | some found =>
      rw [declared?, hfront]
      exact iff_of_false (by simp) fun h => h [] found (labelHere?_eq_some_iff.1 hfront)

/-- Places where no declaration begins hide none behind them. -/
theorem declared?_of_not_declaresAt {p s : List Char}
    (h : ∀ q label, q.length < p.length → ¬DeclaresAt q (p ++ s) label) :
    declared? (p ++ s) = declared? s := by
  apply declared?_behind
  rintro v ⟨q, rfl⟩ hv
  rw [Option.eq_none_iff_forall_ne_some]
  intro label hlabel
  have hlength : q.length < (q ++ v).length := by
    simpa using List.length_pos_iff.2 hv
  obtain ⟨d, hd, hname⟩ := labelHere?_eq_some_iff.1 hlabel
  exact h q label hlength ⟨d, by rw [List.append_assoc, hd, List.nil_append], hname⟩

/-! ## Labels in lower case -/

/-- No other character has the long s or the Kelvin sign as its lower case. -/
theorem toLower_ne {c : Char} (hs : c ≠ '\u017f') (hk : c ≠ '\u212a') :
    c.toLower ≠ '\u017f' ∧ c.toLower ≠ '\u212a' := by
  by_cases hupper : c.isUpper = true
  · have hlower : c.toLower.isLower = true := by
      simp [Char.isAlpha, hupper]
    constructor <;>
    · intro h
      rw [h] at hlower
      revert hlower
      decide
  · rw [Char.toLower_eq_of_not_isUpper hupper]
    exact ⟨hs, hk⟩

theorem foldChar_lowerChar (c : Char) : foldChar (lowerChar c) = foldChar c := by
  by_cases hs : c = '\u017f'
  · subst hs
    decide
  by_cases hk : c = '\u212a'
  · subst hk
    decide
  obtain ⟨hs', hk'⟩ := toLower_ne hs hk
  rw [lowerChar, if_neg hk, foldChar_of_ne hs' hk', foldChar_of_ne hs hk,
    Char.toLower_toLower_eq_toLower]

theorem lowerChar_lowerChar (c : Char) : lowerChar (lowerChar c) = lowerChar c := by
  by_cases hs : c = '\u017f'
  · subst hs
    decide
  by_cases hk : c = '\u212a'
  · subst hk
    decide
  rw [lowerChar, lowerChar, if_neg hk, if_neg (toLower_ne hs hk).2, Char.toLower_toLower_eq_toLower]

/-- A label that was found, written behind the word and the sign. -/
def Declaration.plain (d : Declaration) : Declaration where
  word := "charset".toList
  before := []
  after := []
  label := d.name
  rest := []
  fold_word := by decide
  isWhite_before c hc := by cases hc
  isWhite_after c hc := by cases hc
  label_ne := by simp [name, d.label_ne]
  isLabelChar_label c hc := by
    obtain ⟨e, he, rfl⟩ := List.mem_map.1 hc
    have hlabel := d.isLabelChar_label e he
    rwa [IsLabelChar, foldChar_lowerChar]
  head_rest c hc := by cases hc

theorem Declaration.text_plain (d : Declaration) :
    d.plain.text = "charset=".toList ++ d.name := by
  show "charset".toList ++ '=' :: (d.name ++ []) = "charset=".toList ++ d.name
  rw [List.append_nil]
  rfl

theorem Declaration.name_plain (d : Declaration) : d.plain.name = d.name := by
  have hlower : lowerChar ∘ lowerChar = lowerChar := funext lowerChar_lowerChar
  show (d.label.map lowerChar).map lowerChar = d.label.map lowerChar
  rw [List.map_map, hlower]

/-- A label that was found is found again behind the word and the sign. -/
theorem declared?_word_append {text label : List Char} (h : declared? text = some label) :
    declared? ("charset=".toList ++ label) = some label := by
  obtain ⟨p, ⟨d, -, rfl⟩, -⟩ := declared?_eq_some_iff.1 h
  rw [declared?_eq_some_iff]
  refine ⟨[], ⟨d.plain, ?_, d.name_plain.symm⟩, fun q other _ => Nat.zero_le _⟩
  rw [d.text_plain, List.nil_append]

/-- The search is for the first declaration: it finds its label, or nothing if there is none; places
where none begins hide no later one, and what it found it finds again. -/
theorem declared_isFirst (text : List Char) :
    (∀ label, declared? text = some label ↔ DeclaresFirst text label) ∧
    (declared? text = none ↔ ∀ p label, ¬DeclaresAt p text label) ∧
    (∀ p s, text = p ++ s → (∀ q label, q.length < p.length → ¬DeclaresAt q text label) →
      declared? text = declared? s) ∧
    ∀ label, declared? text = some label → declared? ("charset=".toList ++ label) = some label := by
  refine ⟨fun label => declared?_eq_some_iff, declared?_eq_none_iff, ?_,
    fun label => declared?_word_append⟩
  rintro p s rfl h
  exact declared?_of_not_declaresAt h

/-- The word twice: without sign, and without label. -/
def wordsAlone : List Char := "charset charset= ; ".toList

/-- A declaration with a long s, a space that does not break and a Kelvin sign. -/
def koiDeclaration : List Char := "Char\u017fet\t=\u00a0\u212aOI8-R\"".toList

theorem declared_isFirst_wordsAlone :
    (∀ q label, q.length < wordsAlone.length →
      ¬DeclaresAt q (wordsAlone ++ koiDeclaration) label) ∧
    declared? (wordsAlone ++ koiDeclaration) = declared? koiDeclaration ∧
    DeclaresFirst (wordsAlone ++ koiDeclaration) "koi8-r".toList ∧
    declared? ("charset=".toList ++ "koi8-r".toList) = some "koi8-r".toList := by
  have hnone : ∀ n < 19, labelHere? ((wordsAlone ++ koiDeclaration).drop n) = none := by
    decide +kernel
  have hfailed : ∀ q label, q.length < wordsAlone.length →
      ¬DeclaresAt q (wordsAlone ++ koiDeclaration) label := by
    rintro q label hlength ⟨d, htext, -⟩
    have hd := hnone q.length hlength
    rw [htext, List.drop_left, d.labelHere?_text] at hd
    cases hd
  have hfound : declared? (wordsAlone ++ koiDeclaration) = some "koi8-r".toList := by
    decide +kernel
  obtain ⟨hfirst, -, hbehind, hagain⟩ := declared_isFirst (wordsAlone ++ koiDeclaration)
  exact ⟨hfailed, hbehind _ _ rfl hfailed, (hfirst _).1 hfound, hagain _ hfound⟩

end FluentMerge.Charset
