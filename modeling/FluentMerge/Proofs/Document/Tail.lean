import FluentMerge.Proofs.Document.Outcome

/-!
# What stands behind a text

A tail is what may stand behind a text without being read with it: nothing, or a line end with an
attribute, an entry or a comment below (`IsTail`). Two tails are put behind the same text. The
readers for names, numbers and literals come to the same on both: two faults, or the same value with
the same text left in front of the tails (`Agree`, `Behind`).
-/

namespace FluentMerge

open Read

/-! ## Tails -/

/-- What can begin where something is complete: an entry, an attribute, or nothing. -/
inductive Opens : List Char → Prop
  | nothing : Opens []
  | comment (t : List Char) : Opens ('#' :: t)
  | point (t : List Char) : Opens ('.' :: t)
  | message {c : Char} {name spaces : List Char} (t : List Char) :
      c.isAlpha = true → (∀ d ∈ name, isNameChar d = true) → (∀ d ∈ spaces, d = ' ') →
      Opens (c :: (name ++ (spaces ++ '=' :: t)))
  | term {c : Char} {name spaces : List Char} (t : List Char) :
      c.isAlpha = true → (∀ d ∈ name, isNameChar d = true) → (∀ d ∈ spaces, d = ' ') →
      Opens ('-' :: c :: (name ++ (spaces ++ '=' :: t)))

/-- Whether `b` may stand behind a text without being read with it: it is empty, or it ends the line
and what comes next begins something else. -/
inductive IsTail : List Char → Prop
  | nil : IsTail []
  | cons {t : List Char} : Opens (skipBlank t) → continuesValue (skipBlankLines t).2 = false →
      IsTail ('\n' :: t)

/-- The characters that mean something within a value and begin nothing that is complete. -/
def valueMarks : List Char :=
  ['{', '}', '[', ']', '*', '(', ')', ',', ':', '=', '"', '$', ' ', '\n']

/-- Where something new begins, no mark of a value stands. -/
theorem Opens.head_ne {s : List Char} (h : Opens s) {d : Char} (hd : d ∈ valueMarks) :
    s.head? ≠ some d := by
  have halpha : ∀ d ∈ valueMarks, d.isAlpha = false := by simp [valueMarks]
  have hmarks : ∀ d ∈ valueMarks, '#' ≠ d ∧ '.' ≠ d ∧ '-' ≠ d := by simp [valueMarks]
  obtain ⟨hcomment, hpoint, hterm⟩ := hmarks d hd
  cases h with
  | nothing => simp
  | comment t => simpa using hcomment
  | point t => simpa using hpoint
  | message t hc _ _ =>
    rintro hcd
    obtain rfl := Option.some.inj hcd
    rw [halpha _ hd] at hc
    cases hc
  | term t _ _ _ => simpa using hterm

/-- Where something new begins, there is no arrow. -/
theorem Opens.ne_arrow {s : List Char} (h : Opens s) (t : List Char) : s ≠ '-' :: '>' :: t := by
  intro hs
  cases h with
  | message _ hd _ _ =>
    rw [(List.cons.inj hs).1] at hd
    cases hd
  | term _ hd _ _ =>
    rw [(List.cons.inj (List.cons.inj hs).2).1] at hd
    cases hd
  | _ => simp at hs

/-- What begins a new entry has nothing blank in front of it. -/
theorem Opens.skipBlank_eq {s : List Char} (h : Opens s) : skipBlank s = s := by
  cases s with
  | nil => rfl
  | cons d s =>
    have hspace : d ≠ ' ' := fun hd => h.head_ne (d := ' ') (by decide) (by rw [hd]; rfl)
    have hline : d ≠ '\n' := fun hd => h.head_ne (d := '\n') (by decide) (by rw [hd]; rfl)
    simp [skipBlank, hspace, hline]

namespace IsTail

variable {b : List Char}

/-- A tail begins with a line end, if it is not empty. -/
theorem head_eq (hb : IsTail b) : ∀ d ∈ b.head?, d = '\n' := by
  cases hb <;> simp

/-- Below the blanks of a tail something new begins. -/
theorem opens (hb : IsTail b) : Opens (skipBlank b) := by
  cases hb with
  | nil => exact .nothing
  | cons h _ => exact h

/-- The first line below that is not blank does not go on with the value above it. -/
theorem continuesValue_eq (hb : IsTail b) : continuesValue (skipBlankLines b).2 = false := by
  cases hb with
  | nil =>
    rw [skipBlankLines_of_nil rfl]
    rfl
  | cons _ h =>
    rw [skipBlankLines_of_lineEnd rfl]
    exact h

/-- No run of characters other than line ends goes on into a tail. -/
theorem dropWhile_eq (hb : IsTail b) {p : Char → Bool} (hp : p '\n' = false) :
    b.dropWhile p = b := by
  cases hb with
  | nil => rfl
  | cons _ _ => simp [hp]

theorem takeWhile_eq (hb : IsTail b) {p : Char → Bool} (hp : p '\n' = false) :
    b.takeWhile p = [] := by
  cases hb with
  | nil => rfl
  | cons _ _ => simp [hp]

/-- Dropping characters other than line ends stops before the tail. -/
theorem dropWhile_append (hb : IsTail b) {p : Char → Bool} (hp : p '\n' = false) (s : List Char) :
    (s ++ b).dropWhile p = s.dropWhile p ++ b := by
  rw [List.dropWhile_append]
  split
  · next h => rw [hb.dropWhile_eq hp, List.isEmpty_iff.1 h, List.nil_append]
  · rfl

theorem takeWhile_append (hb : IsTail b) {p : Char → Bool} (hp : p '\n' = false) (s : List Char) :
    (s ++ b).takeWhile p = s.takeWhile p := by
  rw [List.takeWhile_append]
  split
  · next h =>
    rw [hb.takeWhile_eq hp, List.append_nil]
    exact ((List.takeWhile_prefix p).eq_of_length h).symm
  · rfl

/-- Skipping spaces stops before the tail. -/
theorem skipSpaces_append (hb : IsTail b) (s : List Char) :
    skipSpaces (s ++ b) = skipSpaces s ++ b :=
  hb.dropWhile_append (by decide) s

theorem leadingSpaces_append (hb : IsTail b) (s : List Char) :
    leadingSpaces (s ++ b) = leadingSpaces s := by
  rw [leadingSpaces, hb.takeWhile_append (by decide), leadingSpaces]

end IsTail

/-- Skipping blanks stops within a text or reaches what stands behind it. -/
theorem skipBlank_append_cases (s : List Char) :
    (∀ b, skipBlank (s ++ b) = skipBlank b) ∨
      ∃ d w, d ≠ ' ' ∧ d ≠ '\n' ∧ w.length < s.length ∧
        ∀ b, skipBlank (s ++ b) = d :: (w ++ b) := by
  induction s with
  | nil => exact .inl fun _ => rfl
  | cons c s ih =>
    -- the first character that is not blank is where both stop
    by_cases hc : (c == ' ' || c == '\n') = true
    · have hskip (b : List Char) : skipBlank (c :: s ++ b) = skipBlank (s ++ b) := by
        simp only [skipBlank, List.cons_append, List.dropWhile_cons, hc, if_true]
      rcases ih with ih | ⟨d, w, hspace, hline, hw, ih⟩
      · exact .inl fun b => (hskip b).trans (ih b)
      · exact .inr ⟨d, w, hspace, hline, Nat.lt_succ_of_lt hw, fun b => (hskip b).trans (ih b)⟩
    · refine .inr ⟨c, s, ?_, ?_, Nat.lt_succ_self _, fun b => ?_⟩
      · rintro rfl
        exact hc rfl
      · rintro rfl
        exact hc rfl
      · simp only [skipBlank, List.cons_append, List.dropWhile_cons, hc]
        rfl

/-- Skipping blank lines stops within a text at a line that is not blank, or reaches the tail behind
it. -/
theorem skipBlankLines_append_cases (s : List Char) :
    (∀ b, IsTail b → (skipBlankLines (s ++ b)).2 = (skipBlankLines b).2) ∨
      ∃ n line, line <:+ s ∧ skipSpaces line ≠ [] ∧ ∀ b, IsTail b →
        skipBlankLines (s ++ b) = (n, line ++ b) := by
  fun_induction skipBlankLines s with
  | case1 s h =>
    left
    intro b hb
    -- the text is all spaces, and a tail begins with a line end or with nothing
    have hspaces : skipSpaces (s ++ b) = b := by rw [hb.skipSpaces_append, h, List.nil_append]
    cases hb with
    | nil => rw [skipBlankLines_of_nil hspaces, skipBlankLines_of_nil (s := []) rfl]
    | @cons t _ _ =>
      rw [skipBlankLines_of_lineEnd hspaces, skipBlankLines_of_lineEnd (s := '\n' :: t) rfl]
  | case2 s t h ih =>
    -- a blank line within the text counts with every tail
    have hlines (b : List Char) (hb : IsTail b) : skipBlankLines (s ++ b) =
        ((skipBlankLines (t ++ b)).1 + 1, (skipBlankLines (t ++ b)).2) := by
      apply skipBlankLines_of_lineEnd
      rw [hb.skipSpaces_append, h, List.cons_append]
    rcases ih with ih | ⟨n, line, hsuffix, hspaces, ih⟩
    · left
      intro b hb
      rw [hlines b hb]
      exact ih b hb
    · have hrest : t <:+ s := (List.suffix_cons _ _).trans (h ▸ skipSpaces_suffix s)
      refine .inr ⟨n + 1, line, hsuffix.trans hrest, hspaces, ?_⟩
      intro b hb
      rw [hlines b hb, ih b hb]
  | case3 s c t h hc =>
    refine .inr ⟨0, s, List.suffix_rfl, by simp [h], ?_⟩
    intro b hb
    apply skipBlankLines_of_ne (c := c) (t := t ++ b) _ hc
    rw [hb.skipSpaces_append, h, List.cons_append]

/-- Whether a line that is not blank goes on with a value does not depend on the tail. -/
theorem continuesValue_append {b : List Char} (hb : IsTail b) {line : List Char}
    (h : skipSpaces line ≠ []) : continuesValue (line ++ b) = continuesValue line := by
  obtain ⟨c, t, hline⟩ := List.exists_cons_of_ne_nil h
  have hhead : (line ++ b).head? = line.head? := by
    cases line with
    | nil => cases hline
    | cons d line => rfl
  simp only [continuesValue, hb.skipSpaces_append, hline, List.cons_append, hhead]

/-- A value goes on within a text or ends in it, whatever tail stands behind. -/
theorem continuation_cases (s : List Char) :
    (∀ b, IsTail b → continuesValue (skipBlankLines (s ++ b)).2 = false) ∨
      ∃ n line, line.length ≤ s.length ∧ ∀ b, IsTail b →
        skipBlankLines (s ++ b) = (n, line ++ b) ∧ continuesValue (line ++ b) = true := by
  rcases skipBlankLines_append_cases s with h | ⟨n, line, hsuffix, hspaces, h⟩
  · -- no line of the text is left: the tail decides, and it begins something else
    left
    intro b hb
    rw [h b hb]
    exact hb.continuesValue_eq
  · cases hcontinues : continuesValue line with
    | false =>
      left
      intro b hb
      rw [h b hb, continuesValue_append hb hspaces, hcontinues]
    | true =>
      refine .inr ⟨n, line, hsuffix.length_le, fun b hb => ⟨h b hb, ?_⟩⟩
      rw [continuesValue_append hb hspaces, hcontinues]

/-! ## Agreement -/

/-- Two outcomes agree: both are faults, or they have the same value and what they left is related.
-/
inductive Agree {α : Type} (P : List Char → List Char → Prop) :
    Except SyntaxError (α × List Char) → Except SyntaxError (α × List Char) → Prop
  | fault (e e' : SyntaxError) : Agree P (.error e) (.error e')
  | value (v : α) {rest rest' : List Char} : P rest rest' → Agree P (.ok (v, rest)) (.ok (v, rest'))

/-- The same text, of at most `n` characters, is left in front of each tail. -/
def Behind (b c : List Char) (n : Nat) (rest rest' : List Char) : Prop :=
  ∃ w, w.length ≤ n ∧ rest = w ++ b ∧ rest' = w ++ c

section Agree

variable {α β : Type} {P Q : List Char → List Char → Prop} {b c : List Char} {n m : Nat}

/-- Outcomes that agree are both faults, or both values, and these are the same. -/
theorem Agree.cases {x y : Except SyntaxError (α × List Char)} (h : Agree P x y) :
    (∃ e e', x = .error e ∧ y = .error e') ∨
      ∃ v rest rest', P rest rest' ∧ x = .ok (v, rest) ∧ y = .ok (v, rest') := by
  cases h with
  | fault e e' => exact .inl ⟨e, e', rfl, rfl⟩
  | value v h => exact .inr ⟨v, _, _, h, rfl, rfl⟩

/-- Agreement is the weaker, the less is asked of what is left. -/
theorem Agree.mono {x y : Except SyntaxError (α × List Char)} (h : Agree P x y)
    (hPQ : ∀ rest rest', P rest rest' → Q rest rest') : Agree Q x y := by
  cases h with
  | fault e e' => exact .fault e e'
  | value v h => exact .value v (hPQ _ _ h)

/-- Readers that agree, followed by readers that agree on what the first ones left, agree. -/
theorem Agree.bind {x y : Except SyntaxError (α × List Char)}
    {f g : α × List Char → Except SyntaxError (β × List Char)} (h : Agree P x y)
    (hfg : ∀ v rest rest', P rest rest' → Agree Q (f (v, rest)) (g (v, rest'))) :
    Agree Q (x >>= f) (y >>= g) := by
  cases h with
  | fault e e' => exact .fault e e'
  | value v h => exact hfg v _ _ h

theorem Agree.mapBoth {x y : Except SyntaxError (α × List Char)} (h : Agree P x y) (f : α → β)
    {g : List Char → List Char} (hg : ∀ rest rest', P rest rest' → Q (g rest) (g rest')) :
    Agree Q ((fun p => (f p.1, g p.2)) <$> x) ((fun p => (f p.1, g p.2)) <$> y) := by
  cases h with
  | fault e e' => exact .fault e e'
  | value v h => exact .value (f v) (hg _ _ h)

theorem Agree.map {x y : Except SyntaxError (α × List Char)} (h : Agree P x y) (f : α → β) :
    Agree P ((fun p => (f p.1, p.2)) <$> x) ((fun p => (f p.1, p.2)) <$> y) :=
  h.mapBoth f (g := id) fun _ _ h => h

/-- Refusing both or neither keeps agreement. -/
theorem Agree.refuse {x y : Except SyntaxError (α × List Char)} (e : Option SyntaxError)
    (h : Agree P x y) : Agree P (refuse e >>= fun _ => x) (refuse e >>= fun _ => y) := by
  cases e with
  | some e => exact .fault e e
  | none => exact h

/-- What is left may be said to be no longer than anything above its length. -/
theorem Behind.mono {rest rest' : List Char} (h : Behind b c n rest rest') (hnm : n ≤ m) :
    Behind b c m rest rest' := by
  obtain ⟨w, hw, hrest, hrest'⟩ := h
  exact ⟨w, Nat.le_trans hw hnm, hrest, hrest'⟩

theorem Agree.behind_mono {x y : Except SyntaxError (α × List Char)} (h : Agree (Behind b c n) x y)
    (hnm : n ≤ m) : Agree (Behind b c m) x y :=
  h.mono fun _ _ h => h.mono hnm

/-- What faults at the end of a text and at the end of a line agrees on two tails. -/
theorem Agree.of_tails {f : List Char → Except SyntaxError (α × List Char)} (hb : IsTail b)
    (hc : IsTail c) (hnil : ∃ e, f [] = .error e) (hline : ∀ t, ∃ e, f ('\n' :: t) = .error e) :
    Agree P (f b) (f c) := by
  have hfault {d : List Char} (hd : IsTail d) : ∃ e, f d = .error e := by
    cases hd with
    | nil => exact hnil
    | cons _ _ => exact hline _
  obtain ⟨e, he⟩ := hfault hb
  obtain ⟨e', he'⟩ := hfault hc
  rw [he, he']
  exact .fault e e'

end Agree

/-! ## Names, numbers and literals -/

namespace Read

variable {b c : List Char}

/-- A name ends at a line end. -/
theorem identifier_agree (hb : IsTail b) (hc : IsTail c) (s : List Char) :
    Agree (Behind b c s.length) (outcome (identifier (s ++ b)))
      (outcome (identifier (s ++ c))) := by
  cases s with
  | nil =>
    refine Agree.of_tails (f := fun s => outcome (identifier s)) hb hc ⟨_, rfl⟩ ?_
    intro t
    exact ⟨_, outcome_identifier '\n' t⟩
  | cons d s =>
    have hname : isNameChar '\n' = false := by decide
    simp only [List.cons_append, outcome_identifier, hb.takeWhile_append hname,
      hb.dropWhile_append hname, hc.takeWhile_append hname, hc.dropWhile_append hname]
    split
    · exact .value _ ⟨_, Nat.le_succ_of_le (List.dropWhile_suffix _).length_le, rfl, rfl⟩
    · exact .fault _ _

/-- A mark that is no line end is not found in the tail. -/
theorem expect_agree (hb : IsTail b) (hc : IsTail c) {d : Char} (hd : d ≠ '\n') (s : List Char) :
    Agree (Behind b c s.length) (outcome (expect d (s ++ b))) (outcome (expect d (s ++ c))) := by
  cases s with
  | nil =>
    refine Agree.of_tails (f := fun s => outcome (expect d s)) hb hc ⟨_, rfl⟩ ?_
    intro t
    exact ⟨_, by rw [outcome_expect, if_neg (Ne.symm hd)]⟩
  | cons a s =>
    simp only [List.cons_append, outcome_expect]
    split
    · exact .value _ ⟨s, Nat.le_succ _, rfl, rfl⟩
    · exact .fault _ _

/-- Digits end at a line end. -/
theorem digits_agree (hb : IsTail b) (hc : IsTail c) (s : List Char) :
    Agree (Behind b c s.length) (outcome (digits (s ++ b))) (outcome (digits (s ++ c))) := by
  cases s with
  | nil =>
    refine Agree.of_tails (f := fun s => outcome (digits s)) hb hc ⟨_, rfl⟩ ?_
    intro t
    exact ⟨_, outcome_digits '\n' t⟩
  | cons d s =>
    have hdigit : Char.isDigit '\n' = false := by decide
    simp only [List.cons_append, outcome_digits, hb.dropWhile_append hdigit,
      hc.dropWhile_append hdigit]
    split
    · exact .value _ ⟨_, Nat.le_succ_of_le (List.dropWhile_suffix _).length_le, rfl, rfl⟩
    · exact .fault _ _

theorem unsignedNumber_agree (hb : IsTail b) (hc : IsTail c) (s : List Char) :
    Agree (Behind b c s.length) (outcome (unsignedNumber (s ++ b)))
      (outcome (unsignedNumber (s ++ c))) := by
  rw [outcome_unsignedNumber, outcome_unsignedNumber]
  apply (digits_agree hb hc s).bind
  rintro ⟨⟩ _ _ ⟨w, hw, rfl, rfl⟩
  cases w with
  | nil =>
    -- no point stands in front of a tail, so there is no fraction
    have hwhole {d : List Char} (hd : IsTail d) : ∀ t, d ≠ '.' :: t := by
      rintro t rfl
      exact absurd (hd.head_eq '.' rfl) (by decide)
    dsimp only [List.nil_append]
    split
    · next t => exact absurd rfl (hwhole hb t)
    split
    · next t => exact absurd rfl (hwhole hc t)
    · exact .value () ⟨[], Nat.zero_le _, rfl, rfl⟩
  | cons a w =>
    dsimp only [List.cons_append]
    split
    · next t h =>
      obtain ⟨rfl, rfl⟩ := List.cons.inj h
      exact (digits_agree hb hc w).behind_mono (Nat.le_of_succ_le hw)
    · next h =>
      split
      · next t h' =>
        obtain ⟨rfl, rfl⟩ := List.cons.inj h'
        exact absurd rfl (h _)
      · exact .value () ⟨a :: w, hw, rfl, rfl⟩

/-- So do numbers, with a sign or without. -/
theorem number_agree (hb : IsTail b) (hc : IsTail c) (s : List Char) :
    Agree (Behind b c s.length) (outcome (number (s ++ b))) (outcome (number (s ++ c))) := by
  cases s with
  | nil =>
    have hhead {d : List Char} (hd : IsTail d) : ([] ++ d).head? ≠ some '-' := by
      cases hd <;> simp
    rw [number_of_head (hhead hb), number_of_head (hhead hc)]
    exact unsignedNumber_agree hb hc []
  | cons d s =>
    by_cases hd : d = '-'
    · subst hd
      rw [List.cons_append, List.cons_append, outcome_number_minus, outcome_number_minus]
      exact (unsignedNumber_agree hb hc s).behind_mono (Nat.le_succ _)
    · have hhead (t : List Char) : (d :: s ++ t).head? ≠ some '-' := by simpa using hd
      rw [number_of_head (hhead b), number_of_head (hhead c)]
      exact unsignedNumber_agree hb hc (d :: s)

theorem hexDigits_agree (hb : IsTail b) (hc : IsTail c) (n : Nat) (s : List Char) :
    Agree (Behind b c s.length) (outcome (hexDigits n (s ++ b)))
      (outcome (hexDigits n (s ++ c))) := by
  induction n generalizing s with
  | zero =>
    rw [hexDigits, hexDigits]
    exact .value _ ⟨s, Nat.le_refl _, rfl, rfl⟩
  | succ n ih =>
    cases s with
    | nil =>
      refine Agree.of_tails (f := fun s => outcome (hexDigits (n + 1) s)) hb hc ⟨_, rfl⟩ ?_
      intro t
      exact ⟨_, outcome_hexDigits_succ n '\n' t⟩
    | cons d s =>
      simp only [List.cons_append, outcome_hexDigits_succ]
      split
      · exact (ih s).behind_mono (Nat.le_succ _)
      · exact .fault _ _

/-- An escape that runs into a line end is a fault in either text. -/
theorem escape_agree (hb : IsTail b) (hc : IsTail c) (s : List Char) :
    Agree (Behind b c s.length) (outcome (escape (s ++ b))) (outcome (escape (s ++ c))) := by
  cases s with
  | nil =>
    refine Agree.of_tails (f := fun s => outcome (escape s)) hb hc ⟨_, rfl⟩ ?_
    intro t
    exact ⟨_, outcome_escape '\n' t⟩
  | cons d s =>
    simp only [List.cons_append, outcome_escape]
    split
    · exact .value _ ⟨s, Nat.le_succ _, rfl, rfl⟩
    split
    · exact (hexDigits_agree hb hc 4 s).behind_mono (Nat.le_succ _)
    split
    · exact (hexDigits_agree hb hc 6 s).behind_mono (Nat.le_succ _)
    split <;> exact .fault _ _

/-- A string that runs into a line end is left open in either text. -/
theorem stringLiteral_agree (hb : IsTail b) (hc : IsTail c) (s : List Char) :
    Agree (Behind b c s.length) (outcome (stringLiteral (s ++ b)))
      (outcome (stringLiteral (s ++ c))) := by
  induction h : s.length using Nat.strongRecOn generalizing s with
  | ind n ih =>
    subst h
    cases s with
    | nil =>
      refine Agree.of_tails (f := fun s => outcome (stringLiteral s)) hb hc
        ⟨_, outcome_stringLiteral_nil⟩ fun t => ?_
      exact ⟨_, outcome_stringLiteral '\n' t⟩
    | cons d s =>
      simp only [List.cons_append, outcome_stringLiteral]
      split
      · exact .value _ ⟨s, Nat.le_succ _, rfl, rfl⟩
      split
      · exact .fault _ _
      split
      · apply (escape_agree hb hc s).bind
        rintro ⟨⟩ _ _ ⟨w, hw, rfl, rfl⟩
        exact (ih w.length (Nat.lt_succ_of_le hw) w rfl).behind_mono (Nat.le_succ_of_le hw)
      · exact (ih s.length (Nat.lt_succ_self _) s rfl).behind_mono (Nat.le_succ _)

/-- A point that is followed by a line end has no name behind it in either text. -/
theorem attributeAccessor_agree (hb : IsTail b) (hc : IsTail c) (s : List Char) :
    Agree (Behind b c s.length) (outcome (attributeAccessor (s ++ b)))
      (outcome (attributeAccessor (s ++ c))) := by
  cases s with
  | nil =>
    have hhead {d : List Char} (hd : IsTail d) : ([] ++ d).head? ≠ some '.' := by
      cases hd <;> simp
    rw [outcome_attributeAccessor_of_head (hhead hb), outcome_attributeAccessor_of_head (hhead hc)]
    exact .value _ ⟨[], Nat.le_refl _, rfl, rfl⟩
  | cons d s =>
    by_cases hd : d = '.'
    · subst hd
      rw [List.cons_append, List.cons_append, outcome_attributeAccessor_point,
        outcome_attributeAccessor_point]
      exact ((identifier_agree hb hc s).map fun _ => true).behind_mono (Nat.le_succ _)
    · have hhead (t : List Char) : (d :: s ++ t).head? ≠ some '.' := by simpa using hd
      rw [outcome_attributeAccessor_of_head (hhead b), outcome_attributeAccessor_of_head (hhead c)]
      exact .value _ ⟨d :: s, Nat.le_refl _, rfl, rfl⟩

theorem variantKey_agree (hb : IsTail b) (hc : IsTail c) (d : Char) (s : List Char) :
    Agree (Behind b c (d :: s).length) (outcome (variantKey (d :: (s ++ b))))
      (outcome (variantKey (d :: (s ++ c)))) := by
  rw [outcome_variantKey, outcome_variantKey]
  split
  · exact number_agree hb hc (d :: s)
  · exact (identifier_agree hb hc (d :: s)).map fun _ => ()

end Read

end FluentMerge
