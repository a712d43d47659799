import FluentMerge.Proofs.Document.Tail
import Mathlib.Data.List.TakeWhile

/-!
# Reading is local

A reader looks ahead, often over line ends: an argument may stand on the next line, and so may the
brace that closes a placeable. Yet what ends with its line is read without regard to the entries
below: every reader comes to the same on a text with one tail behind it and on the text with
another. None gets to the end of what a tail begins with, since an entry's name is followed by an
equals sign, which nothing within a value allows.
-/

namespace FluentMerge

open Read

namespace Read

variable {b c : List Char}

/-! ## Where something new begins

A value that is still open when a new entry or attribute begins cannot be completed by it: of what
begins there at most a name is read, and an equals sign follows. -/

/-- The name in front of an equals sign is read, and the spaces behind it are left. -/
theorem identifier_of_name {d : Char} {name spaces : List Char} (t : List Char)
    (hd : d.isAlpha = true) (hname : ∀ a ∈ name, isNameChar a = true)
    (hspaces : ∀ a ∈ spaces, a = ' ') :
    outcome (identifier (d :: (name ++ (spaces ++ '=' :: t)))) =
      .ok (String.ofList (d :: name), spaces ++ '=' :: t) := by
  have hspace : isNameChar ' ' = false := by decide
  have hequals : isNameChar '=' = false := by decide
  have hstop : (spaces ++ '=' :: t).takeWhile isNameChar = [] ∧
      (spaces ++ '=' :: t).dropWhile isNameChar = spaces ++ '=' :: t := by
    cases spaces with
    | nil => simp [hequals]
    | cons a spaces =>
      obtain rfl := hspaces a (by simp)
      simp [hspace]
  rw [outcome_identifier, if_pos hd, List.takeWhile_append_of_pos hname,
    List.dropWhile_append_of_pos hname, hstop.1, hstop.2, List.append_nil]

/-- The name is followed by spaces only, so skipping blanks gets to the equals sign. -/
theorem skipBlank_spaces {spaces : List Char} (hspaces : ∀ a ∈ spaces, a = ' ') (t : List Char) :
    skipBlank (spaces ++ '=' :: t) = '=' :: t := by
  rw [skipBlank, List.dropWhile_append_of_pos]
  · rfl
  · intro a ha
    rw [hspaces a ha]
    rfl

/-- No attribute is asked for: there is no point between the name and its equals sign. -/
theorem attributeAccessor_spaces {spaces : List Char} (hspaces : ∀ a ∈ spaces, a = ' ')
    (t : List Char) :
    outcome (attributeAccessor (spaces ++ '=' :: t)) = .ok (false, spaces ++ '=' :: t) := by
  apply outcome_attributeAccessor_of_head
  cases spaces with
  | nil => simp
  | cons a spaces =>
    obtain rfl := hspaces a (by simp)
    simp

theorem isDigit_of_isAlpha {d : Char} (h : d.isAlpha = true) : d.isDigit = false := by
  delta Char.isAlpha Char.isUpper Char.isLower at h
  grind [Char.isDigit]

theorem ne_of_isAlpha {d a : Char} (h : d.isAlpha = true) (ha : a.isAlpha = false) : d ≠ a := by
  rintro rfl
  rw [h] at ha
  cases ha

/-- A line that begins with a letter is not blank. -/
theorem skipBlankLines_of_isAlpha {c : Char} (hc : c.isAlpha = true) (s : List Char) :
    (skipBlankLines (c :: s)).2 = c :: s := by
  rw [skipBlankLines_of_ne (c := c) (t := s) _ (ne_of_isAlpha hc (by decide))]
  simp [skipSpaces, ne_of_isAlpha hc (a := ' ') (by decide)]

/-- Of what begins something new, an operand is read only up to an equals sign, and it is no
literal. -/
theorem inlineExpression_of_opens {s : List Char} (h : Opens s) :
    (∃ e, outcome (inlineExpression s) = .error e) ∨
      ∃ v rest t, outcome (inlineExpression s) = .ok (v, rest) ∧ v ≠ .literal ∧
        skipBlank rest = '=' :: t := by
  cases h with
  | nothing => exact .inl ⟨_, outcome_inlineExpression_nil⟩
  | comment t => exact .inl ⟨_, outcome_inlineExpression '#' t⟩
  | point t => exact .inl ⟨_, outcome_inlineExpression '.' t⟩
  | @message d name spaces t hd hname hspaces =>
    refine .inr ⟨.messageReference (String.ofList (d :: name)) false, spaces ++ '=' :: t, t, ?_,
      by simp, skipBlank_spaces hspaces t⟩
    have hminus : d ≠ '-' := ne_of_isAlpha hd (by decide)
    rw [outcome_inlineExpression, if_neg (ne_of_isAlpha hd (by decide)),
      if_neg (by simp [isDigit_of_isAlpha hd, hminus]), if_neg (ne_of_isAlpha hd (by decide)),
      if_neg (ne_of_isAlpha hd (by decide)), if_neg hminus, if_pos hd, outcome_callOrReference,
      identifier_of_name t hd hname hspaces]
    simp only [bind, Except.bind, skipBlank_spaces hspaces, attributeAccessor_spaces hspaces]
    rfl
  | @term d name spaces t hd hname hspaces =>
    refine .inr ⟨.termReference false, spaces ++ '=' :: t, t, ?_, by simp,
      skipBlank_spaces hspaces t⟩
    rw [outcome_inlineExpression, if_neg (by decide), if_neg (by simp [isDigit_of_isAlpha hd]),
      if_neg (by decide), if_neg (by decide), if_pos rfl, outcome_termReference,
      identifier_of_name t hd hname hspaces]
    simp only [bind, Except.bind, skipBlank_spaces hspaces, attributeAccessor_spaces hspaces]
    rfl

/-- Another character, or the end of the text, is refused with the one that was expected. -/
theorem expect_of_head {d : Char} {s : List Char} (h : s.head? ≠ some d) :
    outcome (expect d s) = .error (.character d) := by
  cases s with
  | nil => rfl
  | cons a s => rw [outcome_expect, if_neg (by simpa using h)]

/-- A placeable is not closed by what begins something new: if an operand is read at all, an equals
sign stands where an arrow or a brace is expected. -/
theorem placeable_of_opens {s : List Char} (h : Opens (skipBlank s)) :
    ∃ e, outcome (placeable s) = .error e := by
  rw [outcome_placeable, outcome_expression]
  rcases inlineExpression_of_opens h with ⟨e, he⟩ | ⟨v, rest, t, hv, -, hrest⟩
  · exact ⟨e, by rw [he]; rfl⟩
  · rw [hv]
    simp only [bind, Except.bind, hrest]
    cases v.placeableFault? with
    | some e => exact ⟨e, rfl⟩
    | none => exact ⟨_, expect_of_head (d := '}') (by simp)⟩

/-- What begins something new is no value of a named argument. -/
theorem literalArgument_of_opens (named : List String) {s : List Char} (h : Opens s) :
    ∃ e, (outcome (inlineExpression s) >>= fun value =>
      refuse (if value.1 = .literal then none else some .argumentValue) >>= fun _ =>
        .ok (named, value.2)) = .error e := by
  rcases inlineExpression_of_opens h with ⟨e, he⟩ | ⟨v, rest, t, hv, hliteral, -⟩
  · exact ⟨e, by rw [he]; rfl⟩
  · exact ⟨.argumentValue, by rw [hv]; simp only [bind, Except.bind, if_neg hliteral]; rfl⟩

/-- An argument may be read, namely the name of what begins. It is then followed by an equals sign.
-/
theorem argument_of_opens (named : List String) {s : List Char} (h : Opens s) :
    (∃ e, outcome (argument named s) = .error e) ∨
      ∃ rest t, outcome (argument named s) = .ok (named, rest) ∧ skipBlank rest = '=' :: t := by
  rw [outcome_argument]
  rcases inlineExpression_of_opens h with ⟨e, he⟩ | ⟨v, rest, t, hv, -, hrest⟩
  · exact .inl ⟨e, by rw [he]; rfl⟩
  · rw [hv]
    simp only [bind, Except.bind, hrest]
    by_cases hnamed : named = []
    · exact .inr ⟨rest, t, by rw [if_pos hnamed]; rfl, hrest⟩
    · exact .inl ⟨_, by rw [if_neg hnamed]; rfl⟩

/-- Arguments are not closed by what begins something new, for the same reason. -/
theorem arguments_of_opens (named : List String) {s : List Char} (h : Opens (skipBlank s)) :
    ∃ e, outcome (arguments named s) = .error e := by
  rw [outcome_arguments]
  split
  · next t ht =>
    rw [ht] at h
    exact absurd rfl (h.head_ne (d := ')') (by decide))
  · rcases argument_of_opens named h with ⟨e, he⟩ | ⟨rest, t, hv, hrest⟩
    · exact ⟨e, by rw [he]; rfl⟩
    · rw [hv]
      simp only [bind, Except.bind, hrest]
      exact ⟨_, expect_of_head (d := ')') (by simp)⟩

/-- No variant goes on there. A name may be read as the key of one, but no bracket closes it, and
behind the minus of a term there is no number. -/
theorem variant_of_opens {s : List Char} (h : Opens (skipBlank s)) :
    ∃ e, outcome (variant s) = .error e := by
  rw [outcome_variant]
  cases h' : skipBlank s with
  | nil => exact ⟨_, rfl⟩
  | cons a t =>
    rw [h'] at h
    rw [outcome_variantKey]
    cases h with
    | comment t => exact ⟨_, rfl⟩
    | point t => exact ⟨_, rfl⟩
    | @message _ name spaces t ha hname hspaces =>
      rw [if_neg (by simp [isDigit_of_isAlpha ha, ne_of_isAlpha ha (a := '-') (by decide)]),
        identifier_of_name t ha hname hspaces]
      simp only [Functor.map, Except.map, bind, Except.bind]
      rw [skipBlank_spaces hspaces, expect_of_head (d := ']') (by simp)]
      exact ⟨_, rfl⟩
    | @term d name spaces t hd hname hspaces =>
      rw [if_pos (by decide), outcome_number_minus, outcome_unsignedNumber, outcome_digits,
        if_neg (by simp [isDigit_of_isAlpha hd])]
      exact ⟨_, rfl⟩

/-- The variants are at their end there, since none begins with a name, a minus, a point or a
comment. -/
theorem variants_of_opens (seen : VariantsSeen) {s : List Char} (h : Opens (skipBlank s)) :
    outcome (variants seen s) = refuse seen.endFault? >>= fun _ => .ok ((), skipBlank s) := by
  rw [outcome_variants]
  split
  · next t ht =>
    rw [ht] at h
    exact absurd rfl (h.head_ne (d := '*') (by decide))
  · next t ht =>
    rw [ht] at h
    exact absurd rfl (h.head_ne (d := '[') (by decide))
  · rfl

/-! ## Values -/

/-- The same text is left in front of each tail, or all of it and the blanks each tail begins with
were skipped. -/
def BehindOrBlank (b c : List Char) (n : Nat) (rest rest' : List Char) : Prop :=
  Behind b c n rest rest' ∨ rest = skipBlank b ∧ rest' = skipBlank c

/-- Whatever is left, it is left in the same way when the blanks in front of it are skipped. -/
theorem BehindOrBlank.skipBlank (hb : IsTail b) (hc : IsTail c) {n : Nat} {rest rest' : List Char}
    (h : BehindOrBlank b c n rest rest') :
    BehindOrBlank b c n (skipBlank rest) (skipBlank rest') := by
  rcases h with ⟨w, hw, rfl, rfl⟩ | ⟨rfl, rfl⟩
  · rcases skipBlank_append_cases w with h | ⟨d, u, -, -, hu, h⟩
    · exact .inr ⟨h b, h c⟩
    · exact .inl ⟨d :: u, Nat.le_trans hu hw, h b, h c⟩
  · exact .inr ⟨hb.opens.skipBlank_eq, hc.opens.skipBlank_eq⟩

theorem BehindOrBlank.mono {n m : Nat} {rest rest' : List Char}
    (h : BehindOrBlank b c n rest rest') (hnm : n ≤ m) : BehindOrBlank b c m rest rest' :=
  h.imp_left fun h => h.mono hnm

/-- Behind blanks, a character that neither tail begins with stands in front of both or of none. -/
theorem mark_cases {k : Char} (hb : (FluentMerge.skipBlank b).head? ≠ some k)
    (hc : (FluentMerge.skipBlank c).head? ≠ some k) (s : List Char) :
    (∃ w, w.length < s.length ∧ FluentMerge.skipBlank (s ++ b) = k :: (w ++ b) ∧
        FluentMerge.skipBlank (s ++ c) = k :: (w ++ c)) ∨
      (∀ t, FluentMerge.skipBlank (s ++ b) ≠ k :: t) ∧
        ∀ t, FluentMerge.skipBlank (s ++ c) ≠ k :: t := by
  rcases skipBlank_append_cases s with h | ⟨d, w, -, -, hw, h⟩
  · refine .inr ⟨fun t ht => hb ?_, fun t ht => hc ?_⟩
    · rw [← h, ht]
      rfl
    · rw [← h, ht]
      rfl
  · by_cases hd : d = k
    · subst hd
      exact .inl ⟨w, hw, h b, h c⟩
    · refine .inr ⟨fun t ht => ?_, fun t ht => ?_⟩
      · exact hd (List.cons.inj ((h b).symm.trans ht)).1
      · exact hd (List.cons.inj ((h c).symm.trans ht)).1

/-- Behind blanks, a mark of values stands in front of both tails or of none. -/
theorem tail_mark_cases (hb : IsTail b) (hc : IsTail c) {k : Char} (hk : k ∈ valueMarks)
    (s : List Char) :
    (∃ w, w.length < s.length ∧ FluentMerge.skipBlank (s ++ b) = k :: (w ++ b) ∧
        FluentMerge.skipBlank (s ++ c) = k :: (w ++ c)) ∨
      (∀ t, FluentMerge.skipBlank (s ++ b) ≠ k :: t) ∧
        ∀ t, FluentMerge.skipBlank (s ++ c) ≠ k :: t :=
  mark_cases (hb.opens.head_ne hk) (hc.opens.head_ne hk) s

/-- A text on which one tail ends the line and another does not is all spaces. -/
theorem skipSpaces_eq_nil (hb : IsTail b) (hc : IsTail c) {s t : List Char}
    (h : skipSpaces (s ++ b) = '\n' :: t) (hne : ∀ t, skipSpaces (s ++ c) = '\n' :: t → False) :
    skipSpaces s = [] := by
  rw [hb.skipSpaces_append] at h
  rw [hc.skipSpaces_append] at hne
  cases hs : skipSpaces s with
  | nil => rfl
  | cons d w =>
    rw [hs] at h hne
    rw [List.cons_append, (List.cons.inj h).1] at hne
    exact absurd rfl (hne (w ++ c))

/-- No variant stands behind a text of spaces. -/
theorem variants_of_spaces (hb : IsTail b) {s : List Char} (h : skipSpaces s = []) :
    ∃ e, outcome (variants .nothing (s ++ b)) = .error e := by
  have hblank : FluentMerge.skipBlank (s ++ b) = FluentMerge.skipBlank b := by
    apply List.dropWhile_append_of_pos
    intro d hd
    simp only [skipSpaces, List.dropWhile_eq_nil_iff] at h
    rw [h d hd]
    rfl
  rw [variants_of_opens .nothing (hblank ▸ hb.opens)]
  exact ⟨_, rfl⟩

/-- The mark of a select expression does not reach into a tail. -/
theorem ne_arrow_append (hb : IsTail b) {d : Char} {s : List Char}
    (h : ¬(d = '-' ∧ s.head? = some '>')) (t : List Char) : d :: (s ++ b) ≠ '-' :: '>' :: t := by
  intro heq
  obtain ⟨rfl, hs⟩ := List.cons.inj heq
  cases s with
  | nil => exact absurd (hb.head_eq '>' (by rw [← List.nil_append b, hs]; rfl)) (by decide)
  | cons a s => exact h ⟨rfl, by rw [(List.cons.inj hs).1]; rfl⟩

/-- No part of a value is read from a tail: it is empty, or a line that does not go on with the
value. -/
theorem patternParts_of_tail (hb : IsTail b) : outcome (patternParts b) = .ok ([], b) := by
  cases hb with
  | nil => exact outcome_patternParts_nil
  | cons _ h =>
    rw [outcome_patternParts, if_pos rfl, h]
    rfl

/-- What was read up to a rest is text in front of the tail, and so it is the same for each tail. -/
theorem consumed_behind {s w : List Char} (h : w.length ≤ s.length) (b : List Char) :
    consumed (s ++ b) (w ++ b) = s.take (s.length - w.length) := by
  have hlength : (s ++ b).length - (w ++ b).length = s.length - w.length := by
    simp only [List.length_append]
    omega
  rw [consumed, hlength, List.take_append_of_le_length (by omega)]

mutual

/-- All readers within a value, by recursion on the length of the text in front of the tails.
Readers that call others on the same text are told apart as in the readers' own termination measure.
-/
theorem placeable_agree (hb : IsTail b) (hc : IsTail c) (s : List Char) :
    Agree (Behind b c s.length) (outcome (placeable (s ++ b))) (outcome (placeable (s ++ c))) := by
  rcases skipBlank_append_cases s with h | ⟨d, w, -, -, hw, h⟩
  · obtain ⟨e, he⟩ := placeable_of_opens (s := s ++ b) (h b ▸ hb.opens)
    obtain ⟨e', he'⟩ := placeable_of_opens (s := s ++ c) (h c ▸ hc.opens)
    rw [he, he']
    exact .fault e e'
  · rw [outcome_placeable, outcome_placeable, h, h]
    apply (expression_agree hb hc d w).bind
    rintro ⟨⟩ _ _ (⟨u, hu, rfl, rfl⟩ | ⟨rfl, rfl⟩)
    · exact (expect_agree hb hc (by decide) u).behind_mono (Nat.le_trans hu hw)
    · rw [expect_of_head (hb.opens.head_ne (by decide)),
        expect_of_head (hc.opens.head_ne (by decide))]
      exact .fault _ _
termination_by 4 * s.length + 3
decreasing_by
  all_goals
    simp only [List.length_cons] at *
    omega

/-- Behind an expression there may be nothing but a tail. Its blanks are skipped then, and no closing
brace is found behind them. -/
theorem expression_agree (hb : IsTail b) (hc : IsTail c) (d : Char) (s : List Char) :
    Agree (BehindOrBlank b c (d :: s).length) (outcome (expression (d :: (s ++ b))))
      (outcome (expression (d :: (s ++ c)))) := by
  rw [outcome_expression, outcome_expression]
  apply (inlineExpression_agree hb hc d s).bind
  rintro v _ _ ⟨u, hu, rfl, rfl⟩
  rcases skipBlank_append_cases u with h | ⟨a, x, -, -, hx, h⟩
  · -- an arrow cannot stand in a tail, so the operand is all there is
    simp only [h]
    split
    · next t ht => exact absurd ht (hb.opens.ne_arrow t)
    split
    · next t ht => exact absurd ht (hc.opens.ne_arrow t)
    · exact Agree.refuse _ (.value () (.inr ⟨rfl, rfl⟩))
  · -- the text holds both characters of an arrow or none of it
    simp only [h]
    by_cases harrow : a = '-' ∧ x.head? = some '>'
    · obtain ⟨rfl, hhead⟩ := harrow
      obtain ⟨y, rfl⟩ : ∃ y, x = '>' :: y := by
        cases x with
        | nil => cases hhead
        | cons z y => exact ⟨y, by rw [Option.some.inj hhead]⟩
      have hy : y.length + 2 ≤ (d :: s).length := Nat.le_trans hx hu
      dsimp only [List.cons_append]
      apply Agree.refuse
      split
      · next t ht =>
        split
        · exact ((variants_agree hb hc .nothing y).mapBoth (fun _ => ()) fun _ _ h =>
            h.skipBlank hb hc).mono fun _ _ h => h.mono (Nat.le_of_add_right_le hy)
        · next hne =>
          obtain ⟨e, he⟩ := variants_of_spaces hb (skipSpaces_eq_nil hb hc ht hne)
          rw [he]
          exact .fault e .arrowLineEnd
      · next hne =>
        split
        · next t ht =>
          obtain ⟨e, he⟩ := variants_of_spaces hc (skipSpaces_eq_nil hc hb ht hne)
          rw [he]
          exact .fault .arrowLineEnd e
        · exact .fault _ _
    · split
      · next t ht => exact absurd ht (ne_arrow_append hb harrow t)
      split
      · next t ht => exact absurd ht (ne_arrow_append hc harrow t)
      · exact Agree.refuse _ (.value () (.inl ⟨a :: x, Nat.le_trans hx hu, rfl, rfl⟩))
termination_by 4 * (d :: s).length + 2
decreasing_by
  all_goals
    simp only [List.length_cons] at *
    omega

theorem inlineExpression_agree (hb : IsTail b) (hc : IsTail c) (d : Char) (s : List Char) :
    Agree (Behind b c (d :: s).length) (outcome (inlineExpression (d :: (s ++ b))))
      (outcome (inlineExpression (d :: (s ++ c)))) := by
  have hdigit {t : List Char} (ht : IsTail t) :
      (s ++ t).head?.any Char.isDigit = s.head?.any Char.isDigit := by
    cases s with
    | nil => cases ht <;> rfl
    | cons a s => rfl
  rw [outcome_inlineExpression, outcome_inlineExpression, hdigit hb, hdigit hc]
  split
  · exact ((placeable_agree hb hc s).map fun _ => Operand.placeable).behind_mono (Nat.le_succ _)
  split
  · exact (number_agree hb hc (d :: s)).map fun _ => Operand.literal
  split
  · exact ((stringLiteral_agree hb hc s).map fun _ => Operand.literal).behind_mono (Nat.le_succ _)
  split
  · exact ((identifier_agree hb hc s).map fun _ => Operand.variableReference).behind_mono
      (Nat.le_succ _)
  split
  · exact (termReference_agree hb hc s).behind_mono (Nat.le_succ _)
  split
  · exact callOrReference_agree hb hc (d :: s)
  · exact .fault _ _
termination_by 4 * (d :: s).length + 1
decreasing_by
  all_goals
    simp only [List.length_cons] at *
    omega

theorem termReference_agree (hb : IsTail b) (hc : IsTail c) (s : List Char) :
    Agree (Behind b c s.length) (outcome (termReference (s ++ b)))
      (outcome (termReference (s ++ c))) := by
  rw [outcome_termReference, outcome_termReference]
  apply (identifier_agree hb hc s).bind
  rintro id _ _ ⟨u, hu, rfl, rfl⟩
  apply (attributeAccessor_agree hb hc u).bind
  rintro access _ _ ⟨v, hv, rfl, rfl⟩
  rcases tail_mark_cases hb hc (k := '(') (by decide) v with ⟨x, hx, hl, hr⟩ | ⟨hl, hr⟩
  · simp only [hl, hr]
    exact ((arguments_agree hb hc [] x).map fun _ => Operand.termReference access).behind_mono
      (by omega)
  · split
    · next t ht => exact absurd ht (hl t)
    · exact .value _ ⟨v, Nat.le_trans hv hu, rfl, rfl⟩
termination_by 4 * s.length + 1
decreasing_by
  all_goals
    simp only [List.length_cons] at *
    omega

theorem callOrReference_agree (hb : IsTail b) (hc : IsTail c) (s : List Char) :
    Agree (Behind b c s.length) (outcome (callOrReference (s ++ b)))
      (outcome (callOrReference (s ++ c))) := by
  rw [outcome_callOrReference, outcome_callOrReference]
  apply (identifier_agree hb hc s).bind
  rintro id _ _ ⟨u, hu, rfl, rfl⟩
  rcases tail_mark_cases hb hc (k := '(') (by decide) u with ⟨x, hx, hl, hr⟩ | ⟨hl, hr⟩
  · simp only [hl, hr]
    exact (((arguments_agree hb hc [] x).map fun _ => Operand.functionCall).behind_mono
      (by omega)).refuse _
  · split
    · next t ht => exact absurd ht (hl t)
    · exact ((attributeAccessor_agree hb hc u).map
        fun access => Operand.messageReference id access).behind_mono hu
termination_by 4 * s.length
decreasing_by
  all_goals
    simp only [List.length_cons] at *
    omega

theorem arguments_agree (hb : IsTail b) (hc : IsTail c) (named : List String) (s : List Char) :
    Agree (Behind b c s.length) (outcome (arguments named (s ++ b)))
      (outcome (arguments named (s ++ c))) := by
  rcases skipBlank_append_cases s with h | ⟨d, w, -, -, hw, h⟩
  · obtain ⟨e, he⟩ := arguments_of_opens named (s := s ++ b) (h b ▸ hb.opens)
    obtain ⟨e', he'⟩ := arguments_of_opens named (s := s ++ c) (h c ▸ hc.opens)
    rw [he, he']
    exact .fault e e'
  · rw [outcome_arguments, outcome_arguments, h, h]
    by_cases hd : d = ')'
    · subst hd
      exact .value _ ⟨w, Nat.le_of_lt hw, rfl, rfl⟩
    split
    · next t ht => exact absurd (List.cons.inj ht).1 hd
    split
    · next t ht => exact absurd (List.cons.inj ht).1 hd
    apply (argument_agree hb hc named d w).bind
    rintro first _ _ ⟨u, hu, rfl, rfl⟩
    rw [List.length_cons] at hu
    rcases tail_mark_cases hb hc (k := ',') (by decide) u with ⟨x, hx, hl, hr⟩ | ⟨hl, hr⟩
    · simp only [hl, hr]
      exact (arguments_agree hb hc first x).behind_mono (by omega)
    · split
      · next t ht => exact absurd ht (hl t)
      dsimp only
      rcases skipBlank_append_cases u with h | ⟨a, x, -, -, hx, h⟩
      · rw [h, h, expect_of_head (hb.opens.head_ne (by decide)),
          expect_of_head (hc.opens.head_ne (by decide))]
        exact .fault _ _
      · rw [h, h]
        exact (expect_agree hb hc (by decide) (a :: x)).behind_mono (Nat.le_trans hx (by omega))
termination_by 4 * s.length + 3
decreasing_by
  all_goals
    simp only [List.length_cons] at *
    omega

theorem argument_agree (hb : IsTail b) (hc : IsTail c) (named : List String) (d : Char)
    (s : List Char) :
    Agree (Behind b c (d :: s).length) (outcome (argument named (d :: (s ++ b))))
      (outcome (argument named (d :: (s ++ c)))) := by
  rw [outcome_argument, outcome_argument]
  apply (inlineExpression_agree hb hc d s).bind
  rintro operand _ _ ⟨u, hu, rfl, rfl⟩
  rcases tail_mark_cases hb hc (k := ':') (by decide) u with ⟨x, hx, hl, hr⟩ | ⟨hl, hr⟩
  · simp only [hl, hr]
    split
    · next name =>
      apply Agree.refuse
      rcases skipBlank_append_cases x with h | ⟨a, y, -, -, hy, h⟩
      · -- what a tail holds is an operand, but never a literal
        rw [h, h]
        obtain ⟨e, he⟩ := literalArgument_of_opens (name :: named) hb.opens
        obtain ⟨e', he'⟩ := literalArgument_of_opens (name :: named) hc.opens
        rw [he, he']
        exact .fault e e'
      · rw [h, h]
        apply (inlineExpression_agree hb hc a y).bind
        rintro value _ _ ⟨z, hz, rfl, rfl⟩
        rw [List.length_cons] at hz
        exact Agree.refuse _ (.value _ ⟨z, by omega, rfl, rfl⟩)
    · exact .fault _ _
  · split
    · next t ht => exact absurd ht (hl t)
    · exact Agree.refuse _ (.value _ ⟨u, hu, rfl, rfl⟩)
termination_by 4 * (d :: s).length + 2
decreasing_by
  all_goals
    simp only [List.length_cons] at *
    omega

/-- The variants may stop there as well. Which of them were seen is the same for both tails. -/
theorem variants_agree (hb : IsTail b) (hc : IsTail c) (seen : VariantsSeen) (s : List Char) :
    Agree (BehindOrBlank b c s.length) (outcome (variants seen (s ++ b)))
      (outcome (variants seen (s ++ c))) := by
  rcases skipBlank_append_cases s with h | ⟨d, w, -, -, hw, h⟩
  · -- the blank text in front of a tail is left to the closing brace
    rw [variants_of_opens seen (s := s ++ b) (h b ▸ hb.opens),
      variants_of_opens seen (s := s ++ c) (h c ▸ hc.opens), h, h]
    exact Agree.refuse _ (.value () (.inr ⟨rfl, rfl⟩))
  · rw [outcome_variants, outcome_variants, h, h]
    by_cases hdefault : d = '*'
    · subst hdefault
      refine Agree.refuse _ ((expect_agree hb hc (by decide) w).bind ?_)
      rintro ⟨⟩ _ _ ⟨u, hu, rfl, rfl⟩
      apply (variant_agree hb hc u).bind
      rintro ⟨⟩ _ _ ⟨v, hv, rfl, rfl⟩
      exact (variants_agree hb hc .withDefault v).mono fun _ _ h => h.mono (by omega)
    by_cases hplain : d = '['
    · subst hplain
      apply (variant_agree hb hc w).bind
      rintro ⟨⟩ _ _ ⟨v, hv, rfl, rfl⟩
      exact (variants_agree hb hc seen.addPlain v).mono fun _ _ h => h.mono (by omega)
    · split
      · next t ht => exact absurd (List.cons.inj ht).1 hdefault
      · next t ht => exact absurd (List.cons.inj ht).1 hplain
      split
      · next t ht => exact absurd (List.cons.inj ht).1 hdefault
      · next t ht => exact absurd (List.cons.inj ht).1 hplain
      · exact Agree.refuse _ (.value () (.inl ⟨d :: w, hw, rfl, rfl⟩))
termination_by 4 * s.length
decreasing_by
  all_goals
    simp only [List.length_cons] at *
    omega

theorem variant_agree (hb : IsTail b) (hc : IsTail c) (s : List Char) :
    Agree (Behind b c s.length) (outcome (variant (s ++ b))) (outcome (variant (s ++ c))) := by
  rcases skipBlank_append_cases s with h | ⟨d, w, -, -, hw, h⟩
  · obtain ⟨e, he⟩ := variant_of_opens (s := s ++ b) (h b ▸ hb.opens)
    obtain ⟨e', he'⟩ := variant_of_opens (s := s ++ c) (h c ▸ hc.opens)
    rw [he, he']
    exact .fault e e'
  · rw [outcome_variant, outcome_variant, h, h]
    apply (variantKey_agree hb hc d w).bind
    rintro ⟨⟩ _ _ ⟨u, hu, rfl, rfl⟩
    dsimp only
    rcases skipBlank_append_cases u with h | ⟨a, x, -, -, hx, h⟩
    · rw [h, h, expect_of_head (hb.opens.head_ne (by decide)),
        expect_of_head (hc.opens.head_ne (by decide))]
      exact .fault _ _
    · rw [h, h]
      apply (expect_agree hb hc (by decide) (a :: x)).bind
      rintro ⟨⟩ _ _ ⟨y, hy, rfl, rfl⟩
      refine (pattern?_agree hb hc y).bind ?_
      rintro value _ _ ⟨z, hz, rfl, rfl⟩
      simp only [List.length_cons] at hu hy
      exact Agree.refuse _ (.value () ⟨z, by omega, rfl, rfl⟩)
termination_by 4 * s.length + 2
decreasing_by
  all_goals
    simp only [List.length_cons] at *
    omega

/-- A value goes on below if a line of the text continues it, and no line of a tail does. -/
theorem pattern?_agree (hb : IsTail b) (hc : IsTail c) (s : List Char) :
    Agree (Behind b c s.length) (outcome (pattern? (s ++ b))) (outcome (pattern? (s ++ c))) := by
  have hle := (skipSpaces_suffix s).length_le
  have hnone : Agree (Behind b c s.length) (.ok ((none : Option Pattern), s ++ b))
      (.ok (none, s ++ c)) := .value none ⟨s, Nat.le_refl _, rfl, rfl⟩
  rw [outcome_pattern?, outcome_pattern?, hb.skipSpaces_append, hc.skipSpaces_append]
  cases hs : skipSpaces s with
  | nil =>
    have hhead {t : List Char} (ht : IsTail t) : t.head?.any (· != '\n') = false := by
      cases ht <;> rfl
    simp only [List.nil_append, hhead hb, hhead hc, hb.continuesValue_eq, hc.continuesValue_eq]
    exact hnone
  | cons d w =>
    have hw : (d :: w).length ≤ s.length := hs ▸ hle
    by_cases hd : d = '\n'
    · subst hd
      have hany (t : List Char) : ('\n' :: w ++ t).head?.any (· != '\n') = false := rfl
      -- whether the value goes on below is seen within the text, or it does not on any tail
      rcases continuation_cases ('\n' :: w) with h | ⟨n, line, hline, h⟩
      · simp only [h b hb, h c hc, hany]
        exact hnone
      · have hlength := (skipSpaces_suffix line).length_le
        rw [(h b hb).1, (h c hc).1]
        simp only [(h b hb).2, (h c hc).2, hany, if_true, Bool.false_eq_true, if_false]
        rw [hb.leadingSpaces_append, hc.leadingSpaces_append, hb.skipSpaces_append,
          hc.skipSpaces_append]
        exact ((patternParts_agree hb hc (skipSpaces line)).map fun parts =>
          some (Pattern.ofParts (.indent 0 (leadingSpaces line) :: parts))).behind_mono
            (Nat.le_trans hlength (Nat.le_trans hline hw))
    · have hany (t : List Char) : (d :: w ++ t).head?.any (· != '\n') = true := by simp [hd]
      simp only [hany, if_true]
      exact ((patternParts_agree hb hc (d :: w)).map fun parts =>
        some (Pattern.ofParts parts)).behind_mono hw
termination_by 4 * s.length + 1
decreasing_by
  all_goals
    simp only [List.length_cons] at *
    omega

theorem patternParts_agree (hb : IsTail b) (hc : IsTail c) (s : List Char) :
    Agree (Behind b c s.length) (outcome (patternParts (s ++ b)))
      (outcome (patternParts (s ++ c))) := by
  cases s with
  | nil =>
    rw [List.nil_append, List.nil_append, patternParts_of_tail hb, patternParts_of_tail hc]
    exact .value _ ⟨[], Nat.le_refl _, rfl, rfl⟩
  | cons d s =>
    simp only [List.cons_append, outcome_patternParts]
    by_cases hline : d = '\n'
    · subst hline
      simp only [if_true]
      rcases continuation_cases s with h | ⟨n, line, hlength, h⟩
      · simp only [h b hb, h c hc]
        exact .value _ ⟨'\n' :: s, Nat.le_refl _, rfl, rfl⟩
      · have hle := (skipSpaces_suffix line).length_le
        rw [(h b hb).1, (h c hc).1]
        simp only [(h b hb).2, (h c hc).2, if_true]
        rw [hb.leadingSpaces_append, hc.leadingSpaces_append, hb.skipSpaces_append,
          hc.skipSpaces_append]
        exact ((patternParts_agree hb hc (skipSpaces line)).map fun parts =>
          .indent (n + 1) (leadingSpaces line) :: parts).behind_mono
            (Nat.le_succ_of_le (Nat.le_trans hle hlength))
    rw [if_neg hline, if_neg hline]
    by_cases hopen : d = '{'
    · rw [if_pos hopen, if_pos hopen]
      apply (placeable_agree hb hc s).bind
      rintro ⟨⟩ _ _ ⟨u, hu, rfl, rfl⟩
      rw [consumed_behind hu, consumed_behind hu]
      exact ((patternParts_agree hb hc u).map fun parts =>
        .placeable (placeableSource (s.take (s.length - u.length))) :: parts).behind_mono
          (Nat.le_succ_of_le hu)
    rw [if_neg hopen, if_neg hopen]
    split
    · exact .fault _ _
    · have htext : isTextChar '\n' = false := by decide
      have hle := (List.dropWhile_suffix (l := s) isTextChar).length_le
      rw [hb.takeWhile_append htext, hc.takeWhile_append htext, hb.dropWhile_append htext,
        hc.dropWhile_append htext]
      exact ((patternParts_agree hb hc (s.dropWhile isTextChar)).map fun parts =>
        .text (d :: s.takeWhile isTextChar) :: parts).behind_mono (Nat.le_succ_of_le hle)
termination_by 4 * s.length
decreasing_by
  all_goals
    simp only [List.length_cons] at *
    omega

end

/-! ## Entries

Attributes go on over blank lines, so the tails of an entry must not begin with one. -/

/-- The head of an entry, or an attribute: a name, an equals sign and a value. -/
theorem definition_agree (hb : IsTail b) (hc : IsTail c) (s : List Char) :
    Agree (Behind b c s.length) (outcome (definition (s ++ b)))
      (outcome (definition (s ++ c))) := by
  rw [outcome_definition, outcome_definition]
  apply (identifier_agree hb hc s).bind
  rintro id _ _ ⟨u, hu, rfl, rfl⟩
  rw [hb.skipSpaces_append, hc.skipSpaces_append]
  apply (expect_agree hb hc (by decide) (skipSpaces u)).bind
  rintro ⟨⟩ _ _ ⟨v, hv, rfl, rfl⟩
  have hle := (skipSpaces_suffix u).length_le
  exact ((pattern?_agree hb hc v).map fun value => (id, value)).behind_mono (by omega)

/-- A point behind blanks would go on with the attributes, so no tail may begin with one. -/
theorem attributes_agree (hb : IsTail b) (hc : IsTail c)
    (hb' : (FluentMerge.skipBlank b).head? ≠ some '.')
    (hc' : (FluentMerge.skipBlank c).head? ≠ some '.') (s : List Char) :
    Agree (Behind b c s.length) (outcome (attributes (s ++ b)))
      (outcome (attributes (s ++ c))) := by
  rw [outcome_attributes, outcome_attributes]
  rcases mark_cases hb' hc' s with ⟨w, hw, hl, hr⟩ | ⟨hl, hr⟩
  · simp only [hl, hr]
    apply (definition_agree hb hc w).bind
    rintro ⟨id, value⟩ _ _ ⟨u, hu, rfl, rfl⟩
    cases value with
    | none => exact .fault _ _
    | some value =>
      have hle : u.length ≤ s.length := Nat.le_trans hu (Nat.le_of_lt hw)
      exact ((attributes_agree hb hc hb' hc' u).map fun others =>
        (⟨id, value⟩ : Attribute) :: others).behind_mono hle
  · split
    · next t ht => exact absurd ht (hl t)
    · exact .value _ ⟨s, Nat.le_refl _, rfl, rfl⟩
termination_by s.length

theorem message_agree (hb : IsTail b) (hc : IsTail c)
    (hb' : (FluentMerge.skipBlank b).head? ≠ some '.')
    (hc' : (FluentMerge.skipBlank c).head? ≠ some '.') (s : List Char) :
    Agree (Behind b c s.length) (outcome (message (s ++ b))) (outcome (message (s ++ c))) := by
  rw [outcome_message, outcome_message]
  apply (definition_agree hb hc s).bind
  rintro head _ _ ⟨u, hu, rfl, rfl⟩
  apply (attributes_agree hb hc hb' hc' u).bind
  rintro tail _ _ ⟨v, hv, rfl, rfl⟩
  exact Agree.refuse _ (.value _ ⟨v, Nat.le_trans hv hu, rfl, rfl⟩)

theorem term_agree (hb : IsTail b) (hc : IsTail c)
    (hb' : (FluentMerge.skipBlank b).head? ≠ some '.')
    (hc' : (FluentMerge.skipBlank c).head? ≠ some '.') (s : List Char) :
    Agree (Behind b c s.length) (outcome (term (s ++ b))) (outcome (term (s ++ c))) := by
  rw [outcome_term, outcome_term]
  apply (definition_agree hb hc s).bind
  rintro ⟨id, value⟩ _ _ ⟨u, hu, rfl, rfl⟩
  cases value with
  | none => exact .fault _ _
  | some value =>
    exact ((attributes_agree hb hc hb' hc' u).map fun attributes =>
      (⟨id, value, attributes, none, none⟩ : Term)).behind_mono hu

/-- An entry other than a comment is read alike on both tails. -/
theorem entry_agree (hb : IsTail b) (hc : IsTail c)
    (hb' : (FluentMerge.skipBlank b).head? ≠ some '.')
    (hc' : (FluentMerge.skipBlank c).head? ≠ some '.') {d : Char} (hd : d ≠ '#') (s : List Char) :
    Agree (Behind b c (d :: s).length) (outcome (entry (d :: (s ++ b))))
      (outcome (entry (d :: (s ++ c)))) := by
  rw [outcome_entry, outcome_entry, if_neg hd, if_neg hd]
  split
  · exact ((term_agree hb hc hb' hc' s).map Entry.term).behind_mono (Nat.le_succ _)
  split
  · exact (message_agree hb hc hb' hc' (d :: s)).map Entry.message
  · exact .fault _ _

end Read

end FluentMerge
