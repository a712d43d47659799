import FluentMerge.Proofs.Expression.Rules
import FluentMerge.Proofs.Expression.Written

/-!
# Reading expressions

A written expression is read back if it obeys the rules, and comes to a fault if it does not. The
readers call one another as the trees hold one another, so there is one statement for each kind of
tree and each list of trees, and all are proved together by recursion on the tree.

Of the value of a variant it only counts where its text ends: neighbouring texts are read as one, so
`remainder` forgets what the parts are.
-/

namespace FluentMerge

open Read
open Text (IsSolid isWhite)

variable (w : Indents) (depth : Nat)

/-! ## References and calls -/

theorem inlineExpression_number (n : NumberLiteral) {rest : List Char} (h : Stops rest) :
    outcome (inlineExpression (n.print ++ rest)) = .ok (.literal, rest) := by
  have hread := n.reads h
  rcases n.print_cases with ⟨c, t, hn, hc⟩ | ⟨c, t, hn, hc⟩
  · have hbrace : c ≠ '{' := ne_of_isDigit hc (by decide)
    rw [hn, List.cons_append] at hread ⊢
    rw [outcome_inlineExpression, if_neg hbrace, if_pos (by simp [hc]), hread]
    rfl
  · rw [hn, List.cons_append, List.cons_append] at hread ⊢
    rw [outcome_inlineExpression, if_neg (by decide), if_pos (by simp [hc]), hread]
    rfl

/-- What begins with a name is a call or a reference to a message. -/
theorem inlineExpression_name (id : Name) (s : List Char) :
    outcome (inlineExpression (id.text.toList ++ s)) =
      outcome (callOrReference (id.text.toList ++ s)) := by
  obtain ⟨c, t, hid, hc, -⟩ := id.exists_cons
  have hminus : c ≠ '-' := ne_of_isAlpha hc (by decide)
  rw [hid, List.cons_append, outcome_inlineExpression, if_neg (ne_of_isAlpha hc (by decide)),
    if_neg (by simp [isDigit_of_isAlpha hc, hminus]), if_neg (ne_of_isAlpha hc (by decide)),
    if_neg (ne_of_isAlpha hc (by decide)), if_neg hminus, if_pos hc]

/-- What begins with a minus sign and a name is a reference to a term. -/
theorem inlineExpression_minus (id : Name) (s : List Char) :
    outcome (inlineExpression ('-' :: (id.text.toList ++ s))) =
      outcome (termReference (id.text.toList ++ s)) := by
  obtain ⟨c, t, hid, hc, -⟩ := id.exists_cons
  rw [outcome_inlineExpression, if_neg (by decide), if_neg (by simp [hid, isDigit_of_isAlpha hc]),
    if_neg (by decide), if_neg (by decide), if_pos rfl]

theorem messageReference_reads (id : Name) (access : Option Name) {rest : List Char}
    (h : Stops rest) :
    outcome (inlineExpression (id.text.toList ++ (printAccess access ++ rest))) =
      .ok (.messageReference id.text access.isSome, rest) := by
  have hbracket : (skipBlank (printAccess access ++ rest)).head? ≠ some '(' := by
    cases access with
    | none => exact h.bracket
    | some id' => simp [printAccess, skipBlank]
  rw [inlineExpression_name, outcome_callOrReference, id.reads (printAccess_head access h.name)]
  simp only [bind, Except.bind]
  split
  · next t ht => exact absurd (by rw [ht]; rfl) hbracket
  · rw [attributeAccessor_reads access h.name h.point]
    rfl

theorem termReference_reads (id : Name) (access : Option Name) {rest : List Char}
    (h : Stops rest) :
    outcome (inlineExpression ('-' :: (id.text.toList ++ (printAccess access ++ rest)))) =
      .ok (.termReference access.isSome, rest) := by
  rw [inlineExpression_minus, outcome_termReference, id.reads (printAccess_head access h.name)]
  simp only [bind, Except.bind]
  rw [attributeAccessor_reads access h.name h.point]
  simp only
  split
  · next t ht => exact absurd (by rw [ht]; rfl) h.bracket
  · rfl

/-- A term with arguments is read as its arguments are. -/
theorem outcome_termCall (id : Name) (access : Option Name) (s : List Char) :
    outcome (inlineExpression ('-' :: (id.text.toList ++ (printAccess access ++ '(' :: s)))) =
      (fun p => (.termReference access.isSome, p.2)) <$> outcome (arguments [] s) := by
  have hname : ∀ c ∈ ('(' :: s).head?, isNameChar c = false := by simp [isNameChar]
  rw [inlineExpression_minus, outcome_termReference, id.reads (printAccess_head access hname)]
  simp only [bind, Except.bind]
  rw [attributeAccessor_reads access hname (by simp)]
  rfl

/-- The call of a function is read as its arguments are, if the function may have its name. -/
theorem outcome_functionCall (id : Name) (s : List Char) :
    outcome (inlineExpression (id.text.toList ++ '(' :: s)) =
      refuse (if isFunctionName id.text then none else some (.functionName id.text)) >>= fun _ =>
        (fun p => (.functionCall, p.2)) <$> outcome (arguments [] s) := by
  rw [inlineExpression_name, outcome_callOrReference, id.reads (by simp [isNameChar])]
  rfl

theorem outcome_arguments_space (named : List String) (s : List Char) :
    outcome (arguments named (' ' :: s)) = outcome (arguments named s) := by
  rw [outcome_arguments, outcome_arguments, skipBlank_space]

/-- Where the arguments do not end, one is read, and then others behind a comma or the end. -/
theorem outcome_arguments_of_argument {named : List String} {s : List Char}
    (hblank : skipBlank s = s) (hend : s.head? ≠ some ')') :
    outcome (arguments named s) = outcome (argument named s) >>= fun first =>
      match skipBlank first.2 with
      | ',' :: t => outcome (arguments first.1 t)
      | rest => outcome (expect ')' rest) := by
  rw [outcome_arguments, hblank]
  split
  · exact absurd rfl hend
  · rfl

/-! ## Values of variants -/

/-- What is left of the text, of all that a reader comes to. -/
def remainder {α : Type} (x : Except SyntaxError (α × List Char)) : Except SyntaxError (List Char) :=
  (·.2) <$> x

theorem remainder_map {α β : Type} (f : α → β) (x : Except SyntaxError (α × List Char)) :
    remainder ((fun p => (f p.1, p.2)) <$> x) = remainder x := by
  cases x <;> rfl

theorem remainder_patternParts_dropWhile (s : List Char) :
    remainder (outcome (patternParts s)) =
      remainder (outcome (patternParts (s.dropWhile isTextChar))) := by
  cases s with
  | nil => rfl
  | cons c t =>
    by_cases hc : isTextChar c = true
    · have hne : c ≠ '\n' ∧ c ≠ '{' ∧ c ≠ '}' := by simpa [isTextChar, and_assoc] using hc
      rw [outcome_patternParts, if_neg hne.1, if_neg hne.2.1, if_neg hne.2.2, remainder_map,
        List.dropWhile_cons_of_pos hc]
    · rw [List.dropWhile_cons_of_neg hc]

/-- Text in front does not change where a value ends. -/
theorem remainder_patternParts_text {u : List Char} (hu : ∀ c ∈ u, isTextChar c = true)
    (s : List Char) :
    remainder (outcome (patternParts (u ++ s))) = remainder (outcome (patternParts s)) := by
  rw [remainder_patternParts_dropWhile, List.dropWhile_append_of_pos hu,
    ← remainder_patternParts_dropWhile]

theorem remainder_patternParts_placeable (s : List Char) :
    remainder (outcome (patternParts ('{' :: s))) =
      outcome (placeable s) >>= fun closed => remainder (outcome (patternParts closed.2)) := by
  rw [outcome_patternParts, if_neg (by decide), if_pos rfl]
  cases outcome (placeable s) with
  | error e => rfl
  | ok closed => exact remainder_map _ _

/-- What may stand behind a value: the end of the line, and a line that does not go on with it. -/
def EndsValue (tail : List Char) : Prop :=
  ∃ t, tail = '\n' :: t ∧ continuesValue (skipBlankLines t).2 = false

theorem EndsValue.patternParts_eq {tail : List Char} (h : EndsValue tail) :
    outcome (patternParts tail) = .ok ([], tail) := by
  obtain ⟨t, rfl, ht⟩ := h
  rw [outcome_patternParts, if_pos rfl, ht, if_neg (by simp)]

/-- A line does not go on with a value if it begins with what a variant begins with or with a
closing brace. -/
theorem endsValue_newLine (n : Nat) {c : Char} (hc : c ∈ ['[', '*', '}']) (t : List Char) :
    EndsValue (newLine n ++ c :: t) := by
  have hne : c ≠ ' ' ∧ c ≠ '\n' ∧ c ≠ '{' ∧ c ∈ ['\n', '}', '.', '[', '*'] := by
    simp only [List.mem_cons, List.not_mem_nil, or_false] at hc
    rcases hc with rfl | rfl | rfl <;> decide
  have hspaces : skipSpaces (List.replicate n ' ' ++ c :: t) = c :: t := by
    rw [skipSpaces, List.dropWhile_append_of_pos
      (by intro d hd; rw [List.eq_of_mem_replicate hd]; rfl)]
    simp [hne.1]
  refine ⟨List.replicate n ' ' ++ c :: t, rfl, ?_⟩
  rw [skipBlankLines_of_ne hspaces hne.2.1, continuesValue, hspaces]
  simp only [beq_eq_false_iff_ne.2 hne.2.2.1, List.contains_iff_mem.2 hne.2.2.2]
  simp

/-! ## Variants -/

/-- A variant is read as its value is. -/
theorem variant_decides (key : VariantKey) {rule : Prop} {u s tail : List Char} (hu : IsSolid u)
    (h : Decides rule tail (remainder (outcome (patternParts (u ++ s))))) :
    Decides rule ((), tail) (outcome (variant (key.print ++ ']' :: ' ' :: (u ++ s)))) := by
  have hspaces : skipSpaces (' ' :: (u ++ s)) = u ++ s := skipSpaces_of_isSolid hu s
  have hline : (u ++ s).head?.any (· != '\n') = true := by
    obtain ⟨c, t, rfl, -, hne⟩ := exists_cons_of_isSolid hu
    simpa using hne
  have hvalue : outcome (variant (key.print ++ ']' :: ' ' :: (u ++ s))) =
      (fun rest => ((), rest)) <$> remainder (outcome (patternParts (u ++ s))) := by
    have hclose : outcome (expect ']' (skipBlank (']' :: ' ' :: (u ++ s)))) =
        .ok ((), ' ' :: (u ++ s)) := rfl
    rw [outcome_variant, skipBlank_of_isSolid key.isSolid, key.reads (stops_cons ']' (by simp) _)]
    simp only [bind, Except.bind]
    rw [hclose]
    simp only
    rw [outcome_pattern?, hspaces, if_pos hline]
    cases outcome (patternParts (u ++ s)) <;> rfl
  rw [hvalue]
  exact h.map _

/-- Behind a variant either another begins or the select expression ends. -/
theorem endsValue_printVariants (variants : List Variant) (n : Nat) (rest : List Char) :
    EndsValue (printVariants w depth variants ++ (newLine n ++ '}' :: rest)) := by
  cases variants with
  | nil => exact endsValue_newLine n (by simp) rest
  | cons v variants =>
    obtain ⟨isDefault, key, first, others⟩ := v
    rw [printVariants, List.append_assoc, Variant.print]
    cases isDefault with
    | true => exact endsValue_newLine _ (by simp) _
    | false => exact endsValue_newLine _ (by simp) _

/-- The first variant, or the brace where there is none, stands on a line of its own. -/
theorem printVariants_eq_lineEnd (variants : List Variant) (n : Nat) (rest : List Char) :
    ∃ t, printVariants w depth variants ++ (newLine n ++ rest) = '\n' :: t := by
  cases variants with
  | nil => exact ⟨_, rfl⟩
  | cons v variants =>
    rw [printVariants]
    exact ⟨_, rfl⟩

/-! ## Arguments -/

theorem positional_decides {named : List String} {value : InlineExpression} {s rest : List Char}
    (h : Decides value.Obeys (value.operand, rest) (outcome (inlineExpression s)))
    (hcolon : (skipBlank rest).head? ≠ some ':') :
    Decides (named = [] ∧ value.Obeys) (named, rest) (outcome (argument named s)) := by
  rw [outcome_argument, and_comm]
  refine h.bind ?_
  dsimp only
  split
  · next t ht => exact absurd (by rw [ht]; rfl) hcolon
  · exact .refuse_ok (by simp) _

theorem named_decides {named : List String} {id : Name} {value : InlineExpression}
    {s rest : List Char} (hs : skipBlank s = s)
    (h : Decides value.Obeys (value.operand, rest) (outcome (inlineExpression s))) :
    Decides ((id.text ∉ named ∧ value.IsLiteral) ∧ value.Obeys) (id.text :: named, rest)
      (outcome (argument named (id.text.toList ++ ':' :: ' ' :: s))) := by
  have hname : outcome (inlineExpression (id.text.toList ++ ':' :: ' ' :: s)) =
      .ok (.messageReference id.text false, ':' :: ' ' :: s) :=
    messageReference_reads id none (stops_cons ':' (by simp) _)
  have hblank : skipBlank (' ' :: s) = s := hs
  rw [outcome_argument, and_assoc, and_comm (a := value.IsLiteral), ← true_and (_ ∧ _)]
  refine Decides.bind (.of_eq hname) (Decides.bind (.refuse ?_) ?_)
  · simp
  · rw [hblank]
    refine h.bind (.refuse_ok ?_ _)
    rw [← value.operand_eq_literal_iff]
    simp

/-! ## All trees -/

/-- A placeable is read as the expression in it is. -/
theorem Expression.placeable_decides {e : Expression} {rest : List Char}
    (h : Decides e.Obeys ((), '}' :: rest)
      (outcome (expression (e.print w depth ++ (e.closing w depth ++ rest))))) :
    Decides e.Obeys ((), rest)
      (outcome (placeable (' ' :: (e.print w depth ++ (e.closing w depth ++ rest))))) := by
  rw [outcome_placeable, skipBlank_space, skipBlank_of_isSolid (e.isSolid w depth)]
  have hclose : outcome (expect '}' ('}' :: rest)) = .ok ((), rest) := rfl
  exact (h.bind (.of_eq hclose)).congr (and_iff_left trivial)

theorem argumentsObey_cons_iff {named : List String} {a : Argument} {args : List Argument} :
    (ArgumentRulesAfter named (a :: args) ∧ ∀ b ∈ a :: args, b.Obeys) ↔
      (a.Fits named ∧ a.Obeys) ∧
        ArgumentRulesAfter (a.namesAfter named) args ∧ ∀ b ∈ args, b.Obeys := by
  rw [argumentRulesAfter_cons_iff, List.forall_mem_cons, and_and_and_comm]

mutual

/-- Reading an operand decides whether it obeys the rules, whatever may stand behind it. -/
theorem InlineExpression.decides (e : InlineExpression) (depth : Nat) {rest : List Char}
    (h : Stops rest) :
    Decides e.Obeys (e.operand, rest) (outcome (inlineExpression (e.print w depth ++ rest))) := by
  match e with
  | .string pieces =>
    have hread := stringLiteral_reads pieces rest
    rw [InlineExpression.print, List.cons_append, List.append_assoc, outcome_inlineExpression,
      if_neg (by decide), if_neg (by simp), if_pos rfl, InlineExpression.Obeys]
    exact (Decides.of_eq hread).map fun p => (Operand.literal, p.2)
  | .number n =>
    rw [InlineExpression.print, InlineExpression.Obeys]
    exact .of_eq (inlineExpression_number n h)
  | .variableReference id =>
    rw [InlineExpression.print, List.cons_append, outcome_inlineExpression, if_neg (by decide),
      if_neg (by simp), if_neg (by decide), if_pos rfl, InlineExpression.Obeys]
    exact (Decides.of_eq (id.reads h.name)).map fun p => (Operand.variableReference, p.2)
  | .messageReference id access =>
    rw [InlineExpression.print, List.append_assoc, InlineExpression.Obeys]
    exact .of_eq (messageReference_reads id access h)
  | .termReference id access =>
    rw [InlineExpression.print, List.cons_append, List.append_assoc, InlineExpression.Obeys]
    exact .of_eq (termReference_reads id access h)
  | .termCall id access args =>
    -- only calls and placeables have rules of their own
    have hargs := arguments_decide args depth [] rest
    have htext : (InlineExpression.termCall id access args).print w depth ++ rest =
        '-' :: (id.text.toList ++ (printAccess access ++
          '(' :: (printArguments w depth args ++ ')' :: rest))) := by
      simp [InlineExpression.print]
    rw [htext, outcome_termCall, InlineExpression.Obeys, ← argumentRulesAfter_none_iff]
    exact hargs.map fun p => (Operand.termReference access.isSome, p.2)
  | .functionCall id args =>
    have hargs := arguments_decide args depth [] rest
    have htext : (InlineExpression.functionCall id args).print w depth ++ rest =
        id.text.toList ++ '(' :: (printArguments w depth args ++ ')' :: rest) := by
      simp [InlineExpression.print]
    rw [htext, outcome_functionCall, InlineExpression.Obeys, ← argumentRulesAfter_none_iff]
    -- the name of a function is judged before its arguments
    refine Decides.bind (.refuse ?_) (hargs.map fun p => (Operand.functionCall, p.2))
    rw [← id.isFunctionName_iff]
    simp
  | .placeable e =>
    have hinside := Expression.placeable_decides w (depth + 1) (e.decides (depth + 1) rest)
    rw [InlineExpression.print, InlineExpression.Obeys, List.cons_append, List.cons_append,
      List.append_assoc, outcome_inlineExpression, if_pos rfl]
    exact hinside.map fun p => (Operand.placeable, p.2)

/-- An argument is also refused where it may not stand behind the arguments before it. -/
theorem Argument.decides (a : Argument) (depth : Nat) (named : List String) {rest : List Char}
    (h : Stops rest) (hcolon : (skipBlank rest).head? ≠ some ':') :
    Decides (a.Fits named ∧ a.Obeys) (a.namesAfter named, rest)
      (outcome (argument named (a.print w depth ++ rest))) := by
  match a with
  | .positional value =>
    rw [Argument.print, Argument.Obeys]
    exact positional_decides (value.decides depth h) hcolon
  | .named id value =>
    have hblank := skipBlank_of_isSolid (value.isSolid w depth) rest
    rw [Argument.print, Argument.Obeys, List.append_assoc]
    exact named_decides hblank (value.decides depth h)

theorem arguments_decide (args : List Argument) (depth : Nat) (named : List String)
    (rest : List Char) :
    Decides (ArgumentRulesAfter named args ∧ ∀ a ∈ args, a.Obeys) ((), rest)
      (outcome (arguments named (printArguments w depth args ++ ')' :: rest))) := by
  match args with
  | [] =>
    have hrules : ArgumentRulesAfter named [] ∧ ∀ a ∈ ([] : List Argument), a.Obeys :=
      ⟨argumentRulesAfter_nil named, by simp⟩
    rw [printArguments, List.nil_append, outcome_arguments]
    exact .kept hrules
  | [a] =>
    have hfirst := a.decides depth named (stops_cons ')' (by simp) rest) (by simp [skipBlank])
    rw [printArguments, outcome_arguments_of_argument (skipBlank_of_isSolid (a.isSolid w depth) _)
      (a.print_head w depth _), argumentsObey_cons_iff]
    refine hfirst.bind ?_
    exact .kept ⟨argumentRulesAfter_nil _, by simp⟩
  | a :: b :: args =>
    have hothers := arguments_decide (b :: args) depth (a.namesAfter named) rest
    -- another argument follows, so the comma is read and reading starts again
    have hfirst := a.decides depth named
      (stops_cons ',' (by simp) (' ' :: (printArguments w depth (b :: args) ++ ')' :: rest)))
      (by simp [skipBlank])
    rw [printArguments, List.append_assoc, List.cons_append, List.cons_append,
      outcome_arguments_of_argument (skipBlank_of_isSolid (a.isSolid w depth) _)
        (a.print_head w depth _), argumentsObey_cons_iff]
    refine hfirst.bind ?_
    rw [← outcome_arguments_space] at hothers
    exact hothers

/-- Reading what stands in a placeable decides whether it obeys the rules. The closing brace is
left. -/
theorem Expression.decides (e : Expression) (depth : Nat) (rest : List Char) :
    Decides e.Obeys ((), '}' :: rest)
      (outcome (expression (e.print w depth ++ (e.closing w depth ++ rest)))) := by
  match e with
  | .inline e =>
    have hinline := e.decides depth (stops_space '}' (by simp) rest)
    rw [Expression.print, Expression.closing, Expression.Obeys, outcome_expression, and_comm]
    refine hinline.bind ?_
    exact .refuse_ok e.placeableFault?_operand _
  | .select selector variants =>
    have hselector := selector.decides depth (stops_space '-' (by simp)
      ('>' :: (printVariants w depth variants ++ (newLine (w.brace depth) ++ '}' :: rest))))
    have hvariants := variants_decide variants depth .nothing (w.brace depth) rest
    have htext : (Expression.select selector variants).print w depth ++
          ((Expression.select selector variants).closing w depth ++ rest) =
        selector.print w depth ++ ' ' :: '-' :: '>' ::
          (printVariants w depth variants ++ (newLine (w.brace depth) ++ '}' :: rest)) := by
      simp [Expression.print, Expression.closing]
    -- the selector is read before it is asked whether it can select
    rw [htext, outcome_expression, Expression.Obeys, and_left_comm]
    have hzero : VariantsSeen.nothing.defaults + variants.countP Variant.isDefault =
        variants.countP Variant.isDefault := Nat.zero_add _
    obtain ⟨t, ht⟩ := printVariants_eq_lineEnd w depth variants (w.brace depth) ('}' :: rest)
    refine hselector.bind ?_
    rw [hzero, ht] at hvariants
    rw [ht]
    refine Decides.bind (.refuse selector.selectorFault?_operand) ?_
    exact hvariants.map fun cases => ((), skipBlank cases.2)

/-- Behind the variants seen so far the others have to bring the default variants to one. -/
theorem variants_decide (variants : List Variant) (depth : Nat) (seen : VariantsSeen) (n : Nat)
    (rest : List Char) :
    Decides (seen.defaults + variants.countP Variant.isDefault = 1 ∧ ∀ v ∈ variants, v.Obeys)
      ((), '}' :: rest)
      (outcome (Read.variants seen
        (printVariants w depth variants ++ (newLine n ++ '}' :: rest)))) := by
  match variants with
  | [] =>
    rw [printVariants, List.nil_append, outcome_variants,
      skipBlank_of_isBlank (isBlank_newLine n)]
    refine Decides.congr (.refuse_ok seen.endFault?_eq_none_iff _) ?_
    simp
  | .mk isDefault key first others :: variants =>
    have hvalue := first.decides depth
      (parts_decide others depth (endsValue_printVariants w depth variants n rest))
    have hfirst := variant_decides key (first.isSolid w depth) hvalue
    have htext : printVariants w depth (.mk isDefault key first others :: variants) ++
          (newLine n ++ '}' :: rest) =
        newLine (w.variant depth) ++ ((if isDefault then ['*'] else []) ++
          '[' :: (key.print ++ ']' :: ' ' :: (first.print w depth ++ (printParts w depth others ++
            (printVariants w depth variants ++ (newLine n ++ '}' :: rest)))))) := by
      simp [printVariants, Variant.print]
    rw [htext, outcome_variants, skipBlank_of_isBlank (isBlank_newLine _), List.forall_mem_cons,
      Variant.Obeys]
    cases isDefault with
    | true =>
      have hothers := variants_decide variants depth .withDefault n rest
      -- a second default variant is refused before it is read
      rw [List.countP_cons_of_pos rfl, seen.defaults_default_iff, and_assoc,
        @and_left_comm (VariantsSeen.withDefault.defaults + _ = 1)]
      refine Decides.bind (.refuse ?_) ?_
      · simp
      · exact hfirst.bind hothers
    | false =>
      have hothers := variants_decide variants depth seen.addPlain n rest
      rw [List.countP_cons_of_neg (by simp [Variant.isDefault]), ← seen.defaults_addPlain,
        and_left_comm]
      exact hfirst.bind hothers

/-- A part of a value is read before what follows it. -/
theorem ValuePart.decides (p : ValuePart) (depth : Nat) {rule : Prop} {tail s : List Char}
    (h : Decides rule tail (remainder (outcome (patternParts s)))) :
    Decides (p.Obeys ∧ rule) tail
      (remainder (outcome (patternParts (p.print w depth ++ s)))) := by
  match p with
  | .text t =>
    rw [ValuePart.print, remainder_patternParts_text t.isTextChar, ValuePart.Obeys, true_and]
    exact h
  | .placeable e =>
    have hinside := Expression.placeable_decides w (depth + 1) (e.decides (depth + 1) s)
    rw [ValuePart.print, ValuePart.Obeys, List.cons_append, List.cons_append, List.append_assoc,
      remainder_patternParts_placeable]
    refine hinside.bind ?_
    exact h

theorem parts_decide (parts : List ValuePart) (depth : Nat) {tail : List Char}
    (h : EndsValue tail) :
    Decides (∀ p ∈ parts, p.Obeys) tail
      (remainder (outcome (patternParts (printParts w depth parts ++ tail)))) := by
  match parts with
  | [] =>
    rw [printParts, List.nil_append, h.patternParts_eq]
    exact .kept (by simp)
  | p :: parts =>
    rw [printParts, List.append_assoc, List.forall_mem_cons]
    exact p.decides depth (parts_decide parts depth h)

end

end FluentMerge
