import FluentMerge.Proofs.Expression.Leaves

/-!
# Written expressions

What is known of the text of an expression before it is read. It is solid: nothing blank begins or
ends it (`Expression.isSolid`). And no line in it begins as an entry does, so junk that reaches it
goes on over all of it (`Expression.isPassed`).
-/

namespace FluentMerge

open Read
open Text (IsSolid isWhite)

/-! ## Blanks and solid text -/

section Solid

variable {s : List Char}

/-- Solid text does not begin with a blank. -/
theorem exists_cons_of_isSolid (hs : IsSolid s) : ∃ c t, s = c :: t ∧ c ≠ ' ' ∧ c ≠ '\n' := by
  obtain ⟨c, t, rfl, hc⟩ := hs.exists_cons
  refine ⟨c, t, rfl, ?_, ?_⟩
  · rintro rfl
    cases hc
  · rintro rfl
    cases hc

/-- No blank is skipped in front of solid text, whatever stands behind it. -/
theorem skipBlank_of_isSolid (hs : IsSolid s) (rest : List Char) :
    skipBlank (s ++ rest) = s ++ rest := by
  obtain ⟨c, t, rfl, hspace, hline⟩ := exists_cons_of_isSolid hs
  simp [skipBlank, hspace, hline]

/-- Nor is a space. -/
theorem skipSpaces_of_isSolid (hs : IsSolid s) (rest : List Char) :
    skipSpaces (s ++ rest) = s ++ rest := by
  obtain ⟨c, t, rfl, hspace, -⟩ := exists_cons_of_isSolid hs
  simp [skipSpaces, hspace]

theorem skipBlank_space (s : List Char) : skipBlank (' ' :: s) = skipBlank s := rfl

/-- A line end and the indent of the next line are blanks. -/
theorem isBlank_newLine (n : Nat) : IsBlank (newLine n) := by
  rw [newLine, isBlank_cons]
  exact ⟨.inr rfl, fun c hc => .inl (List.eq_of_mem_replicate hc)⟩

end Solid

/-- Only blanks stand between an expression and the closing brace. -/
theorem Expression.closing_eq (w : Indents) (depth : Nat) (e : Expression) :
    ∃ blank, IsBlank blank ∧ e.closing w depth = blank ++ ['}'] := by
  cases e with
  | inline e => exact ⟨[' '], by simp [IsBlank], rfl⟩
  | select selector variants => exact ⟨newLine (w.brace depth), isBlank_newLine _, rfl⟩

section Trees

variable (w : Indents) (depth : Nat)

/-- A name with or without an attribute is solid: the dot has a name on both sides. -/
theorem isSolid_access (id : Name) (access : Option Name) :
    IsSolid (id.text.toList ++ printAccess access) := by
  cases access with
  | none =>
    rw [printAccess, Option.elim_none, List.append_nil]
    exact id.isSolid
  | some id' => exact id.isSolid.append ['.'] id'.isSolid

/-- A placeable is solid, since its braces are. -/
theorem isSolid_braces (e : Expression) (s : List Char) :
    IsSolid ('{' :: ' ' :: (s ++ e.closing w depth)) := by
  obtain ⟨blank, -, hclosing⟩ := e.closing_eq w depth
  rw [hclosing]
  have h := (IsSolid.singleton '{' (by decide)).append (' ' :: (s ++ blank))
    (.singleton '}' (by decide))
  simpa using h

/-- Every inline expression is solid. It begins with a mark or a name, and it ends with a name, a
digit, or the mark that closes it. -/
theorem InlineExpression.isSolid (e : InlineExpression) : IsSolid (e.print w depth) := by
  have hmark {c : Char} (hc : isWhite c = false) {s : List Char} (hs : IsSolid s) :
      IsSolid (c :: s) :=
    (IsSolid.singleton _ hc).append [] hs
  have hbracket (s : List Char) {t : List Char} (ht : IsSolid t) : IsSolid (t ++ (s ++ [')'])) :=
    ht.append s (.singleton ')' (by decide))
  cases e with
  | string pieces =>
    exact (IsSolid.singleton '"' (by decide)).append _ (.singleton '"' (by decide))
  | number n => exact n.isSolid
  | variableReference id => exact hmark (by decide) id.isSolid
  | messageReference id access => exact isSolid_access id access
  | termReference id access => exact hmark (by decide) (isSolid_access id access)
  | termCall id access args =>
    have h := hbracket ('(' :: printArguments w depth args) (isSolid_access id access)
    rw [print]
    exact hmark (by decide) (by simpa using h)
  | functionCall id args => exact hbracket ('(' :: printArguments w depth args) id.isSolid
  | placeable e => exact isSolid_braces w (depth + 1) e _

theorem Argument.isSolid (a : Argument) : IsSolid (a.print w depth) := by
  cases a with
  | positional value => exact value.isSolid w depth
  | named id value => exact id.isSolid.append [':', ' '] (value.isSolid w depth)

/-- No argument begins with the bracket that ends the arguments. -/
theorem Argument.print_head (a : Argument) (rest : List Char) :
    (a.print w depth ++ rest).head? ≠ some ')' := by
  have hname (id : Name) (s : List Char) : (id.text.toList ++ s).head? ≠ some ')' := by
    obtain ⟨c, t, hid, hc, -⟩ := id.exists_cons
    rw [hid]
    simpa using ne_of_isAlpha hc (by decide)
  cases a with
  | named id value =>
    rw [print, List.append_assoc]
    exact hname id _
  | positional value =>
    rw [print]
    cases value with
    | number n =>
      rw [InlineExpression.print]
      rcases n.print_cases with ⟨c, t, hn, hc⟩ | ⟨c, t, hn, -⟩
      · simpa [hn] using ne_of_isDigit hc (by decide)
      · simp [hn]
    | messageReference id access =>
      rw [InlineExpression.print, List.append_assoc]
      exact hname id _
    | functionCall id args =>
      rw [InlineExpression.print, List.append_assoc]
      exact hname id _
    | _ => simp [InlineExpression.print]

theorem ValuePart.isSolid (p : ValuePart) : IsSolid (p.print w depth) := by
  cases p with
  | text t => exact t.isSolid
  | placeable e => exact isSolid_braces w (depth + 1) e _

/-- Solid text stays solid when the parts of a value are written behind it. Every part is solid, so
this holds of text without a part as well. -/
theorem isSolid_printParts {s : List Char} (hs : IsSolid s) (parts : List ValuePart) :
    IsSolid (s ++ printParts w depth parts) := by
  induction parts generalizing s with
  | nil => simpa [printParts] using hs
  | cons p parts ih =>
    rw [printParts, ← List.append_assoc]
    exact ih (hs.append [] (p.isSolid w depth))

theorem Variant.isSolid (v : Variant) : IsSolid (v.print w depth) := by
  obtain ⟨isDefault, key, first, others⟩ := v
  have hvalue := isSolid_printParts w depth (first.isSolid w depth) others
  have hbracket := (IsSolid.singleton '[' (by decide)).append
    (key.print ++ [']', ' ']) hvalue
  rw [print]
  cases isDefault with
  | true => simpa using (IsSolid.singleton '*' (by decide)).append [] hbracket
  | false => simpa using hbracket

/-- The same for variants, each on a line of its own. -/
theorem isSolid_printVariants {s : List Char} (hs : IsSolid s) (variants : List Variant) :
    IsSolid (s ++ printVariants w depth variants) := by
  induction variants generalizing s with
  | nil => simpa [printVariants] using hs
  | cons v variants ih =>
    have h := ih (hs.append (newLine (w.variant depth)) (v.isSolid w depth))
    simpa [printVariants] using h

/-- Nothing blank stands at the ends of an expression, so the spaces around it are those of its
placeable. -/
theorem Expression.isSolid (e : Expression) : IsSolid (e.print w depth) := by
  cases e with
  | inline e => exact e.isSolid w depth
  | select selector variants =>
    have harrow := (selector.isSolid w depth).append [' ', '-'] (.singleton '>' (by decide))
    have h := isSolid_printVariants w depth harrow variants
    simpa [print] using h

end Trees

/-! ## Junk over an expression -/

/-- Whether junk that reaches a text goes on over all of it: no line in it begins as an entry does.
-/
def IsPassed (s : List Char) : Prop := ∀ rest, afterJunk (s ++ rest) = afterJunk rest

/-- Junk stops in front of a line only, so it goes on over text with no line end. -/
theorem isPassed_of_not_mem {s : List Char} (h : '\n' ∉ s) : IsPassed s := by
  intro rest
  induction s with
  | nil => rfl
  | cons c s ih =>
    rw [List.mem_cons, not_or] at h
    rw [List.cons_append, afterJunk, if_neg (by simp [Ne.symm h.1]), ih h.2]

theorem isPassed_of_isWhite {s : List Char} (h : ∀ c ∈ s, isWhite c = false) : IsPassed s := by
  apply isPassed_of_not_mem
  intro hmem
  cases h _ hmem

namespace IsPassed

variable {s t : List Char}

/-- Junk that goes on over two texts goes on over both in turn. -/
theorem append (hs : IsPassed s) (ht : IsPassed t) : IsPassed (s ++ t) := by
  intro rest
  rw [List.append_assoc, hs, ht]

theorem cons {c : Char} (hc : c ≠ '\n') (ht : IsPassed t) : IsPassed (c :: t) :=
  (isPassed_of_not_mem (s := [c]) (by simpa using hc.symm)).append ht

/-- A line goes on with junk if an entry cannot begin with what stands behind its indent. -/
theorem newLine (n : Nat) {c : Char} (hc : isEntryStart c = false) (ht : IsPassed (c :: t)) :
    IsPassed (newLine n ++ c :: t) := by
  have hspaces : IsPassed (List.replicate n ' ' ++ c :: t) := by
    refine (isPassed_of_not_mem ?_).append ht
    intro hmem
    cases List.eq_of_mem_replicate hmem
  intro rest
  have hhead : ((List.replicate n ' ' ++ c :: t) ++ rest).head?.any isEntryStart = false := by
    cases n with
    | zero => simpa using hc
    | succ n => rfl
  rw [FluentMerge.newLine, List.cons_append, List.cons_append, afterJunk, hhead, if_neg (by simp)]
  exact hspaces rest

end IsPassed

section Passed

variable (w : Indents)

/-- A string literal has no line end in it: one that is meant is written as a code. -/
theorem StringPiece.not_mem_print (piece : StringPiece) : '\n' ∉ piece.print := by
  have hcode {n : Nat} (code : HexCode n) : '\n' ∉ code.chars := by
    intro hmem
    cases code.isHexDigit _ hmem
  cases piece with
  | char c quote backslash lineEnd => simpa [print] using lineEnd.symm
  | backslash => decide
  | quote => decide
  | shortCode code => simpa [print] using hcode code
  | longCode code => simpa [print] using hcode code

theorem Name.isPassed (id : Name) : IsPassed id.text.toList :=
  isPassed_of_isWhite fun _ hc => id.isWhite_of_mem hc

theorem isPassed_printAccess (access : Option Name) : IsPassed (printAccess access) := by
  cases access with
  | none => exact isPassed_of_not_mem (by simp [printAccess])
  | some id => exact .cons (by decide) id.isPassed

/-- The brace that closes a selector stands on a line of its own, and no entry begins with it. -/
theorem Expression.isPassed_closing (depth : Nat) (e : Expression) :
    IsPassed (e.closing w depth) := by
  have hbrace : IsPassed ['}'] := isPassed_of_not_mem (by decide)
  cases e with
  | inline e => exact hbrace.cons (by decide)
  | select selector variants => exact hbrace.newLine _ (by decide)

theorem VariantKey.isPassed (key : VariantKey) : IsPassed key.print := by
  cases key with
  | number n => exact isPassed_of_isWhite fun _ hc => n.isWhite_of_mem hc
  | name id => exact id.isPassed

/-- Junk goes on over a placeable if it does over the expression in it. -/
theorem isPassed_braces {e : Expression} {depth : Nat} (h : IsPassed (e.print w depth)) :
    IsPassed ('{' :: ' ' :: (e.print w depth ++ e.closing w depth)) :=
  .cons (by decide) (.cons (by decide) (h.append (e.isPassed_closing w depth)))

mutual

/-- By recursion on the tree. Only calls and placeables hold other trees; in each of them the marks
around these trees are passed, since they stand behind something on their line. -/
theorem InlineExpression.isPassed (e : InlineExpression) (depth : Nat) :
    IsPassed (e.print w depth) := by
  match e with
  | .string pieces =>
    have hpieces : IsPassed (pieces.flatMap StringPiece.print) := by
      apply isPassed_of_not_mem
      rw [List.mem_flatMap]
      rintro ⟨piece, -, hmem⟩
      exact piece.not_mem_print hmem
    exact .cons (by decide) (hpieces.append (isPassed_of_not_mem (by decide)))
  | .number n => exact isPassed_of_isWhite fun _ hc => n.isWhite_of_mem hc
  | .variableReference id => exact .cons (by decide) id.isPassed
  | .messageReference id access => exact id.isPassed.append (isPassed_printAccess access)
  | .termReference id access =>
    exact .cons (by decide) (id.isPassed.append (isPassed_printAccess access))
  | .termCall id access args =>
    have hargs := isPassed_printArguments args depth
    have hend := hargs.append (isPassed_of_not_mem (s := [')']) (by decide))
    exact .cons (by decide) (id.isPassed.append ((isPassed_printAccess access).append
      (.cons (by decide) hend)))
  | .functionCall id args =>
    have hargs := isPassed_printArguments args depth
    have hend := hargs.append (isPassed_of_not_mem (s := [')']) (by decide))
    exact id.isPassed.append (.cons (by decide) hend)
  | .placeable e => exact isPassed_braces w (e.isPassed (depth + 1))

theorem Argument.isPassed (a : Argument) (depth : Nat) : IsPassed (a.print w depth) := by
  match a with
  | .positional value => exact value.isPassed depth
  | .named id value =>
    exact id.isPassed.append (.cons (by decide) (.cons (by decide) (value.isPassed depth)))

theorem isPassed_printArguments (args : List Argument) (depth : Nat) :
    IsPassed (printArguments w depth args) := by
  match args with
  | [] => exact isPassed_of_not_mem (by simp [printArguments])
  | [a] => exact a.isPassed depth
  | a :: b :: args =>
    have hothers := isPassed_printArguments (b :: args) depth
    exact (a.isPassed depth).append (.cons (by decide) (.cons (by decide) hothers))

theorem Expression.isPassed (e : Expression) (depth : Nat) : IsPassed (e.print w depth) := by
  match e with
  | .inline e => exact e.isPassed depth
  | .select selector variants =>
    have harrow : IsPassed [' ', '-', '>'] := isPassed_of_not_mem (by decide)
    exact (selector.isPassed depth).append (harrow.append (isPassed_printVariants variants depth))

/-- A variant begins a line with a bracket or a star, and no entry begins so. No other line begins in
an expression but that of a closing brace. -/
theorem isPassed_printVariants (variants : List Variant) (depth : Nat) :
    IsPassed (printVariants w depth variants) := by
  match variants with
  | [] => exact isPassed_of_not_mem (by simp [printVariants])
  | .mk isDefault key first others :: variants =>
    have hvalue := (first.isPassed depth).append (isPassed_printParts others depth)
    have hbody : IsPassed ('[' :: (key.print ++ ']' :: ' ' ::
        (first.print w depth ++ printParts w depth others))) :=
      .cons (by decide) (key.isPassed.append (.cons (by decide) (.cons (by decide) hvalue)))
    have hothers := isPassed_printVariants variants depth
    rw [printVariants, Variant.print]
    cases isDefault with
    | true =>
      exact ((hbody.cons (by decide)).append hothers).newLine _ (by decide)
    | false => exact (hbody.append hothers).newLine _ (by decide)

/-- The text of a variant has no line end in it. -/
theorem ValuePart.isPassed (p : ValuePart) (depth : Nat) : IsPassed (p.print w depth) := by
  match p with
  | .text t =>
    apply isPassed_of_not_mem
    intro hmem
    cases t.isTextChar _ hmem
  | .placeable e => exact isPassed_braces w (e.isPassed (depth + 1))

theorem isPassed_printParts (parts : List ValuePart) (depth : Nat) :
    IsPassed (printParts w depth parts) := by
  match parts with
  | [] => exact isPassed_of_not_mem (by simp [printParts])
  | p :: parts => exact (p.isPassed depth).append (isPassed_printParts parts depth)

end

end Passed

end FluentMerge
