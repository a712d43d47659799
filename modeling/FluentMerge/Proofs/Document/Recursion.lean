import FluentMerge.Proofs.Document.Composition

/-!
# The recursion of the readers

The readers call one another and themselves: in each round of a loop, and through placeables nested
in one another. A `Call` is one of these procedures with what it is given. `Call.body` is what the
procedure does, with the calls that it makes answered from outside, and `Call.rank` is eight times
the length of the text that is left, and a level below eight.

A body asks only for calls of lower rank (`Call.body_eq_run`): they are on a shorter text, or on the
same text and on a lower level. So no chain of calls is longer than the rank of the first, and what
would be answered further down does not matter (`Call.answer_eq_run`).
-/

namespace FluentMerge.Read

/-! ## Calls -/

/-- A call of a reader or a loop, indexed by what it comes to. -/
inductive Call : Type → Type
  | placeable (s : List Char) : Call (Except SyntaxError (Unit × List Char))
  | expression (s : List Char) : Call (Except SyntaxError (Unit × List Char))
  | inlineExpression (s : List Char) : Call (Except SyntaxError (Operand × List Char))
  | termReference (s : List Char) : Call (Except SyntaxError (Operand × List Char))
  | callOrReference (s : List Char) : Call (Except SyntaxError (Operand × List Char))
  | arguments (named : List String) (s : List Char) : Call (Except SyntaxError (Unit × List Char))
  | argument (named : List String) (s : List Char) :
      Call (Except SyntaxError (List String × List Char))
  | variants (seen : VariantsSeen) (s : List Char) : Call (Except SyntaxError (Unit × List Char))
  | variant (s : List Char) : Call (Except SyntaxError (Unit × List Char))
  | pattern? (s : List Char) : Call (Except SyntaxError (Option Pattern × List Char))
  | patternParts (s : List Char) : Call (Except SyntaxError (List PatternPart × List Char))
  | stringLiteral (s : List Char) : Call (Except SyntaxError (Unit × List Char))
  | definition (s : List Char) : Call (Except SyntaxError ((String × Option Pattern) × List Char))
  | attributes (s : List Char) : Call (Except SyntaxError (List Attribute × List Char))
  | message (s : List Char) : Call (Except SyntaxError (Message × List Char))
  | term (s : List Char) : Call (Except SyntaxError (Term × List Char))
  | commentLines (n : Nat) (s : List Char) :
      Call (Except SyntaxError (List (List Char) × List Char))
  | comment (s : List Char) : Call (Except SyntaxError (Entry × List Char))
  | entry (s : List Char) : Call (Except SyntaxError (Entry × List Char))
  | entryLine (s : List Char) : Call (Except SyntaxError ((Entry × List Char) × List Char))
  | blankLines (s : List Char) : Call (Nat × List Char)
  | afterJunk (s : List Char) : Call (List Char)
  | nextEntry (start : Nat) (s : List Char) : Call (Entry × List Char)
  | entries (offset : Nat) (s : List Char) : Call (List Entry)

namespace Call

variable {α β : Type}

/-- What the call comes to. -/
def run : {α : Type} → Call α → α
  | _, .placeable s => outcome (Read.placeable s)
  | _, .expression s => outcome (Read.expression s)
  | _, .inlineExpression s => outcome (Read.inlineExpression s)
  | _, .termReference s => outcome (Read.termReference s)
  | _, .callOrReference s => outcome (Read.callOrReference s)
  | _, .arguments named s => outcome (Read.arguments named s)
  | _, .argument named s => outcome (Read.argument named s)
  | _, .variants seen s => outcome (Read.variants seen s)
  | _, .variant s => outcome (Read.variant s)
  | _, .pattern? s => outcome (Read.pattern? s)
  | _, .patternParts s => outcome (Read.patternParts s)
  | _, .stringLiteral s => outcome (Read.stringLiteral s)
  | _, .definition s => outcome (Read.definition s)
  | _, .attributes s => outcome (Read.attributes s)
  | _, .message s => outcome (Read.message s)
  | _, .term s => outcome (Read.term s)
  | _, .commentLines n s => outcome (Read.commentLines n s)
  | _, .comment s => outcome (Read.comment s)
  | _, .entry s => outcome (Read.entry s)
  | _, .entryLine s => outcome (Read.entryLine s)
  | _, .blankLines s => skipBlankLines s
  | _, .afterJunk s => FluentMerge.afterJunk s
  | _, .nextEntry start s => FluentMerge.nextEntry start s
  | _, .entries offset s => separateEntries offset s

/-- The text that is left when the call is made. -/
def text : {α : Type} → Call α → List Char
  | _, .placeable s | _, .expression s | _, .inlineExpression s | _, .termReference s
  | _, .callOrReference s | _, .arguments _ s | _, .argument _ s | _, .variants _ s
  | _, .variant s | _, .pattern? s | _, .patternParts s | _, .stringLiteral s
  | _, .definition s | _, .attributes s | _, .message s | _, .term s
  | _, .commentLines _ s | _, .comment s | _, .entry s | _, .entryLine s
  | _, .blankLines s | _, .afterJunk s | _, .nextEntry _ s | _, .entries _ s => s

/-- The level of a procedure: on the text that it was given it calls those of lower levels. -/
@[simp]
def level : {α : Type} → Call α → Nat
  | _, .entries .. => 7
  | _, .nextEntry .. => 6
  | _, .entryLine _ => 5
  | _, .entry _ => 4
  | _, .message _ | _, .term _ | _, .placeable _ | _, .arguments .. => 3
  | _, .definition _ | _, .expression _ | _, .argument .. | _, .variant _ => 2
  | _, .inlineExpression _ | _, .termReference _ | _, .pattern? _ | _, .comment _ => 1
  | _, .callOrReference _ | _, .variants .. | _, .patternParts _ | _, .stringLiteral _
  | _, .attributes _ | _, .commentLines .. | _, .blankLines _ | _, .afterJunk _ => 0

/-- The measure of the recursion: first the length of the text that is left, then the level. -/
def rank (c : Call α) : Nat := 8 * c.text.length + c.level

theorem level_le (c : Call α) : c.level ≤ 7 := by
  cases c <;> simp

/-- The rank is bounded by the length of the text that is left. -/
theorem rank_le (c : Call α) : c.rank ≤ 8 * c.text.length + 7 :=
  Nat.add_le_add_left c.level_le _

/-! ## Bodies -/

/-- What a call does when the calls that it makes are answered by `ask`. -/
@[simp]
def body (ask : {β : Type} → Call β → β) : {α : Type} → Call α → α
  | _, .placeable s =>
    ask (.expression (skipBlank s)) >>= fun inside => outcome (expect '}' inside.2)
  | _, .expression s =>
    ask (.inlineExpression s) >>= fun operand =>
      match skipBlank operand.2 with
      | '-' :: '>' :: t => refuse operand.1.selectorFault? >>= fun _ =>
        match skipSpaces t with
        | '\n' :: _ => (fun cases => ((), skipBlank cases.2)) <$> ask (.variants .nothing t)
        | _ => .error .arrowLineEnd
      | rest => refuse operand.1.placeableFault? >>= fun _ => .ok ((), rest)
  | _, .inlineExpression [] => .error .inlineExpression
  | _, .inlineExpression (c :: t) =>
    if c = '{' then (fun p => (.placeable, p.2)) <$> ask (.placeable t)
    else if c.isDigit || (c == '-' && t.head?.any Char.isDigit) then
      (fun p => (.literal, p.2)) <$> outcome (number (c :: t))
    else if c = '"' then (fun p => (.literal, p.2)) <$> ask (.stringLiteral t)
    else if c = '$' then (fun p => (.variableReference, p.2)) <$> outcome (identifier t)
    else if c = '-' then ask (.termReference t)
    else if c.isAlpha then ask (.callOrReference (c :: t))
    else .error .inlineExpression
  | _, .termReference s =>
    outcome (identifier s) >>= fun id =>
      outcome (attributeAccessor id.2) >>= fun access =>
        match skipBlank access.2 with
        | '(' :: t => (fun p => (.termReference access.1, p.2)) <$> ask (.arguments [] t)
        | _ => .ok (.termReference access.1, access.2)
  | _, .callOrReference s =>
    outcome (identifier s) >>= fun id =>
      match skipBlank id.2 with
      | '(' :: t =>
        refuse (if isFunctionName id.1 then none else some (.functionName id.1)) >>= fun _ =>
          (fun p => (.functionCall, p.2)) <$> ask (.arguments [] t)
      | _ => (fun p => (.messageReference id.1 p.1, p.2)) <$> outcome (attributeAccessor id.2)
  | _, .arguments named s =>
    match skipBlank s with
    | ')' :: t => .ok ((), t)
    | rest => ask (.argument named rest) >>= fun first =>
      match skipBlank first.2 with
      | ',' :: t => ask (.arguments first.1 t)
      | rest => outcome (expect ')' rest)
  | _, .argument named s =>
    ask (.inlineExpression s) >>= fun operand =>
      match skipBlank operand.2 with
      | ':' :: t =>
        match operand.1 with
        | .messageReference name false =>
          refuse (if name ∈ named then some (.duplicateArgument name) else none) >>= fun _ =>
            ask (.inlineExpression (skipBlank t)) >>= fun value =>
              refuse (if value.1 = .literal then none else some .argumentValue) >>= fun _ =>
                .ok (name :: named, value.2)
        | _ => .error .argumentName
      | _ =>
        refuse (if named = [] then none else some .argumentOrder) >>= fun _ =>
          .ok (named, operand.2)
  | _, .variants seen s =>
    match skipBlank s with
    | '*' :: t => refuse (if seen = .withDefault then some .secondDefault else none) >>= fun _ =>
      outcome (expect '[' t) >>= fun opening =>
        ask (.variant opening.2) >>= fun first => ask (.variants .withDefault first.2)
    | '[' :: t => ask (.variant t) >>= fun first => ask (.variants seen.addPlain first.2)
    | rest => refuse seen.endFault? >>= fun _ => .ok ((), rest)
  | _, .variant s =>
    outcome (variantKey (skipBlank s)) >>= fun key =>
      outcome (expect ']' (skipBlank key.2)) >>= fun close =>
        ask (.pattern? close.2) >>= fun value =>
          refuse (if value.1.isNone then some .variantValue else none) >>= fun _ =>
            .ok ((), value.2)
  | _, .pattern? s =>
    if (skipSpaces s).head?.any (· != '\n') then
      (fun p => (some (.ofParts p.1), p.2)) <$> ask (.patternParts (skipSpaces s))
    else if continuesValue (ask (.blankLines (skipSpaces s))).2 then
      let line := (ask (.blankLines (skipSpaces s))).2
      (fun p => (some (.ofParts (.indent 0 (leadingSpaces line) :: p.1)), p.2)) <$>
        ask (.patternParts (skipSpaces line))
    else .ok (none, s)
  | _, .patternParts [] => .ok ([], [])
  | _, .patternParts (c :: t) =>
    if c = '\n' then
      if continuesValue (ask (.blankLines t)).2 then
        let line := (ask (.blankLines t)).2
        (fun p => (.indent ((ask (.blankLines t)).1 + 1) (leadingSpaces line) :: p.1, p.2)) <$>
          ask (.patternParts (skipSpaces line))
      else .ok ([], c :: t)
    else if c = '{' then
      ask (.placeable t) >>= fun closed =>
        (fun p => (.placeable (placeableSource (consumed t closed.2)) :: p.1, p.2)) <$>
          ask (.patternParts closed.2)
    else if c = '}' then .error .closingBrace
    else
      (fun p => (.text (c :: t.takeWhile isTextChar) :: p.1, p.2)) <$>
        ask (.patternParts (t.dropWhile isTextChar))
  | _, .stringLiteral [] => .error .unterminatedString
  | _, .stringLiteral (c :: s) =>
    if c = '"' then .ok ((), s)
    else if c = '\n' then .error .unterminatedString
    else if c = '\\' then outcome (escape s) >>= fun code => ask (.stringLiteral code.2)
    else ask (.stringLiteral s)
  | _, .definition s =>
    outcome (identifier s) >>= fun id =>
      outcome (expect '=' (skipSpaces id.2)) >>= fun mark =>
        (fun p => ((id.1, p.1), p.2)) <$> ask (.pattern? mark.2)
  | _, .attributes s =>
    match skipBlank s with
    | '.' :: t => ask (.definition t) >>= fun first =>
      match first.1 with
      | (id, none) => .error (.attributeValue id)
      | (id, some value) => (fun p => (⟨id, value⟩ :: p.1, p.2)) <$> ask (.attributes first.2)
    | _ => .ok ([], s)
  | _, .message s =>
    ask (.definition s) >>= fun head =>
      ask (.attributes head.2) >>= fun tail =>
        refuse (if head.1.2.isNone && tail.1.isEmpty then some (.messageContent head.1.1) else none)
          >>= fun _ => .ok (⟨head.1.1, head.1.2, tail.1, none, none⟩, tail.2)
  | _, .term s =>
    ask (.definition s) >>= fun head =>
      match head.1 with
      | (id, none) => .error (.termValue id)
      | (id, some value) =>
        (fun p => (⟨id, value, p.1, none, none⟩, p.2)) <$> ask (.attributes head.2)
  | _, .commentLines n s =>
    outcome (commentLine s) >>= fun first =>
      match first.2 with
      | '\n' :: t =>
        if isCommentLine n t then
          (fun p => (first.1 :: p.1, p.2)) <$> ask (.commentLines n (t.drop n))
        else .ok ([first.1], first.2)
      | _ => .ok ([first.1], first.2)
  | _, .comment s =>
    match commentLevel? (commentMarks s) with
    | none => .error .commentLevel
    | some level =>
      (fun p => (.comment level ⟨String.ofList (['\n'].intercalate p.1), none⟩, p.2)) <$>
        ask (.commentLines (commentMarks s) (s.drop (commentMarks s)))
  | _, .entry [] => .error .entryStart
  | _, .entry (c :: t) =>
    if c = '#' then ask (.comment (c :: t))
    else if c = '-' then (fun p => (.term p.1, p.2)) <$> ask (.term t)
    else if c.isAlpha then (fun p => (.message p.1, p.2)) <$> ask (.message (c :: t))
    else .error .entryStart
  | _, .entryLine s =>
    ask (.entry s) >>= fun e =>
      (fun p => ((e.1, consumed s e.2), p.2)) <$> outcome (lineEnd e.2)
  | _, .blankLines s =>
    match skipSpaces s with
    | [] => (0, [])
    | c :: t =>
      if c = '\n' then ((ask (.blankLines t)).1 + 1, (ask (.blankLines t)).2) else (0, s)
  | _, .afterJunk [] => []
  | _, .afterJunk (c :: s) =>
    if c == '\n' && s.head?.any isEntryStart then s else ask (.afterJunk s)
  | _, .nextEntry start s =>
    match ask (.entryLine s) with
    | .ok r => (r.1.1.withSpan ⟨start, start + Text.byteLength r.1.2⟩, r.2)
    | .error e =>
      let content := consumed s (ask (.afterJunk s))
      (.junk ⟨String.ofList content, [e.message], some ⟨start, start + Text.byteLength content⟩⟩,
        ask (.afterJunk s))
  | _, .entries offset s =>
    match (ask (.blankLines s)).2 with
    | [] => []
    | c :: t =>
      let start := offset + Text.byteLength (consumed s (c :: t))
      let next := ask (.nextEntry start (c :: t))
      next.1 :: ask (.entries (start + Text.byteLength (consumed (c :: t) next.2)) next.2)

/-- The bodies are those of the procedures. -/
theorem body_run (c : Call α) : c.body run = c.run := by
  cases c with
  | placeable s => exact (outcome_placeable s).symm
  | expression s => exact (outcome_expression s).symm
  | inlineExpression s =>
    cases s with
    | nil => exact outcome_inlineExpression_nil.symm
    | cons c t => exact (outcome_inlineExpression c t).symm
  | termReference s => exact (outcome_termReference s).symm
  | callOrReference s => exact (outcome_callOrReference s).symm
  | arguments named s => exact (outcome_arguments named s).symm
  | argument named s => exact (outcome_argument named s).symm
  | variants seen s => exact (outcome_variants seen s).symm
  | variant s => exact (outcome_variant s).symm
  | pattern? s => exact (outcome_pattern? s).symm
  | patternParts s =>
    cases s with
    | nil => exact outcome_patternParts_nil.symm
    | cons c t => exact (outcome_patternParts c t).symm
  | stringLiteral s =>
    cases s with
    | nil => exact outcome_stringLiteral_nil.symm
    | cons c t => exact (outcome_stringLiteral c t).symm
  | definition s => exact (outcome_definition s).symm
  | attributes s => exact (outcome_attributes s).symm
  | message s => exact (outcome_message s).symm
  | term s => exact (outcome_term s).symm
  | commentLines n s => exact (outcome_commentLines n s).symm
  | comment s => exact (outcome_comment s).symm
  | entry s =>
    cases s with
    | nil => rfl
    | cons c t => exact (outcome_entry c t).symm
  | entryLine s => exact (outcome_entryLine s).symm
  | blankLines s =>
    rw [body]
    split
    · next h => exact (skipBlankLines_of_nil h).symm
    · next c t h =>
      split
      · next hc => exact (skipBlankLines_of_lineEnd (hc ▸ h)).symm
      · next hc => exact (skipBlankLines_of_ne h hc).symm
  | afterJunk s => cases s <;> rfl
  | nextEntry start s =>
    rw [body, run, run, run, FluentMerge.nextEntry]
    cases Read.entryLine s <;> rfl
  | entries offset s =>
    rw [body]
    split
    · next h => exact (separateEntries_of_nil h offset).symm
    · next c t h => exact (separateEntries_of_cons h rfl).symm

/-! ## The calls that a body makes -/

/-- Whether `ask` has the right answers to the calls of lower rank. -/
def AnswersBelow (ask : {β : Type} → Call β → β) (n : Nat) : Prop :=
  ∀ {β : Type} (d : Call β), d.rank < n → ask d = d.run

section AnswersBelow

variable {ask : {β : Type} → Call β → β} {c : Call α}

/-- A call on a shorter text is of lower rank. -/
theorem AnswersBelow.shorter (h : AnswersBelow ask c.rank) (d : Call β)
    (hd : d.text.length < c.text.length) : ask d = d.run := by
  apply h
  have := d.level_le
  unfold rank
  omega

/-- So is one that goes down a level on the same text. -/
theorem AnswersBelow.lower (h : AnswersBelow ask c.rank) (d : Call β)
    (hd : d.text.length ≤ c.text.length) (hlevel : d.level < c.level) : ask d = d.run := by
  apply h
  unfold rank
  omega

end AnswersBelow

/-- What follows a reading only matters where it comes to something. -/
theorem bind_congr_ok {ε α β : Type} {x : Except ε α} {f g : α → Except ε β}
    (h : ∀ a, x = .ok a → f a = g a) : x >>= f = x >>= g := by
  cases x with
  | error e => rfl
  | ok a => exact h a rfl

variable {ask : {β : Type} → Call β → β} {s t : List Char}

theorem length_lt_of_skipBlank {c : Char} (h : skipBlank s = c :: t) : t.length < s.length := by
  have hle := (skipBlank_suffix s).length_le
  rw [h] at hle
  exact hle

/-- The expression in a placeable is on a lower level. -/
theorem body_placeable (h : AnswersBelow ask (placeable s).rank) :
    (placeable s).body ask = (placeable s).body run := by
  have hle := (skipBlank_suffix s).length_le
  rw [body, body, h.lower (.expression (skipBlank s)) hle (by simp)]

/-- The operand of an expression is on a lower level, and its variants are behind an arrow. -/
theorem body_expression (h : AnswersBelow ask (expression s).rank) :
    (expression s).body ask = (expression s).body run := by
  rw [body, body, h.lower (.inlineExpression s) (Nat.le_refl _) (by simp)]
  apply bind_congr_ok
  rintro ⟨operand, rest⟩ hrest
  have hle := (outcome_suffix hrest).length_le
  dsimp only
  split
  · next t ht =>
    have hlt := length_lt_of_skipBlank ht
    rw [List.length_cons] at hlt
    have hshorter : t.length < s.length := by omega
    rw [h.shorter (.variants .nothing t) hshorter]
  · rfl

/-- A placeable, a string and a term are behind the mark that opens them. A call begins with the
name that is read, so it is on a lower level. -/
theorem body_inlineExpression (h : AnswersBelow ask (inlineExpression s).rank) :
    (inlineExpression s).body ask = (inlineExpression s).body run := by
  cases s with
  | nil => rfl
  | cons c t =>
    have hlt := Nat.lt_succ_self t.length
    rw [body, body, h.shorter (.placeable t) hlt, h.shorter (.stringLiteral t) hlt,
      h.shorter (.termReference t) hlt,
      h.lower (.callOrReference (c :: t)) (Nat.le_refl _) (by simp)]

/-- Arguments are behind the name of the term. -/
theorem body_termReference (h : AnswersBelow ask (termReference s).rank) :
    (termReference s).body ask = (termReference s).body run := by
  rw [body, body]
  apply bind_congr_ok
  rintro ⟨id, rest⟩ hid
  apply bind_congr_ok
  rintro ⟨access, rest'⟩ haccess
  have hle := ((outcome_suffix haccess).trans (outcome_suffix hid)).length_le
  dsimp only
  split
  · next t ht =>
    have hshorter : t.length < s.length := Nat.lt_of_lt_of_le (length_lt_of_skipBlank ht) hle
    rw [h.shorter (.arguments [] t) hshorter]
  · rfl

/-- Arguments are behind the name of the function. -/
theorem body_callOrReference (h : AnswersBelow ask (callOrReference s).rank) :
    (callOrReference s).body ask = (callOrReference s).body run := by
  rw [body, body]
  apply bind_congr_ok
  rintro ⟨id, rest⟩ hid
  have hle := (outcome_suffix hid).length_le
  dsimp only
  split
  · next t ht =>
    have hshorter : t.length < s.length := Nat.lt_of_lt_of_le (length_lt_of_skipBlank ht) hle
    rw [h.shorter (.arguments [] t) hshorter]
  · rfl

/-- The first argument is on a lower level, and the others are behind a comma. -/
theorem body_arguments {named : List String} (h : AnswersBelow ask (arguments named s).rank) :
    (arguments named s).body ask = (arguments named s).body run := by
  have hblank := (skipBlank_suffix s).length_le
  rw [body, body]
  split
  · rfl
  · rw [h.lower (.argument named (skipBlank s)) hblank (by simp)]
    apply bind_congr_ok
    rintro ⟨named', rest⟩ hrest
    have hle := (outcome_suffix hrest).length_le
    dsimp only
    split
    · next t ht =>
      have hlt := length_lt_of_skipBlank ht
      have hshorter : t.length < s.length := by omega
      rw [h.shorter (.arguments named' t) hshorter]
    · rfl

/-- The name or value of an argument is on a lower level, and a value is behind a colon. -/
theorem body_argument {named : List String} (h : AnswersBelow ask (argument named s).rank) :
    (argument named s).body ask = (argument named s).body run := by
  rw [body, body, h.lower (.inlineExpression s) (Nat.le_refl _) (by simp)]
  apply bind_congr_ok
  rintro ⟨operand, rest⟩ hrest
  have hle := (outcome_suffix hrest).length_le
  dsimp only
  split
  · next t ht =>
    have hlt := length_lt_of_skipBlank ht
    have hblank := (skipBlank_suffix t).length_le
    have hshorter : (skipBlank t).length < s.length := by omega
    rw [h.shorter (.inlineExpression (skipBlank t)) hshorter]
  · rfl

/-- A variant is behind the mark that opens it, and the others are behind the variant. -/
theorem body_variants {seen : VariantsSeen} (h : AnswersBelow ask (variants seen s).rank) :
    (variants seen s).body ask = (variants seen s).body run := by
  have hothers : ∀ {seen' : VariantsSeen} {u : List Char}, u.length < s.length →
      ask (.variant u) >>= (fun first => ask (.variants seen' first.2)) =
        run (.variant u) >>= fun first => run (.variants seen' first.2) := by
    intro seen' u hu
    rw [h.shorter (.variant u) hu]
    apply bind_congr_ok
    rintro ⟨⟨⟩, rest⟩ hrest
    have hle := (outcome_suffix hrest).length_le
    exact h.shorter (.variants seen' rest) (Nat.lt_of_le_of_lt hle hu)
  rw [body, body]
  split
  · next t ht =>
    have hlt := length_lt_of_skipBlank ht
    congr 1
    funext _
    apply bind_congr_ok
    rintro ⟨⟨⟩, rest⟩ hrest
    exact hothers (Nat.lt_of_le_of_lt (outcome_suffix hrest).length_le hlt)
  · next t ht => exact hothers (length_lt_of_skipBlank ht)
  · rfl

/-- The value of a variant is on a lower level. -/
theorem body_variant (h : AnswersBelow ask (variant s).rank) :
    (variant s).body ask = (variant s).body run := by
  have hblank := (skipBlank_suffix s).length_le
  rw [body, body]
  apply bind_congr_ok
  rintro ⟨⟨⟩, rest⟩ hkey
  apply bind_congr_ok
  rintro ⟨⟨⟩, rest'⟩ hclose
  have hle := ((outcome_suffix hclose).trans ((skipBlank_suffix _).trans
    ((outcome_suffix hkey).trans (skipBlank_suffix s)))).length_le
  rw [h.lower (.pattern? rest') hle (by simp)]

/-- The parts of a value and the blank lines above them are on a lower level. -/
theorem body_pattern? (h : AnswersBelow ask (pattern? s).rank) :
    (pattern? s).body ask = (pattern? s).body run := by
  have hspaces := skipSpaces_suffix s
  have hline := ((skipSpaces_suffix _).trans
    ((skipBlankLines_suffix (skipSpaces s)).trans hspaces)).length_le
  rw [body, body, h.lower (.patternParts (skipSpaces s)) hspaces.length_le (by simp),
    h.lower (.blankLines (skipSpaces s)) hspaces.length_le (by simp)]
  dsimp only
  rw [h.lower (.patternParts (skipSpaces (run (.blankLines (skipSpaces s))).2)) hline
    (by simp)]

/-- Each part is at least one character, so those behind it have less text. -/
theorem body_patternParts (h : AnswersBelow ask (patternParts s).rank) :
    (patternParts s).body ask = (patternParts s).body run := by
  cases s with
  | nil => rfl
  | cons c t =>
    have hlt := Nat.lt_succ_self t.length
    have hline := ((skipSpaces_suffix _).trans (skipBlankLines_suffix t)).length_le
    have htext := (List.dropWhile_suffix (l := t) isTextChar).length_le
    have hclosed : ∀ F : List Char → List PatternPart × List Char → List PatternPart × List Char,
        ask (.placeable t) >>= (fun closed => F closed.2 <$> ask (.patternParts closed.2)) =
          run (.placeable t) >>= fun closed => F closed.2 <$> run (.patternParts closed.2) := by
      intro F
      rw [h.shorter (.placeable t) hlt]
      apply bind_congr_ok
      rintro ⟨⟨⟩, rest⟩ hrest
      have hle := (outcome_suffix hrest).length_le
      rw [h.shorter (.patternParts rest) (Nat.lt_of_le_of_lt hle hlt)]
    rw [body, body, h.shorter (.blankLines t) hlt,
      h.shorter (.patternParts (t.dropWhile isTextChar)) (Nat.lt_of_le_of_lt htext hlt)]
    dsimp only
    rw [h.shorter (.patternParts (skipSpaces (run (.blankLines t)).2))
      (Nat.lt_of_le_of_lt hline hlt)]
    rw [hclosed fun rest p => (.placeable (placeableSource (consumed t rest)) :: p.1, p.2)]

/-- Each character of a string, escaped or not, leaves less text. -/
theorem body_stringLiteral (h : AnswersBelow ask (stringLiteral s).rank) :
    (stringLiteral s).body ask = (stringLiteral s).body run := by
  cases s with
  | nil => rfl
  | cons c t =>
    have hlt := Nat.lt_succ_self t.length
    have hcode : outcome (escape t) >>= (fun code => ask (.stringLiteral code.2)) =
        outcome (escape t) >>= fun code => run (.stringLiteral code.2) := by
      apply bind_congr_ok
      rintro ⟨⟨⟩, rest⟩ hrest
      have hle := (outcome_suffix hrest).length_le
      exact h.shorter (.stringLiteral rest) (Nat.lt_of_le_of_lt hle hlt)
    rw [body, body, hcode, h.shorter (.stringLiteral t) hlt]

/-- The value of a definition is on a lower level. -/
theorem body_definition (h : AnswersBelow ask (definition s).rank) :
    (definition s).body ask = (definition s).body run := by
  rw [body, body]
  apply bind_congr_ok
  rintro ⟨id, rest⟩ hid
  apply bind_congr_ok
  rintro ⟨⟨⟩, rest'⟩ hmark
  have hle := ((outcome_suffix hmark).trans
    ((skipSpaces_suffix _).trans (outcome_suffix hid))).length_le
  rw [h.lower (.pattern? rest') hle (by simp)]

/-- An attribute is behind its point, and the others are behind it. -/
theorem body_attributes (h : AnswersBelow ask (attributes s).rank) :
    (attributes s).body ask = (attributes s).body run := by
  rw [body, body]
  split
  · next t ht =>
    have hlt := length_lt_of_skipBlank ht
    rw [h.shorter (.definition t) hlt]
    apply bind_congr_ok
    rintro ⟨⟨id, value⟩, rest⟩ hrest
    have hle := (outcome_suffix hrest).length_le
    cases value with
    | none => rfl
    | some value =>
      dsimp only
      rw [h.shorter (.attributes rest) (Nat.lt_of_le_of_lt hle hlt)]
  · rfl

/-- The definition and the attributes of a message are on lower levels. -/
theorem body_message (h : AnswersBelow ask (message s).rank) :
    (message s).body ask = (message s).body run := by
  rw [body, body, h.lower (.definition s) (Nat.le_refl _) (by simp)]
  apply bind_congr_ok
  rintro ⟨head, rest⟩ hrest
  rw [h.lower (.attributes rest) (outcome_suffix hrest).length_le (by simp)]

/-- The same holds of a term. -/
theorem body_term (h : AnswersBelow ask (term s).rank) :
    (term s).body ask = (term s).body run := by
  rw [body, body, h.lower (.definition s) (Nat.le_refl _) (by simp)]
  apply bind_congr_ok
  rintro ⟨⟨id, value⟩, rest⟩ hrest
  cases value with
  | none => rfl
  | some value =>
    dsimp only
    rw [h.lower (.attributes rest) (outcome_suffix hrest).length_le (by simp)]

/-- The next line of a comment is behind a line end. -/
theorem body_commentLines {n : Nat} (h : AnswersBelow ask (commentLines n s).rank) :
    (commentLines n s).body ask = (commentLines n s).body run := by
  rw [body, body]
  apply bind_congr_ok
  rintro ⟨line, rest⟩ hline
  have hle := (outcome_suffix hline).length_le
  dsimp only
  split
  · next _ t =>
    have hdrop := (List.drop_suffix n t).length_le
    have hshorter : (t.drop n).length < s.length := by
      rw [List.length_cons] at hle
      omega
    rw [h.shorter (.commentLines n (t.drop n)) hshorter]
  · rfl

theorem body_comment (h : AnswersBelow ask (comment s).rank) :
    (comment s).body ask = (comment s).body run := by
  have hle := (List.drop_suffix (commentMarks s) s).length_le
  rw [body, body, h.lower (.commentLines (commentMarks s) (s.drop (commentMarks s))) hle
    (by simp)]

/-- A term is behind its mark; comments and messages begin with the entry, on lower levels. -/
theorem body_entry (h : AnswersBelow ask (entry s).rank) :
    (entry s).body ask = (entry s).body run := by
  cases s with
  | nil => rfl
  | cons c t =>
    rw [body, body, h.lower (.comment (c :: t)) (Nat.le_refl _) (by simp),
      h.shorter (.term t) (Nat.lt_succ_self _),
      h.lower (.message (c :: t)) (Nat.le_refl _) (by simp)]

theorem body_blankLines (h : AnswersBelow ask (blankLines s).rank) :
    (blankLines s).body ask = (blankLines s).body run := by
  have hspaces := (skipSpaces_suffix s).length_le
  rw [body, body]
  split
  · rfl
  · next c t ht =>
    rw [ht, List.length_cons] at hspaces
    rw [h.shorter (.blankLines t) hspaces]

/-- An entry with its line and the search for the next one are on lower levels. -/
theorem body_nextEntry {start : Nat} (h : AnswersBelow ask (nextEntry start s).rank) :
    (nextEntry start s).body ask = (nextEntry start s).body run := by
  rw [body, body, h.lower (.entryLine s) (Nat.le_refl _) (by simp),
    h.lower (.afterJunk s) (Nat.le_refl _) (by simp)]

/-- An entry leaves less text, and so does junk, for the entries behind it. -/
theorem body_entries {offset : Nat} (h : AnswersBelow ask (entries offset s).rank) :
    (entries offset s).body ask = (entries offset s).body run := by
  rw [body, body, h.lower (.blankLines s) (Nat.le_refl _) (by simp)]
  split
  · rfl
  · next c t ht =>
    have hskipped : (skipBlankLines s).2 = c :: t := ht
    have hle : (c :: t).length ≤ s.length := hskipped ▸ (skipBlankLines_suffix s).length_le
    dsimp only
    generalize offset + Text.byteLength (consumed s (c :: t)) = start
    have hshorter := Nat.lt_of_lt_of_le (nextEntry_shorter start c t) hle
    have hothers (n : Nat) := h.shorter (.entries n (run (.nextEntry start (c :: t))).2) hshorter
    rw [h.lower (.nextEntry start (c :: t)) hle (by simp), hothers]

/-- A body comes to what its call does when the calls of lower rank are answered as they should be:
it makes no other calls. -/
theorem body_eq_run {c : Call α} (h : AnswersBelow ask c.rank) : c.body ask = c.run := by
  rw [← body_run]
  cases c with
  | placeable s => exact body_placeable h
  | expression s => exact body_expression h
  | inlineExpression s => exact body_inlineExpression h
  | termReference s => exact body_termReference h
  | callOrReference s => exact body_callOrReference h
  | arguments named s => exact body_arguments h
  | argument named s => exact body_argument h
  | variants seen s => exact body_variants h
  | variant s => exact body_variant h
  | pattern? s => exact body_pattern? h
  | patternParts s => exact body_patternParts h
  | stringLiteral s => exact body_stringLiteral h
  | definition s => exact body_definition h
  | attributes s => exact body_attributes h
  | message s => exact body_message h
  | term s => exact body_term h
  | commentLines n s => exact body_commentLines h
  | comment s => exact body_comment h
  | entry s => exact body_entry h
  | entryLine s => rw [body, body, h.lower (.entry s) (Nat.le_refl _) (by simp)]
  | blankLines s => exact body_blankLines h
  | afterJunk s =>
    cases s with
    | nil => rfl
    | cons c t => rw [body, body, h.shorter (.afterJunk t) (Nat.lt_succ_self _)]
  | nextEntry start s => exact body_nextEntry h
  | entries offset s => exact body_entries h

/-! ## The depth of the recursion -/

/-- What a call comes to when `n` bodies stand in one another and `base` answers the calls below. -/
def answer (base : {β : Type} → Call β → β) : Nat → {α : Type} → Call α → α
  | 0, _, c => base c
  | n + 1, _, c => c.body (answer base n)

/-- The recursion of a call goes no deeper than its rank: nothing further down is asked for. -/
theorem answer_eq_run (base : {β : Type} → Call β → β) {c : Call α} {n : Nat} (h : c.rank < n) :
    answer base n c = c.run := by
  induction n generalizing α c with
  | zero => exact absurd h (Nat.not_lt_zero _)
  | succ n ih =>
    exact body_eq_run fun d hd => ih (Nat.lt_of_lt_of_le hd (Nat.le_of_lt_succ h))

end Call

end FluentMerge.Read
