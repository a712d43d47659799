import FluentMerge.Document.Parser

/-!
# What readers come to

A reading carries the proof that what is left is a tail of what was read. For statements about two
texts at once that proof is in the way: `Read.outcome` forgets it. Each reader has here its equation
for outcomes, in which the readers it calls stand with theirs, so nothing that is said of outcomes
opens a reader. What an entry was read from is told by the inversions at the end (`EntryRead`).
-/

namespace FluentMerge.Read

variable {α β : Type} {s t : List Char}

/-- What a reader comes to: the first fault, or the value and what is left of the text. -/
def outcome (x : Read α s) : Except SyntaxError (α × List Char) :=
  (fun r => (r.value, r.rest)) <$> x

@[simp] theorem outcome_throw (e : SyntaxError) : outcome (throw e : Read α s) = .error e := rfl

@[simp] theorem outcome_ok (r : Reading α s) : outcome (.ok r) = .ok (r.value, r.rest) := rfl

@[simp] theorem outcome_pure (r : Reading α s) :
    outcome (pure r : Read α s) = .ok (r.value, r.rest) := rfl

/-- A reader comes to a value when it reads one. -/
theorem outcome_eq_ok_iff {x : Read α s} {v : α} {rest : List Char} :
    outcome x = .ok (v, rest) ↔ ∃ r, x = .ok r ∧ r.value = v ∧ r.rest = rest := by
  rw [outcome, map_eq_ok_iff]
  simp

/-- What is left is a tail of what was read. -/
theorem outcome_suffix {x : Read α s} {v : α} {rest : List Char} (h : outcome x = .ok (v, rest)) :
    rest <:+ s := by
  obtain ⟨r, -, -, rfl⟩ := outcome_eq_ok_iff.1 h
  exact r.isSuffix

/-- A reading that another follows comes to what that one comes to. -/
theorem outcome_bind {x : Read α s} {f : Reading α s → Read β t}
    {g : α × List Char → Except SyntaxError (β × List Char)}
    (h : ∀ r, outcome (f r) = g (r.value, r.rest)) : outcome (x >>= f) = outcome x >>= g := by
  cases x with
  | error e => rfl
  | ok r => exact h r

/-- Refusing comes before what follows it. -/
theorem outcome_refuse {e : Option SyntaxError} {x : Read α s} :
    outcome (refuse e >>= fun _ => x) = refuse e >>= fun _ => outcome x := by
  cases e <;> rfl

/-! ## Blank lines -/

/-- A text of spaces alone is skipped to its end, and no line ends. -/
theorem skipBlankLines_of_nil (h : skipSpaces s = []) : skipBlankLines s = (0, []) := by
  rw [skipBlankLines]
  split
  · rfl
  · next h' => rw [h] at h'; cases h'

/-- A line of spaces is skipped and counted. -/
theorem skipBlankLines_of_lineEnd (h : skipSpaces s = '\n' :: t) :
    skipBlankLines s = ((skipBlankLines t).1 + 1, (skipBlankLines t).2) := by
  rw [skipBlankLines]
  split
  · next h' => rw [h] at h'; cases h'
  · next c t' h' =>
    rw [h] at h'
    cases h'
    rw [if_pos rfl]

/-- A line with something on it is left, its spaces included. -/
theorem skipBlankLines_of_ne {c : Char} (h : skipSpaces s = c :: t) (hc : c ≠ '\n') :
    skipBlankLines s = (0, s) := by
  rw [skipBlankLines]
  split
  · next h' => rw [h] at h'; cases h'
  · next c' t' h' =>
    rw [h] at h'
    cases h'
    rw [if_neg hc]

/-! ## Names, numbers and literals -/

/-- A name begins with a letter and goes on as far as it can. -/
theorem outcome_identifier (c : Char) (s : List Char) :
    outcome (identifier (c :: s)) =
      if c.isAlpha then .ok (String.ofList (c :: s.takeWhile isNameChar), s.dropWhile isNameChar)
      else .error .identifier := by
  rw [identifier]
  split <;> rfl

theorem outcome_expect (c d : Char) (s : List Char) :
    outcome (expect c (d :: s)) = if d = c then .ok ((), s) else .error (.character c) := by
  rw [expect]
  split <;> rfl

/-- Digits are read as far as they go, and there has to be one. -/
theorem outcome_digits (c : Char) (s : List Char) :
    outcome (digits (c :: s)) =
      if c.isDigit then .ok ((), s.dropWhile Char.isDigit) else .error .number := by
  rw [digits]
  split <;> rfl

/-- Behind the point of a number there have to be digits again. -/
theorem outcome_unsignedNumber (s : List Char) :
    outcome (unsignedNumber s) = outcome (digits s) >>= fun whole =>
      match whole.2 with
      | '.' :: t => outcome (digits t)
      | rest => .ok ((), rest) := by
  rw [unsignedNumber]
  apply outcome_bind
  intro whole
  split
  · next t h =>
    simp only [h]
    cases digits t <;> rfl
  · next h =>
    split
    · next t h' => exact absurd h' (h t)
    · rfl

theorem outcome_number_minus (s : List Char) :
    outcome (number ('-' :: s)) = outcome (unsignedNumber s) := by
  rw [number]
  cases unsignedNumber s <;> rfl

/-- A number without a sign is read as it is. -/
theorem number_of_head {s : List Char} (h : s.head? ≠ some '-') : number s = unsignedNumber s := by
  rw [number]
  rintro t rfl
  exact h rfl

theorem outcome_hexDigits_succ (n : Nat) (c : Char) (s : List Char) :
    outcome (hexDigits (n + 1) (c :: s)) =
      if isHexDigit c then outcome (hexDigits n s) else .error .unicodeEscape := by
  rw [hexDigits]
  split
  · cases hexDigits n s <;> rfl
  · rfl

/-- A backslash and a quote escape themselves, a code has four digits or six, and a line end is a
fault of the string rather than of the escape. -/
theorem outcome_escape (c : Char) (s : List Char) :
    outcome (escape (c :: s)) =
      if c = '\\' ∨ c = '"' then .ok ((), s)
      else if c = 'u' then outcome (hexDigits 4 s)
      else if c = 'U' then outcome (hexDigits 6 s)
      else if c = '\n' then .error .unterminatedString
      else .error .unknownEscape := by
  rw [escape]
  split
  · rfl
  split
  · cases hexDigits 4 s <;> rfl
  split
  · cases hexDigits 6 s <;> rfl
  split <;> rfl

theorem outcome_stringLiteral_nil : outcome (stringLiteral []) = .error .unterminatedString := by
  rw [stringLiteral]
  rfl

/-- A string ends with its quote, and on its own line. -/
theorem outcome_stringLiteral (c : Char) (s : List Char) :
    outcome (stringLiteral (c :: s)) =
      if c = '"' then .ok ((), s)
      else if c = '\n' then .error .unterminatedString
      else if c = '\\' then outcome (escape s) >>= fun code => outcome (stringLiteral code.2)
      else outcome (stringLiteral s) := by
  rw [stringLiteral]
  split
  · rfl
  split
  · rfl
  split
  · apply outcome_bind
    intro code
    cases stringLiteral code.rest <;> rfl
  · cases stringLiteral s <;> rfl

theorem outcome_attributeAccessor_point (s : List Char) :
    outcome (attributeAccessor ('.' :: s)) = (fun p => (true, p.2)) <$> outcome (identifier s) := by
  rw [attributeAccessor]
  cases identifier s <;> rfl

theorem outcome_attributeAccessor_of_head {s : List Char} (h : s.head? ≠ some '.') :
    outcome (attributeAccessor s) = .ok (false, s) := by
  rw [attributeAccessor]
  · rfl
  · rintro t rfl
    exact h rfl

/-- The key of a variant is a number or a name, which its first character tells. -/
theorem outcome_variantKey (c : Char) (s : List Char) :
    outcome (variantKey (c :: s)) =
      if c.isDigit || c == '-' then outcome (number (c :: s))
      else (fun p => ((), p.2)) <$> outcome (identifier (c :: s)) := by
  have hhead : (c :: s).head?.any (fun c => c.isDigit || c == '-') = (c.isDigit || c == '-') := rfl
  rw [variantKey, hhead]
  split
  · rfl
  · cases identifier (c :: s) <;> rfl

/-! ## Expressions and patterns -/

/-- White space is skipped in front of the expression; behind it, the expression has done so. -/
theorem outcome_placeable (s : List Char) :
    outcome (placeable s) =
      outcome (expression (skipBlank s)) >>= fun inside => outcome (expect '}' inside.2) := by
  rw [placeable]
  apply outcome_bind
  intro inside
  cases expect '}' inside.rest <;> rfl

/-- An arrow makes the operand a selector, with the variants on a line of their own. Whether the
operand can be one is asked before what stands behind the arrow. -/
theorem outcome_expression (s : List Char) :
    outcome (expression s) = outcome (inlineExpression s) >>= fun operand =>
      match skipBlank operand.2 with
      | '-' :: '>' :: t => refuse operand.1.selectorFault? >>= fun _ =>
        match skipSpaces t with
        | '\n' :: _ => (fun cases => ((), skipBlank cases.2)) <$> outcome (variants .nothing t)
        | _ => .error .arrowLineEnd
      | rest => refuse operand.1.placeableFault? >>= fun _ => .ok ((), rest) := by
  rw [expression]
  apply outcome_bind
  intro operand
  split
  · next t h =>
    simp only [h]
    cases operand.value.selectorFault? with
    | some e => rfl
    | none =>
      generalize hline : skipSpaces t = line
      simp only [refuse, bind, Except.bind]
      cases line with
      | nil => rfl
      | cons c line =>
        by_cases hc : c = '\n'
        · subst hc
          cases variants .nothing t <;> rfl
        · simp [hc]
  · next h =>
    split
    · next t h' => exact absurd h' (h t)
    · cases operand.value.placeableFault? <;> rfl

theorem outcome_inlineExpression_nil : outcome (inlineExpression []) = .error .inlineExpression := by
  rw [inlineExpression]
  rfl

/-- The first character tells what an operand is; a minus sign takes the one behind it too. -/
theorem outcome_inlineExpression (c : Char) (t : List Char) :
    outcome (inlineExpression (c :: t)) =
      if c = '{' then (fun p => (.placeable, p.2)) <$> outcome (placeable t)
      else if c.isDigit || (c == '-' && t.head?.any Char.isDigit) then
        (fun p => (.literal, p.2)) <$> outcome (number (c :: t))
      else if c = '"' then (fun p => (.literal, p.2)) <$> outcome (stringLiteral t)
      else if c = '$' then (fun p => (.variableReference, p.2)) <$> outcome (identifier t)
      else if c = '-' then outcome (termReference t)
      else if c.isAlpha then outcome (callOrReference (c :: t))
      else .error .inlineExpression := by
  rw [inlineExpression]
  split
  · cases placeable t <;> rfl
  split
  · cases number (c :: t) <;> rfl
  split
  · cases stringLiteral t <;> rfl
  split
  · cases identifier t <;> rfl
  split
  · cases termReference t <;> rfl
  split <;> rfl

/-- Behind the name of a term may stand an attribute, and behind this arguments. -/
theorem outcome_termReference (s : List Char) :
    outcome (termReference s) = outcome (identifier s) >>= fun id =>
      outcome (attributeAccessor id.2) >>= fun access =>
        match skipBlank access.2 with
        | '(' :: t => (fun p => (.termReference access.1, p.2)) <$> outcome (arguments [] t)
        | _ => .ok (.termReference access.1, access.2) := by
  rw [termReference]
  apply outcome_bind
  intro id
  apply outcome_bind
  intro access
  split
  · next t h =>
    simp only [h]
    cases arguments [] t <;> rfl
  · next h =>
    split
    · next t h' => exact absurd h' (h t)
    · rfl

/-- A name with arguments is a function, which has a name in capital letters; without arguments it
is a message. -/
theorem outcome_callOrReference (s : List Char) :
    outcome (callOrReference s) = outcome (identifier s) >>= fun id =>
      match skipBlank id.2 with
      | '(' :: t =>
        refuse (if isFunctionName id.1 then none else some (.functionName id.1)) >>= fun _ =>
          (fun p => (.functionCall, p.2)) <$> outcome (arguments [] t)
      | _ => (fun p => (.messageReference id.1 p.1, p.2)) <$> outcome (attributeAccessor id.2) := by
  rw [callOrReference]
  apply outcome_bind
  intro id
  split
  · next t h =>
    simp only [h]
    split
    · cases arguments [] t <;> rfl
    · rfl
  · next h =>
    split
    · next t h' => exact absurd h' (h t)
    · cases attributeAccessor id.rest <;> rfl

/-- Arguments stand between commas, and a comma may stand behind the last one. -/
theorem outcome_arguments (named : List String) (s : List Char) :
    outcome (arguments named s) =
      match skipBlank s with
      | ')' :: t => .ok ((), t)
      | rest => outcome (argument named rest) >>= fun first =>
        match skipBlank first.2 with
        | ',' :: t => outcome (arguments first.1 t)
        | rest => outcome (expect ')' rest) := by
  rw [arguments]
  split
  · next t h => simp only [h, outcome_ok]
  · next h =>
    split
    · next t h' => exact absurd h' (h t)
    · apply outcome_bind
      intro first
      split
      · next t h' =>
        simp only [h']
        cases arguments first.value t <;> rfl
      · next h' =>
        split
        · next t h'' => exact absurd h'' (h' t)
        · cases expect ')' (skipBlank first.rest) <;> rfl

/-- A colon makes the name in front of it the name of an argument: it is new, and its value is a
literal. Arguments without a name come before those with one. -/
theorem outcome_argument (named : List String) (s : List Char) :
    outcome (argument named s) = outcome (inlineExpression s) >>= fun operand =>
      match skipBlank operand.2 with
      | ':' :: t =>
        match operand.1 with
        | .messageReference name false =>
          refuse (if name ∈ named then some (.duplicateArgument name) else none) >>= fun _ =>
            outcome (inlineExpression (skipBlank t)) >>= fun value =>
              refuse (if value.1 = .literal then none else some .argumentValue) >>= fun _ =>
                .ok (name :: named, value.2)
        | _ => .error .argumentName
      | _ =>
        refuse (if named = [] then none else some .argumentOrder) >>= fun _ =>
          .ok (named, operand.2) := by
  rw [argument]
  apply outcome_bind
  intro operand
  split
  · next t h =>
    simp only [h]
    generalize operand.value = name
    cases name with
    | literal | variableReference | functionCall | termReference | placeable => rfl
    | messageReference name ofAttribute =>
      cases ofAttribute with
      | true => rfl
      | false =>
        dsimp only
        rw [outcome_refuse]
        congr 1
        funext _
        apply outcome_bind
        intro value
        rw [outcome_refuse]
        rfl
  · next h =>
    rw [outcome_refuse]
    symm
    split
    · next t h' => exact absurd h' (h t)
    · rfl

/-- Variants are read as long as one begins, and then exactly one of them has been the default. -/
theorem outcome_variants (seen : VariantsSeen) (s : List Char) :
    outcome (variants seen s) =
      match skipBlank s with
      | '*' :: t => refuse (if seen = .withDefault then some .secondDefault else none) >>= fun _ =>
        outcome (expect '[' t) >>= fun opening =>
          outcome (variant opening.2) >>= fun first => outcome (variants .withDefault first.2)
      | '[' :: t => outcome (variant t) >>= fun first => outcome (variants seen.addPlain first.2)
      | rest => refuse seen.endFault? >>= fun _ => .ok ((), rest) := by
  rw [variants]
  split
  · next t h =>
    simp only [h]
    rw [outcome_refuse]
    congr 1
    funext _
    apply outcome_bind
    intro opening
    apply outcome_bind
    intro first
    cases variants .withDefault first.rest <;> rfl
  · next t h =>
    simp only [h]
    apply outcome_bind
    intro first
    cases variants seen.addPlain first.rest <;> rfl
  · next h h' =>
    split
    · next t h'' => exact absurd h'' (h t)
    · next t h'' => exact absurd h'' (h' t)
    · rw [outcome_refuse]
      rfl

/-- A variant has a key in brackets and a value. -/
theorem outcome_variant (s : List Char) :
    outcome (variant s) = outcome (variantKey (skipBlank s)) >>= fun key =>
      outcome (expect ']' (skipBlank key.2)) >>= fun close =>
        outcome (pattern? close.2) >>= fun value =>
          refuse (if value.1.isNone then some .variantValue else none) >>= fun _ =>
            .ok ((), value.2) := by
  rw [variant]
  apply outcome_bind
  intro key
  apply outcome_bind
  intro close
  apply outcome_bind
  intro value
  rw [outcome_refuse]
  rfl

/-- A value begins on the same line, or on an indented line below blank ones; else there is none and
nothing is read. -/
theorem outcome_pattern? (s : List Char) :
    outcome (pattern? s) =
      if (skipSpaces s).head?.any (· != '\n') then
        (fun p => (some (.ofParts p.1), p.2)) <$> outcome (patternParts (skipSpaces s))
      else if continuesValue (skipBlankLines (skipSpaces s)).2 then
        let line := (skipBlankLines (skipSpaces s)).2
        (fun p => (some (.ofParts (.indent 0 (leadingSpaces line) :: p.1)), p.2)) <$>
          outcome (patternParts (skipSpaces line))
      else .ok (none, s) := by
  rw [pattern?]
  split
  · cases patternParts (skipSpaces s) <;> rfl
  · dsimp only
    split
    · cases patternParts (skipSpaces (skipBlankLines (skipSpaces s)).2) <;> rfl
    · rfl

/-- At the end of the text a value has no more parts. -/
theorem outcome_patternParts_nil : outcome (patternParts []) = .ok ([], []) := by
  rw [patternParts]
  rfl

/-- A value goes on below a line end where the next line that is not blank is indented for it. A
closing brace that closes nothing is a fault. -/
theorem outcome_patternParts (c : Char) (t : List Char) :
    outcome (patternParts (c :: t)) =
      if c = '\n' then
        if continuesValue (skipBlankLines t).2 then
          let line := (skipBlankLines t).2
          (fun p => (.indent ((skipBlankLines t).1 + 1) (leadingSpaces line) :: p.1, p.2)) <$>
            outcome (patternParts (skipSpaces line))
        else .ok ([], c :: t)
      else if c = '{' then
        outcome (placeable t) >>= fun closed =>
          (fun p => (.placeable (placeableSource (consumed t closed.2)) :: p.1, p.2)) <$>
            outcome (patternParts closed.2)
      else if c = '}' then .error .closingBrace
      else
        (fun p => (.text (c :: t.takeWhile isTextChar) :: p.1, p.2)) <$>
          outcome (patternParts (t.dropWhile isTextChar)) := by
  rw [patternParts]
  split
  · dsimp only
    split
    · cases patternParts (skipSpaces (skipBlankLines t).2) <;> rfl
    · rfl
  split
  · apply outcome_bind
    intro closed
    cases patternParts closed.rest <;> rfl
  split
  · rfl
  · cases patternParts (t.dropWhile isTextChar) <;> rfl

/-! ## Entries -/

/-- A name, the sign, and a value if there is one. -/
theorem outcome_definition (s : List Char) :
    outcome (definition s) = outcome (identifier s) >>= fun id =>
      outcome (expect '=' (skipSpaces id.2)) >>= fun mark =>
        (fun p => ((id.1, p.1), p.2)) <$> outcome (pattern? mark.2) := by
  rw [definition]
  apply outcome_bind
  intro id
  have hmark : outcome (equalsSign id.rest) = outcome (expect '=' (skipSpaces id.rest)) := by
    rw [equalsSign]
    cases expect '=' (skipSpaces id.rest) <;> rfl
  rw [← hmark]
  apply outcome_bind
  intro mark
  cases pattern? mark.rest <;> rfl

/-- Attributes are read as long as one begins, and each has a value. -/
theorem outcome_attributes (s : List Char) :
    outcome (attributes s) =
      match skipBlank s with
      | '.' :: t => outcome (definition t) >>= fun first =>
        match first.1 with
        | (id, none) => .error (.attributeValue id)
        | (id, some value) => (fun p => (⟨id, value⟩ :: p.1, p.2)) <$> outcome (attributes first.2)
      | _ => .ok ([], s) := by
  rw [attributes]
  split
  · next t h =>
    simp only [h]
    apply outcome_bind
    intro first
    split
    · next id hid => simp only [hid, outcome_throw]
    · next id value hid =>
      simp only [hid]
      cases attributes first.rest <;> rfl
  · next h =>
    split
    · next t h' => exact absurd h' (h t)
    · rfl

/-- A message has a value or an attribute. -/
theorem outcome_message (s : List Char) :
    outcome (message s) = outcome (definition s) >>= fun head =>
      outcome (attributes head.2) >>= fun tail =>
        refuse (if head.1.2.isNone && tail.1.isEmpty then some (.messageContent head.1.1) else none)
          >>= fun _ => .ok (⟨head.1.1, head.1.2, tail.1, none, none⟩, tail.2) := by
  rw [message]
  apply outcome_bind
  intro head
  apply outcome_bind
  intro tail
  rw [outcome_refuse]
  rfl

/-- A term has a value. -/
theorem outcome_term (s : List Char) :
    outcome (term s) = outcome (definition s) >>= fun head =>
      match head.1 with
      | (id, none) => .error (.termValue id)
      | (id, some value) =>
        (fun p => (⟨id, value, p.1, none, none⟩, p.2)) <$> outcome (attributes head.2) := by
  rw [term]
  apply outcome_bind
  intro head
  split
  · next id hid => simp only [hid, outcome_throw]
  · next id value hid =>
    simp only [hid]
    cases attributes head.rest <;> rfl

/-- Behind the marks of a comment stands a space or nothing. -/
theorem outcome_commentLine (c : Char) (s : List Char) :
    outcome (commentLine (c :: s)) =
      if c = '\n' then .ok ([], c :: s)
      else if c = ' ' then .ok (s.takeWhile (· != '\n'), s.dropWhile (· != '\n'))
      else .error .commentSpace := by
  rw [commentLine]
  split
  · rfl
  split <;> rfl

/-- A comment goes on as long as lines have as many marks. -/
theorem outcome_commentLines (n : Nat) (s : List Char) :
    outcome (commentLines n s) = outcome (commentLine s) >>= fun first =>
      match first.2 with
      | '\n' :: t =>
        if isCommentLine n t then
          (fun p => (first.1 :: p.1, p.2)) <$> outcome (commentLines n (t.drop n))
        else .ok ([first.1], first.2)
      | _ => .ok ([first.1], first.2) := by
  rw [commentLines]
  apply outcome_bind
  intro first
  split
  · next t h =>
    simp only [h]
    split
    · cases commentLines n (t.drop n) <;> rfl
    · simp [Reading.map, h]
  · next h =>
    split
    · next t h' => exact absurd h' (h t)
    · rfl

theorem outcome_comment (s : List Char) :
    outcome (comment s) =
      match commentLevel? (commentMarks s) with
      | none => .error .commentLevel
      | some level =>
        (fun p => (.comment level ⟨String.ofList (['\n'].intercalate p.1), none⟩, p.2)) <$>
          outcome (commentLines (commentMarks s) (s.drop (commentMarks s))) := by
  rw [comment]
  generalize commentLevel? (commentMarks s) = level
  cases level with
  | none => rfl
  | some level => cases commentLines (commentMarks s) (s.drop (commentMarks s)) <;> rfl

/-- The first character tells what an entry is. -/
theorem outcome_entry (c : Char) (t : List Char) :
    outcome (entry (c :: t)) =
      if c = '#' then outcome (comment (c :: t))
      else if c = '-' then (fun p => (.term p.1, p.2)) <$> outcome (term t)
      else if c.isAlpha then (fun p => (.message p.1, p.2)) <$> outcome (message (c :: t))
      else .error .entryStart := by
  rw [entry]
  split
  · rfl
  split
  · cases term t <;> rfl
  split
  · cases message (c :: t) <;> rfl
  · rfl

theorem outcome_lineEnd (c : Char) (s : List Char) :
    outcome (lineEnd (c :: s)) = if c = '\n' then .ok ((), s) else .error .lineEnd := by
  rw [lineEnd]
  split <;> rfl

/-- Nothing stands behind an entry on its last line. -/
theorem outcome_entryLine (s : List Char) :
    outcome (entryLine s) = outcome (entry s) >>= fun e =>
      (fun p => ((e.1, consumed s e.2), p.2)) <$> outcome (lineEnd e.2) := by
  rw [entryLine]
  apply outcome_bind
  intro e
  cases lineEnd e.rest <;> rfl

/-! ## What was read

The other way round: an outcome that is a value tells of the readers it came from, one behind the
other. -/

section Inversions

variable {s rest : List Char}

theorem expect_cases {c : Char} (h : outcome (expect c s) = .ok ((), rest)) : s = c :: rest := by
  cases s with
  | nil => cases h
  | cons d s =>
    rw [outcome_expect] at h
    split at h
    · next hd =>
      cases h
      rw [hd]
    · cases h

theorem definition_cases {id : String} {value : Option Pattern}
    (h : outcome (definition s) = .ok ((id, value), rest)) :
    ∃ t u, outcome (identifier s) = .ok (id, t) ∧ skipSpaces t = '=' :: u ∧
      outcome (pattern? u) = .ok (value, rest) := by
  rw [outcome_definition] at h
  obtain ⟨⟨name, t⟩, hname, h⟩ := bind_eq_ok_iff.1 h
  obtain ⟨⟨⟨⟩, u⟩, hmark, h⟩ := bind_eq_ok_iff.1 h
  obtain ⟨⟨value, v⟩, hvalue, h⟩ := map_eq_ok_iff.1 h
  cases h
  exact ⟨t, u, hname, expect_cases hmark, hvalue⟩

/-- A message comes without a comment: it is given one only when all entries are there. -/
theorem message_cases {m : Message} (h : outcome (message s) = .ok (m, rest)) :
    ∃ t, outcome (definition s) = .ok ((m.id, m.value), t) ∧
      outcome (attributes t) = .ok (m.attributes, rest) ∧
      (m.value ≠ none ∨ m.attributes ≠ []) ∧ m.comment = none := by
  rw [outcome_message] at h
  obtain ⟨⟨⟨id, value⟩, t⟩, hhead, h⟩ := bind_eq_ok_iff.1 h
  obtain ⟨⟨attributes, u⟩, htail, h⟩ := bind_eq_ok_iff.1 h
  obtain ⟨⟨⟩, hcontent, h⟩ := bind_eq_ok_iff.1 h
  cases h
  refine ⟨t, hhead, htail, ?_, rfl⟩
  cases value with
  | some value => exact .inl (Option.some_ne_none value)
  | none =>
    cases attributes with
    | nil => cases hcontent
    | cons a attributes => exact .inr (List.cons_ne_nil a attributes)

theorem term_cases {t : Term} (h : outcome (term s) = .ok (t, rest)) :
    ∃ u, outcome (definition s) = .ok ((t.id, some t.value), u) ∧
      outcome (attributes u) = .ok (t.attributes, rest) ∧ t.comment = none := by
  rw [outcome_term] at h
  obtain ⟨⟨⟨id, value⟩, u⟩, hhead, h⟩ := bind_eq_ok_iff.1 h
  cases value with
  | none => cases h
  | some value =>
    obtain ⟨⟨attributes, v⟩, htail, h⟩ := map_eq_ok_iff.1 h
    cases h
    exact ⟨u, hhead, htail, rfl⟩

theorem comment_cases {e : Entry} (h : outcome (comment s) = .ok (e, rest)) :
    ∃ level lines, commentLevel? (commentMarks s) = some level ∧
      outcome (commentLines (commentMarks s) (s.drop (commentMarks s))) = .ok (lines, rest) ∧
      e = .comment level ⟨String.ofList (['\n'].intercalate lines), none⟩ := by
  rw [outcome_comment] at h
  split at h
  · cases h
  · next level hlevel =>
    obtain ⟨⟨lines, u⟩, hlines, h⟩ := map_eq_ok_iff.1 h
    cases h
    exact ⟨level, lines, hlevel, hlines, rfl⟩

/-- What an entry was read as, which its first character tells. Junk is read as none of these. -/
inductive EntryRead : List Char → Entry → List Char → Prop
  | comment {t rest : List Char} {e : Entry} :
      outcome (comment ('#' :: t)) = .ok (e, rest) → EntryRead ('#' :: t) e rest
  | term {t rest : List Char} {m : Term} :
      outcome (term t) = .ok (m, rest) → EntryRead ('-' :: t) (.term m) rest
  | message {c : Char} {t rest : List Char} {m : Message} :
      c.isAlpha = true → outcome (message (c :: t)) = .ok (m, rest) →
      EntryRead (c :: t) (.message m) rest

theorem entryRead_of_entry {e : Entry} (h : outcome (entry s) = .ok (e, rest)) :
    EntryRead s e rest := by
  cases s with
  | nil => cases h
  | cons c t =>
    rw [outcome_entry] at h
    split at h
    · next hc =>
      subst hc
      exact .comment h
    split at h
    · next hc =>
      subst hc
      obtain ⟨⟨m, u⟩, hm, h⟩ := map_eq_ok_iff.1 h
      cases h
      exact .term hm
    split at h
    · next hc =>
      obtain ⟨⟨m, u⟩, hm, h⟩ := map_eq_ok_iff.1 h
      cases h
      exact .message hc hm
    · cases h

end Inversions

end FluentMerge.Read
