import FluentMerge.Document.PatternPart
import FluentMerge.Document.Reading
import FluentMerge.Text.Blank

/-!
# Expressions and patterns

The readers for what may stand in a placeable and for the patterns around it. They call one another:
a placeable holds an expression, a select expression holds variants, a variant holds a pattern, and
a pattern holds placeables.

Of an expression only the `Operand` is kept, which is all that the rules on selectors, arguments and
placeables ask; a pattern keeps the source of a placeable, trimmed.

Each reader is given the text after the character that announced it, so every call is on a shorter
text or goes down a level on the same one.
-/

namespace FluentMerge

/-- What an inline expression is. -/
inductive Operand where
  | literal
  | variableReference
  | functionCall
  | messageReference (id : String) (ofAttribute : Bool)
  | termReference (ofAttribute : Bool)
  | placeable
  deriving DecidableEq, Repr

namespace Operand

/-- Why an operand cannot select a variant. Literals, variables, calls and attributes of terms can.
-/
def selectorFault? : Operand → Option SyntaxError
  | .messageReference _ false => some .messageSelector
  | .messageReference _ true => some .messageAttributeSelector
  | .termReference false => some .termSelector
  | .placeable => some .placeableSelector
  | _ => none

/-- Why an operand cannot stand alone in a placeable: an attribute of a term is not a text. -/
def placeableFault? : Operand → Option SyntaxError
  | .termReference true => some .termAttributePlaceable
  | _ => none

end Operand

/-- Which variants a select expression has had so far. -/
inductive VariantsSeen where
  | nothing
  | withoutDefault
  | withDefault
  deriving DecidableEq, Repr

/-- Why a select expression cannot end here: it needs variants, and a default one. -/
def VariantsSeen.endFault? : VariantsSeen → Option SyntaxError
  | .nothing => some .noVariant
  | .withoutDefault => some .noDefault
  | .withDefault => none

/-- The variants after one more that is not the default. -/
def VariantsSeen.addPlain : VariantsSeen → VariantsSeen
  | .withDefault => .withDefault
  | _ => .withoutDefault

/-- The source of an expression, from what was read of a placeable up to its closing brace. -/
def placeableSource (s : List Char) : List Char := Text.trim s.dropLast

/-- Whether `c` is text in a line of a pattern: neither a brace nor the line's end. -/
def isTextChar (c : Char) : Bool := c != '\n' && c != '{' && c != '}'

/-- Whether a function may have this name: capital letters, digits, `_` and `-`, a letter first. -/
def isFunctionName (id : String) : Bool :=
  id.toList.all (fun c => c.isUpper || c.isDigit || c == '_' || c == '-') &&
    id.toList.head?.any Char.isUpper

namespace Read

/-- Stops at a fault, if there is one. -/
def refuse : Option SyntaxError → Except SyntaxError Unit
  | some e => .error e
  | none => .ok ()

/-- Reads an attribute's name after a point, if there is one, and tells whether there was. -/
def attributeAccessor (s : List Char) : Read Bool s :=
  match s with
  | '.' :: t => (fun r => (r.map fun _ => true).within (List.suffix_cons _ _)) <$> identifier t
  | _ => .ok (.here false)

/-- Reads the key of a variant: a number or a name. -/
def variantKey (s : List Char) : Read Unit s :=
  if s.head?.any fun c => c.isDigit || c == '-' then number s
  else (·.map fun _ => ()) <$> identifier s

mutual

/-- Reads a placeable after its opening brace, up to and with its closing one. -/
def placeable (s : List Char) : Read Unit s := do
  let inside ← expression (skipBlank s)
  let close ← expect '}' inside.rest
  return close.within (inside.isSuffix.trans (skipBlank_suffix s))
termination_by 4 * s.length + 3
decreasing_by
  have := (skipBlank_suffix s).length_le
  omega

/-- Reads what stands between the braces of a placeable: an operand, or a select expression. -/
def expression (s : List Char) : Read Unit s := do
  let operand ← inlineExpression s
  have operandEnd := (skipBlank_suffix operand.rest).trans operand.isSuffix
  match h : skipBlank operand.rest with
  | '-' :: '>' :: t =>
    refuse operand.value.selectorFault?
    match skipSpaces t with
    | '\n' :: _ =>
      let cases ← variants .nothing t
      return ⟨(), skipBlank cases.rest, (skipBlank_suffix _).trans (cases.isSuffix.trans
        ((List.suffix_cons _ _).trans ((List.suffix_cons _ _).trans (h ▸ operandEnd))))⟩
    | _ => throw .arrowLineEnd
  | _ =>
    refuse operand.value.placeableFault?
    return ⟨(), skipBlank operand.rest, operandEnd⟩
termination_by 4 * s.length + 2
decreasing_by
  · omega
  · have := operandEnd.length_le
    simp [h] at this
    omega

/-- Reads an operand. -/
def inlineExpression : (s : List Char) → Read Operand s
  | [] => .error .inlineExpression
  | c :: t =>
    if c = '{' then
      (fun r => (r.map fun _ => .placeable).within (List.suffix_cons _ _)) <$> placeable t
    else if c.isDigit || (c == '-' && t.head?.any Char.isDigit) then
      (·.map fun _ => .literal) <$> number (c :: t)
    else if c = '"' then
      (fun r => (r.map fun _ => .literal).within (List.suffix_cons _ _)) <$> stringLiteral t
    else if c = '$' then
      (fun r => (r.map fun _ => .variableReference).within (List.suffix_cons _ _)) <$> identifier t
    else if c = '-' then
      (·.within (List.suffix_cons _ _)) <$> termReference t
    else if c.isAlpha then
      callOrReference (c :: t)
    else .error .inlineExpression
termination_by s => 4 * s.length + 1
decreasing_by
  all_goals
    simp only [List.length_cons]
    omega

/-- Reads a reference to a term after its mark: a name, an attribute or none, arguments or none. -/
def termReference (s : List Char) : Read Operand s := do
  let id ← identifier s
  let access ← attributeAccessor id.rest
  have referenceEnd := access.isSuffix.trans id.isSuffix
  match h : skipBlank access.rest with
  | '(' :: t =>
    let args ← arguments [] t
    return (args.map fun _ => .termReference access.value).within
      ((List.suffix_cons _ _).trans (h ▸ (skipBlank_suffix _).trans referenceEnd))
  | _ => return ⟨.termReference access.value, access.rest, referenceEnd⟩
termination_by 4 * s.length + 1
decreasing_by
  have := ((skipBlank_suffix _).trans referenceEnd).length_le
  simp [h] at this
  omega

/-- Reads what begins with a name: the call of a function, or a reference to a message and maybe to
an attribute of it. -/
def callOrReference (s : List Char) : Read Operand s := do
  let id ← identifier s
  have idEnd := (skipBlank_suffix id.rest).trans id.isSuffix
  match h : skipBlank id.rest with
  | '(' :: t =>
    refuse (if isFunctionName id.value then none else some (.functionName id.value))
    let args ← arguments [] t
    return (args.map fun _ => .functionCall).within ((List.suffix_cons _ _).trans (h ▸ idEnd))
  | _ =>
    let access ← attributeAccessor id.rest
    return (access.map fun a => .messageReference id.value a).within id.isSuffix
termination_by 4 * s.length
decreasing_by
  have := idEnd.length_le
  simp [h] at this
  omega

/-- Reads arguments after an opening bracket or a comma, up to and with the closing bracket. The
arguments named so far are `named`. -/
def arguments (named : List String) (s : List Char) : Read Unit s :=
  match h : skipBlank s with
  | ')' :: t => .ok ⟨(), t, (List.suffix_cons _ _).trans (h ▸ skipBlank_suffix s)⟩
  | _ => do
    let first ← argument named (skipBlank s)
    have argumentEnd :=
      (skipBlank_suffix first.rest).trans (first.isSuffix.trans (skipBlank_suffix s))
    match h : skipBlank first.rest with
    | ',' :: t =>
      let others ← arguments first.value t
      return others.within ((List.suffix_cons _ _).trans (h ▸ argumentEnd))
    | _ =>
      let close ← expect ')' (skipBlank first.rest)
      return close.within argumentEnd
termination_by 4 * s.length + 3
decreasing_by
  · have := (skipBlank_suffix s).length_le
    omega
  · have := argumentEnd.length_le
    simp [h] at this
    omega

/-- Reads one argument and gives the arguments that are named after it. Named arguments come last,
each name once, and their values are literals. -/
def argument (named : List String) (s : List Char) : Read (List String) s := do
  let operand ← inlineExpression s
  have operandEnd := (skipBlank_suffix operand.rest).trans operand.isSuffix
  match h : skipBlank operand.rest with
  | ':' :: t =>
    match operand.value with
    | .messageReference name false =>
      refuse (if name ∈ named then some (.duplicateArgument name) else none)
      let value ← inlineExpression (skipBlank t)
      refuse (if value.value = .literal then none else some .argumentValue)
      return ⟨name :: named, value.rest, value.isSuffix.trans ((skipBlank_suffix t).trans
        ((List.suffix_cons _ _).trans (h ▸ operandEnd)))⟩
    | _ => throw .argumentName
  | _ =>
    refuse (if named = [] then none else some .argumentOrder)
    return ⟨named, operand.rest, operand.isSuffix⟩
termination_by 4 * s.length + 2
decreasing_by
  · omega
  · have := operandEnd.length_le
    have := (skipBlank_suffix t).length_le
    simp [h] at *
    omega

/-- Reads the variants of a select expression, after those of `seen`. -/
def variants (seen : VariantsSeen) (s : List Char) : Read Unit s :=
  match h : skipBlank s with
  | '*' :: t => do
    refuse (if seen = .withDefault then some .secondDefault else none)
    let opening ← expect '[' t
    let first ← variant opening.rest
    let others ← variants .withDefault first.rest
    return others.within (first.isSuffix.trans (opening.isSuffix.trans
      ((List.suffix_cons _ _).trans (h ▸ skipBlank_suffix s))))
  | '[' :: t => do
    let first ← variant t
    let others ← variants seen.addPlain first.rest
    return others.within (first.isSuffix.trans
      ((List.suffix_cons _ _).trans (h ▸ skipBlank_suffix s)))
  | _ => do
    refuse seen.endFault?
    return ⟨(), skipBlank s, skipBlank_suffix s⟩
termination_by 4 * s.length
decreasing_by
  all_goals
    have := (skipBlank_suffix s).length_le
    simp [h] at this
  · have := opening.length_rest_le
    omega
  · have := opening.length_rest_le
    have := first.length_rest_le
    omega
  · omega
  · have := first.length_rest_le
    omega

/-- Reads a variant after the opening bracket of its key. -/
def variant (s : List Char) : Read Unit s := do
  let key ← variantKey (skipBlank s)
  let close ← expect ']' (skipBlank key.rest)
  have keyEnd := close.isSuffix.trans
    ((skipBlank_suffix _).trans (key.isSuffix.trans (skipBlank_suffix s)))
  let value ← pattern? close.rest
  refuse (if value.value.isNone then some .variantValue else none)
  return ⟨(), value.rest, value.isSuffix.trans keyEnd⟩
termination_by 4 * s.length + 2
decreasing_by
  have := keyEnd.length_le
  omega

/-- Reads a pattern, if there is one: it begins on the line where `s` begins, or on the first line
below that is not blank if that line goes on with the value. -/
def pattern? (s : List Char) : Read (Option Pattern) s :=
  if (skipSpaces s).head?.any (· != '\n') then
    (fun r => (r.map fun parts => some (.ofParts parts)).within (skipSpaces_suffix s)) <$>
      patternParts (skipSpaces s)
  else
    let line := (skipBlankLines (skipSpaces s)).2
    have lineSuffix := (skipBlankLines_suffix (skipSpaces s)).trans (skipSpaces_suffix s)
    if continuesValue line then
      let block := fun parts => some (Pattern.ofParts (.indent 0 (leadingSpaces line) :: parts))
      (fun r => (r.map block).within ((skipSpaces_suffix line).trans lineSuffix)) <$>
        patternParts (skipSpaces line)
    else .ok (.here none)
termination_by 4 * s.length + 1
decreasing_by
  · have := (skipSpaces_suffix s).length_le
    omega
  · have := ((skipSpaces_suffix _).trans lineSuffix).length_le
    omega

/-- Reads the parts of a pattern, up to the end of the last line that goes on with the value. -/
def patternParts : (s : List Char) → Read (List PatternPart) s
  | [] => .ok (.here [])
  | c :: t =>
    if c = '\n' then
      let line := (skipBlankLines t).2
      have lineSuffix := (skipBlankLines_suffix t).trans (List.suffix_cons c t)
      if continuesValue line then
        let lineStart := .indent ((skipBlankLines t).1 + 1) (leadingSpaces line)
        (fun r => (r.map (lineStart :: ·)).within ((skipSpaces_suffix line).trans lineSuffix)) <$>
          patternParts (skipSpaces line)
      else .ok (.here [])
    else if c = '{' then do
      let closed ← placeable t
      let others ← patternParts closed.rest
      return (others.map (.placeable (placeableSource (consumed t closed.rest)) :: ·)).within
        (closed.isSuffix.trans (List.suffix_cons _ _))
    else if c = '}' then .error .closingBrace
    else
      (fun r => (r.map (.text (c :: t.takeWhile isTextChar) :: ·)).within
        ((List.dropWhile_suffix _).trans (List.suffix_cons _ _))) <$>
          patternParts (t.dropWhile isTextChar)
termination_by s => 4 * s.length
decreasing_by
  · have := ((skipSpaces_suffix _).trans (skipBlankLines_suffix t)).length_le
    simp only [List.length_cons]
    omega
  · simp only [List.length_cons]
    omega
  · have := closed.length_rest_le
    simp only [List.length_cons]
    omega
  · have := (List.dropWhile_suffix (l := t) isTextChar).length_le
    simp only [List.length_cons]
    omega

end

end Read

end FluentMerge
