import FluentMerge.Proofs.Document.Names
import FluentMerge.Proofs.Text.Trimming

/-!
# Expressions as trees

What may stand between the braces of a placeable, as trees (`Expression`), how a tree is written
(`Expression.print`), and the rules that the expressions of a document obey (`Expression.Obeys`).

A tree is well formed in its leaves: a name is a name and a literal has only the characters it may
have. The rules are about how expressions may stand in one another, so a tree can break them, and it
is written all the same.
-/

namespace FluentMerge

/-! ## Leaves -/

/-- The name of a message, a term, a variable, a function, an attribute or an argument. -/
structure Name where
  text : String
  isName : IsName text

/-- One or more digits. -/
structure Digits where
  chars : List Char
  ne_nil : chars ≠ []
  isDigit : ∀ c ∈ chars, c.isDigit = true

/-- A number: digits, a minus sign before them or none, and a point with digits after them or none.
-/
structure NumberLiteral where
  isNegative : Bool
  whole : Digits
  fraction : Option Digits

def NumberLiteral.print (n : NumberLiteral) : List Char :=
  (if n.isNegative then ['-'] else []) ++
    (n.whole.chars ++ n.fraction.elim [] fun digits => '.' :: digits.chars)

/-- The code of a character in `n` hexadecimal digits of either case. -/
structure HexCode (n : Nat) where
  chars : List Char
  length_eq : chars.length = n
  isHexDigit : ∀ c ∈ chars, Read.isHexDigit c = true

/-- A piece of a string literal: a character that stands for itself, or an escape. -/
inductive StringPiece where
  | char (c : Char) (quote : c ≠ '"') (backslash : c ≠ '\\') (lineEnd : c ≠ '\n')
  | backslash
  | quote
  | shortCode (code : HexCode 4)
  | longCode (code : HexCode 6)

def StringPiece.print : StringPiece → List Char
  | .char c _ _ _ => [c]
  | .backslash => ['\\', '\\']
  | .quote => ['\\', '"']
  | .shortCode code => '\\' :: 'u' :: code.chars
  | .longCode code => '\\' :: 'U' :: code.chars

/-- A text in the value of a variant: on one line, without braces, and with no white space at either
end. -/
structure PlainText where
  chars : List Char
  isTextChar : ∀ c ∈ chars, FluentMerge.isTextChar c = true
  isSolid : Text.IsSolid chars

/-- The key of a variant. -/
inductive VariantKey where
  | number (n : NumberLiteral)
  | name (id : Name)

def VariantKey.print : VariantKey → List Char
  | .number n => n.print
  | .name id => id.text.toList

/-! ## Trees -/

mutual

/-- An expression that stands within a line, but for what is nested in it. -/
inductive InlineExpression where
  | string (pieces : List StringPiece)
  | number (n : NumberLiteral)
  | variableReference (id : Name)
  | messageReference (id : Name) (access : Option Name)
  | termReference (id : Name) (access : Option Name)
  | termCall (id : Name) (access : Option Name) (args : List Argument)
  | functionCall (id : Name) (args : List Argument)
  | placeable (e : Expression)

/-- An argument of a call. -/
inductive Argument where
  | positional (value : InlineExpression)
  | named (id : Name) (value : InlineExpression)

/-- What stands between the braces of a placeable. -/
inductive Expression where
  | inline (e : InlineExpression)
  | select (selector : InlineExpression) (variants : List Variant)

/-- A variant of a select expression, whose value has one part or more. -/
inductive Variant where
  | mk (isDefault : Bool) (key : VariantKey) (first : ValuePart) (others : List ValuePart)

/-- A part of the value of a variant. -/
inductive ValuePart where
  | text (t : PlainText)
  | placeable (e : Expression)

end

/-! ## Written trees -/

/-- By how many spaces the lines of a select expression are indented, at each depth: the lines of
its variants, and the line of the brace behind it. -/
structure Indents where
  variant : Nat → Nat
  brace : Nat → Nat

/-- The end of a line, and the spaces that the next one is indented by. -/
def newLine (spaces : Nat) : List Char := '\n' :: List.replicate spaces ' '

/-- The attribute of a reference, after a point. -/
def printAccess (access : Option Name) : List Char :=
  access.elim [] fun id => '.' :: id.text.toList

/-- What stands behind an expression up to and with the closing brace. Behind a select expression
the brace has its own line. -/
def Expression.closing (w : Indents) (depth : Nat) : Expression → List Char
  | .inline _ => [' ', '}']
  | .select _ _ => newLine (w.brace depth) ++ ['}']

mutual

def InlineExpression.print (w : Indents) (depth : Nat) : InlineExpression → List Char
  | .string pieces => '"' :: (pieces.flatMap StringPiece.print ++ ['"'])
  | .number n => n.print
  | .variableReference id => '$' :: id.text.toList
  | .messageReference id access => id.text.toList ++ printAccess access
  | .termReference id access => '-' :: (id.text.toList ++ printAccess access)
  | .termCall id access args =>
    '-' :: (id.text.toList ++ (printAccess access ++
      '(' :: (printArguments w depth args ++ [')'])))
  | .functionCall id args => id.text.toList ++ '(' :: (printArguments w depth args ++ [')'])
  | .placeable e => '{' :: ' ' :: (e.print w (depth + 1) ++ e.closing w (depth + 1))

def Argument.print (w : Indents) (depth : Nat) : Argument → List Char
  | .positional value => value.print w depth
  | .named id value => id.text.toList ++ ':' :: ' ' :: value.print w depth

def printArguments (w : Indents) (depth : Nat) : List Argument → List Char
  | [] => []
  | [a] => a.print w depth
  | a :: b :: args => a.print w depth ++ ',' :: ' ' :: printArguments w depth (b :: args)

def Expression.print (w : Indents) (depth : Nat) : Expression → List Char
  | .inline e => e.print w depth
  | .select selector variants =>
    selector.print w depth ++ ' ' :: '-' :: '>' :: printVariants w depth variants

def Variant.print (w : Indents) (depth : Nat) : Variant → List Char
  | .mk isDefault key first others =>
    (if isDefault then ['*'] else []) ++
      '[' :: (key.print ++ ']' :: ' ' :: (first.print w depth ++ printParts w depth others))

def printVariants (w : Indents) (depth : Nat) : List Variant → List Char
  | [] => []
  | v :: variants =>
    newLine (w.variant depth) ++ (v.print w depth ++ printVariants w depth variants)

def ValuePart.print (w : Indents) (depth : Nat) : ValuePart → List Char
  | .text t => t.chars
  | .placeable e => '{' :: ' ' :: (e.print w (depth + 1) ++ e.closing w (depth + 1))

def printParts (w : Indents) (depth : Nat) : List ValuePart → List Char
  | [] => []
  | p :: parts => p.print w depth ++ printParts w depth parts

end

/-- A select expression as it stands behind an opening brace. -/
example :
    (Expression.select (.variableReference ⟨"n", 'n', [], rfl, rfl, by simp⟩)
      [.mk false (.name ⟨"a", 'a', [], rfl, rfl, by simp⟩) (.placeable (.inline (.string []))) [],
        .mk true (.name ⟨"b", 'b', [], rfl, rfl, by simp⟩)
          (.placeable (.inline (.string [.quote]))) []]).print ⟨fun _ => 2, fun _ => 0⟩ 0 =
    "$n ->\n  [a] \x7b \"\" \x7d\n  *[b] \x7b \"\\\"\" \x7d".toList := rfl

/-! ## Rules -/

/-- Whether a name has no small letter, as the names of functions. -/
def Name.IsUpperCase (id : Name) : Prop := ∀ c ∈ id.text.toList, c.isLower = false

namespace InlineExpression

def IsLiteral : InlineExpression → Prop
  | .string _ | .number _ => True
  | _ => False

/-- Whether an expression is an attribute of a term, which is no text. -/
def IsTermAttribute : InlineExpression → Prop
  | .termReference _ access | .termCall _ access _ => access.isSome
  | _ => False

/-- Whether an expression can select a variant. Messages and their attributes, terms and placeables
cannot. -/
def CanSelect : InlineExpression → Prop
  | .string _ | .number _ | .variableReference _ | .functionCall _ _ => True
  | .termReference _ access | .termCall _ access _ => access.isSome
  | .messageReference _ _ | .placeable _ => False

end InlineExpression

/-- The name of an argument that has one. -/
def Argument.name? : Argument → Option String
  | .positional _ => none
  | .named id _ => some id.text

/-- The rules for the arguments of a call: named arguments come last, have different names, and
their values are literals. -/
structure ArgumentRules (args : List Argument) : Prop where
  namedLast : args.Pairwise fun a b => a.name?.isSome → b.name?.isSome
  differentNames : (args.filterMap Argument.name?).Nodup
  literalValues : ∀ id value, .named id value ∈ args → value.IsLiteral

def Variant.isDefault : Variant → Bool
  | .mk isDefault _ _ _ => isDefault

mutual

/-- Whether an expression obeys the rules, with all that is nested in it. -/
def InlineExpression.Obeys : InlineExpression → Prop
  | .termCall _ _ args => ArgumentRules args ∧ ∀ a ∈ args, a.Obeys
  | .functionCall id args => id.IsUpperCase ∧ ArgumentRules args ∧ ∀ a ∈ args, a.Obeys
  | .placeable e => e.Obeys
  | .string _ | .number _ | .variableReference _ | .messageReference _ _ | .termReference _ _ => True

def Argument.Obeys : Argument → Prop
  | .positional value | .named _ value => value.Obeys

/-- Whether an expression obeys the rules, with all that is nested in it. Exactly one variant of a
select expression is the default. -/
def Expression.Obeys : Expression → Prop
  | .inline e => ¬e.IsTermAttribute ∧ e.Obeys
  | .select selector variants =>
    selector.CanSelect ∧ selector.Obeys ∧ variants.countP Variant.isDefault = 1 ∧
      ∀ v ∈ variants, v.Obeys

def Variant.Obeys : Variant → Prop
  | .mk _ _ first others => first.Obeys ∧ ∀ p ∈ others, p.Obeys

def ValuePart.Obeys : ValuePart → Prop
  | .text _ => True
  | .placeable e => e.Obeys

end

end FluentMerge
