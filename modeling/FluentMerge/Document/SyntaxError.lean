/-!
# Why a stretch of text is no entry

The causes for which a document's text is set aside as junk, and the sentence for each. A reader
stops at the first cause it meets, so junk has exactly one.
-/

namespace FluentMerge

/-- The first thing that kept a stretch of text from being an entry. -/
inductive SyntaxError where
  /-- No entry begins with this character. -/
  | entryStart
  /-- A comment has more than three marks. -/
  | commentLevel
  /-- Something other than a space or a line end follows the marks of a comment. -/
  | commentSpace
  /-- Something follows an entry on its line. -/
  | lineEnd
  /-- A name is missing. -/
  | identifier
  /-- The character that has to stand here is missing. -/
  | character (c : Char)
  /-- A message has neither a value nor attributes. -/
  | messageContent (id : String)
  /-- A term has no value. -/
  | termValue (id : String)
  /-- An attribute has no value. -/
  | attributeValue (id : String)
  /-- A closing brace stands in text. -/
  | closingBrace
  /-- An attribute of a term is used as a value. -/
  | termAttributePlaceable
  /-- A message selects a variant. -/
  | messageSelector
  /-- An attribute of a message selects a variant. -/
  | messageAttributeSelector
  /-- A term selects a variant. -/
  | termSelector
  /-- A placeable selects a variant. -/
  | placeableSelector
  /-- Something follows an arrow on its line. -/
  | arrowLineEnd
  /-- Two variants are marked as the default. -/
  | secondDefault
  /-- A variant has no value. -/
  | variantValue
  /-- A select expression has no variant. -/
  | noVariant
  /-- A select expression has no default variant. -/
  | noDefault
  /-- The name of a called function is not in capital letters. -/
  | functionName (id : String)
  /-- No expression begins here. -/
  | inlineExpression
  /-- The part of an argument before a colon is not a name. -/
  | argumentName
  /-- An argument is named twice. -/
  | duplicateArgument (name : String)
  /-- The value of a named argument is not a literal. -/
  | argumentValue
  /-- An argument without name follows a named one. -/
  | argumentOrder
  /-- Digits are missing. -/
  | number
  /-- A string literal is not closed on its line. -/
  | unterminatedString
  /-- An escape that no rule knows. -/
  | unknownEscape
  /-- An escape for a character lacks hexadecimal digits. -/
  | unicodeEscape
  deriving DecidableEq, Repr

/-- The sentence that a user reads. -/
def SyntaxError.message : SyntaxError → String
  | .entryStart => "expected an entry start"
  | .commentLevel => "expected a comment of at most three '#'"
  | .commentSpace => "expected a space after '#'"
  | .lineEnd => "expected a line end"
  | .identifier => "expected an identifier"
  | .character c => "expected '" ++ c.toString ++ "'"
  | .messageContent id => "expected message \"" ++ id ++ "\" to have a value or attributes"
  | .termValue id => "expected term \"-" ++ id ++ "\" to have a value"
  | .attributeValue id => "expected attribute \"." ++ id ++ "\" to have a value"
  | .closingBrace => "unbalanced closing brace in text"
  | .termAttributePlaceable => "term attributes cannot be used as placeables"
  | .messageSelector => "message references cannot be used as selectors"
  | .messageAttributeSelector => "message attributes cannot be used as selectors"
  | .termSelector => "terms cannot be used as selectors"
  | .placeableSelector => "placeables cannot be used as selectors"
  | .arrowLineEnd => "expected a line end after '->'"
  | .secondDefault => "a select expression can only have one default variant"
  | .variantValue => "expected the variant to have a value"
  | .noVariant => "expected at least one variant after '->'"
  | .noDefault => "expected a default variant"
  | .functionName id => "invalid function name \"" ++ id ++ "\""
  | .inlineExpression => "expected an inline expression"
  | .argumentName => "named argument names must be identifiers"
  | .duplicateArgument name => "duplicate named argument \"" ++ name ++ "\""
  | .argumentValue => "named argument values must be literals"
  | .argumentOrder => "positional arguments must come before named ones"
  | .number => "expected a number"
  | .unterminatedString => "unterminated string literal"
  | .unknownEscape => "unknown escape sequence"
  | .unicodeEscape => "invalid unicode escape sequence"

end FluentMerge
