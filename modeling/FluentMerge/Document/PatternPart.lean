import FluentMerge.Document.Basic

/-!
# Patterns from their parts

A pattern is read as a list of parts: text within a line, placeables, and the line ends and indents
between lines. `Pattern.ofParts` makes its value of them: the indent that all its lines share is
taken away, neighbouring texts become one, and blanks at the end are dropped.
-/

namespace FluentMerge

/-- A part of a pattern as it stands in a document. -/
inductive PatternPart where
  /-- Text within a line. -/
  | text (value : List Char)
  /-- A placeable, by the source between its braces. -/
  | placeable (source : List Char)
  /-- The beginning of a line: the line ends before it and the spaces it is indented by. -/
  | indent (lineEnds spaces : Nat)
  deriving DecidableEq, Repr

namespace PatternPart

/-- The indent of a part that begins a line. -/
def spaces? : PatternPart → Option Nat
  | .indent _ spaces => some spaces
  | _ => none

/-- The least indent of the lines that begin in a pattern, and zero if none does. -/
def commonIndent (parts : List PatternPart) : Nat :=
  ((parts.filterMap spaces?).min?).getD 0

/-- The part as an element, with `common` spaces less at the beginning of a line. -/
def element (common : Nat) : PatternPart → PatternElement
  | .text value => .text (String.ofList value)
  | .placeable source => .placeable (String.ofList source)
  | .indent lineEnds spaces =>
    .text (String.ofList (List.replicate lineEnds '\n' ++ List.replicate (spaces - common) ' '))

end PatternPart

namespace Pattern

/-- Puts an element before others: text joins the text it comes before, and empty text adds nothing.
-/
def joinBefore : PatternElement → List PatternElement → List PatternElement
  | .text a, .text b :: rest => .text (a ++ b) :: rest
  | .text a, rest => if a = "" then rest else .text a :: rest
  | e, rest => e :: rest

/-- The text without the spaces and line ends that it ends with. -/
def dropTrailingBlank (s : String) : String :=
  String.ofList (s.toList.reverse.dropWhile fun c => c == ' ' || c == '\n').reverse

/-- Drops the blanks that a pattern ends with, and its last text if nothing else is in it. -/
def dropLastBlank : List PatternElement → List PatternElement
  | [] => []
  | [.text a] => if dropTrailingBlank a = "" then [] else [.text (dropTrailingBlank a)]
  | e :: rest => e :: dropLastBlank rest

/-- The value that the parts of a pattern stand for. -/
def ofParts (parts : List PatternPart) : Pattern :=
  let common := PatternPart.commonIndent parts
  ⟨dropLastBlank ((parts.map (PatternPart.element common)).foldr joinBefore [])⟩

end Pattern

end FluentMerge
