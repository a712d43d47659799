import FluentMerge.Document.Basic
import FluentMerge.Json.Value

/-!
# Documents as data

The JSON form of a document and of all its parts. Writing gives every member; in reading the members
that a part can do without may be left out. A part is read from an object. Where other readers of
this format take an array of the fields in their order as well, these refuse it.
-/

namespace FluentMerge

/-! ## Writing -/

/-- A place. -/
def Span.toJson (s : Span) : Json :=
  .object [("start", .natural s.start), ("end", .natural s.stop)]

/-- An element of a pattern, with the name of its kind. -/
def PatternElement.toJson : PatternElement → Json
  | .text value => .object [("type", .string "Text"), ("value", .string value)]
  | .placeable source => .object [("type", .string "Placeable"), ("value", .string source)]

/-- A pattern. -/
def Pattern.toJson (p : Pattern) : Json :=
  .object [("elements", .ofList PatternElement.toJson p.elements)]

/-- An attribute. -/
def Attribute.toJson (a : Attribute) : Json :=
  .object [("id", .string a.id), ("value", a.value.toJson)]

/-- The members of a comment. -/
def Comment.members (c : Comment) : List (String × Json) :=
  [("content", .string c.content), ("span", .ofOption Span.toJson c.span)]

/-- A comment, without its level. -/
def Comment.toJson (c : Comment) : Json := .object c.members

/-- The members of a message. -/
def Message.members (m : Message) : List (String × Json) :=
  [("id", .string m.id), ("value", .ofOption Pattern.toJson m.value),
    ("attributes", .ofList Attribute.toJson m.attributes),
    ("comment", .ofOption Comment.toJson m.comment), ("span", .ofOption Span.toJson m.span)]

/-- The members of a term. -/
def Term.members (t : Term) : List (String × Json) :=
  [("id", .string t.id), ("value", t.value.toJson),
    ("attributes", .ofList Attribute.toJson t.attributes),
    ("comment", .ofOption Comment.toJson t.comment), ("span", .ofOption Span.toJson t.span)]

/-- The members of junk. -/
def Junk.members (j : Junk) : List (String × Json) :=
  [("content", .string j.content), ("annotations", .ofList Json.string j.annotations),
    ("span", .ofOption Span.toJson j.span)]

/-- The members of an entry besides the name of its kind. -/
def Entry.members : Entry → List (String × Json)
  | .message m => m.members
  | .term t => t.members
  | .comment _ c => c.members
  | .junk j => j.members

/-- An entry, with the name of its kind. -/
def Entry.toJson (e : Entry) : Json := .object (("type", .string e.kind.name) :: e.members)

/-- A document. -/
def Document.toJson (d : Document) : Json :=
  .object [("body", .ofList Entry.toJson d.entries)]

/-! ## Reading -/

/-- A place; both ends have to be there. As with every part, an array of the two is refused. -/
def Span.ofJson? (j : Json) : Option Span := do
  let start ← j.required? "start" Json.offset?
  let stop ← j.required? "end" Json.offset?
  return ⟨start, stop⟩

/-- An element of a pattern, by the name of its kind. -/
def PatternElement.ofJson? (j : Json) : Option PatternElement := do
  let kind ← j.required? "type" Json.string?
  let value ← j.required? "value" Json.string?
  if kind = "Text" then return .text value
  else if kind = "Placeable" then return .placeable value
  else none

/-- A pattern. -/
def Pattern.ofJson? (j : Json) : Option Pattern := do
  let elements ← j.required? "elements" (Json.listOf? PatternElement.ofJson?)
  return ⟨elements⟩

/-- An attribute. -/
def Attribute.ofJson? (j : Json) : Option Attribute := do
  let id ← j.required? "id" Json.string?
  let value ← j.required? "value" Pattern.ofJson?
  return ⟨id, value⟩

/-- A comment; its place may be left out. -/
def Comment.ofJson? (j : Json) : Option Comment := do
  let content ← j.required? "content" Json.string?
  let span ← j.optional? "span" Span.ofJson?
  return ⟨content, span⟩

/-- A message; only its name has to be there. An array of its fields is refused. -/
def Message.ofJson? (j : Json) : Option Message := do
  let id ← j.required? "id" Json.string?
  let value ← j.optional? "value" Pattern.ofJson?
  let attributes ← j.orElse? "attributes" [] (Json.listOf? Attribute.ofJson?)
  let comment ← j.optional? "comment" Comment.ofJson?
  let span ← j.optional? "span" Span.ofJson?
  return ⟨id, value, attributes, comment, span⟩

/-- A term; its name and its value have to be there. -/
def Term.ofJson? (j : Json) : Option Term := do
  let id ← j.required? "id" Json.string?
  let value ← j.required? "value" Pattern.ofJson?
  let attributes ← j.orElse? "attributes" [] (Json.listOf? Attribute.ofJson?)
  let comment ← j.optional? "comment" Comment.ofJson?
  let span ← j.optional? "span" Span.ofJson?
  return ⟨id, value, attributes, comment, span⟩

/-- Junk; only its text has to be there. -/
def Junk.ofJson? (j : Json) : Option Junk := do
  let content ← j.required? "content" Json.string?
  let annotations ← j.orElse? "annotations" [] (Json.listOf? Json.string?)
  let span ← j.optional? "span" Span.ofJson?
  return ⟨content, annotations, span⟩

/-- An entry, by the name of its kind. -/
def Entry.ofJson? (j : Json) : Option Entry := do
  match ← EntryKind.ofName? (← j.required? "type" Json.string?) with
  | .message => return .message (← Message.ofJson? j)
  | .term => return .term (← Term.ofJson? j)
  | .comment level => return .comment level (← Comment.ofJson? j)
  | .junk => return .junk (← Junk.ofJson? j)

/-- A document. -/
def Document.ofJson? (j : Json) : Option Document := do
  let entries ← j.required? "body" (Json.listOf? Entry.ofJson?)
  return ⟨entries⟩

end FluentMerge
