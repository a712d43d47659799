import FluentMerge.Merge.Lookup
import FluentMerge.Merge.Separator

/-!
# Merging

Writes a document with its texts translated. A message keeps its name, its comment and those of its
attributes that have a translation; a message of which nothing is translated is dropped, and so are
terms and comments. What separates the entries stays. A document with a comment on itself or with
junk is not merged at all.
-/

namespace FluentMerge

/-- The entry for which a document is not merged. -/
structure UnsupportedEntry where
  kind : EntryKind
  span : Option Span
  deriving DecidableEq, Repr

/-- The sentence that a user reads. -/
def UnsupportedEntry.message (u : UnsupportedEntry) : String :=
  "unhandled Fluent type " ++ u.kind.name ++
    match u.span with
    | some s => " at bytes " ++ toString s.start ++ ".." ++ toString s.stop
    | none => ""

/-- The lines of a comment with their marks. -/
def Comment.markedLines (c : Comment) : List String :=
  (c.content.toList.splitOn '\n').map fun line =>
    if line = [] then "#" else "# " ++ String.ofList line

/-- The line of an attribute, if it has a translation. -/
def Attribute.translatedLine? (a : Attribute) (t : Translations) : Option String :=
  let value := t.ofPattern (some a.value)
  if value = "" then none else some ("  ." ++ a.id ++ " = " ++ value)

namespace Message

/-- The lines of the attributes that have a translation. -/
def attributeLines (m : Message) (t : Translations) : List String :=
  m.attributes.filterMap (·.translatedLine? t)

/-- The message with its texts translated. It is empty if there is no translation of any. -/
def translated (m : Message) (t : Translations) : String :=
  let value := t.ofPattern m.value
  let attributes := m.attributeLines t
  if value = "" ∧ attributes = [] then ""
  else "\n".intercalate ((m.comment.map Comment.markedLines).getD [] ++
    (m.id ++ " = " ++ value) :: attributes)

end Message

/-- The entry with its texts translated, empty if it is dropped. -/
def Entry.translated (e : Entry) (t : Translations) : Except UnsupportedEntry String :=
  match e with
  | .message m => .ok (m.translated t)
  | .term _ => .ok ""
  | .comment .entry _ => .ok ""
  | .comment .group _ => .ok ""
  | .comment .document _ => .error ⟨e.kind, e.span⟩
  | .junk _ => .error ⟨e.kind, e.span⟩

/-- The entries with their texts translated, one after the other, or the first that cannot be
merged. -/
def mergeEntries (t : Translations) : List Entry → Except UnsupportedEntry String
  | [] => .ok ""
  | [e] => e.translated t
  | e :: f :: rest => do
    let first ← e.translated t
    let others ← mergeEntries t (f :: rest)
    return first ++ separator e.span f.span ++ others

/-- The document with the translations of a catalog. Only records without context count. -/
def Document.merge (d : Document) (c : Catalog) : Except UnsupportedEntry String :=
  mergeEntries c.defaultTranslations d.entries

end FluentMerge
