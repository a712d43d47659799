import FluentMerge.Merge.Lookup
import FluentMerge.Text.Display

/-!
# Auditing a merge

Tells what a merge of a document would drop and what would keep it from being merged, entry by entry
and without stopping.
-/

namespace FluentMerge

/-- A message, or one of its attributes. -/
structure Place where
  message : String
  attribute? : Option String
  deriving DecidableEq, Repr

/-- The name of a place: that of the message, and that of the attribute after a point. -/
def Place.name (p : Place) : String :=
  match p.attribute? with
  | none => p.message
  | some a => p.message ++ "." ++ a

/-- Something that a merge would leave out, or stop at. -/
inductive Issue where
  /-- A pattern is not one simple text, so it has no translation. -/
  | unsupportedPattern (place : Place)
  /-- The text that the catalog is asked for has a line end in it. -/
  | multilineKey (place : Place) (key : String)
  /-- An attribute has no translation. -/
  | untranslatedAttribute (place : Place)
  /-- Neither a message nor any of its attributes has a translation. -/
  | untranslatedMessage (id : String)
  /-- Terms are left out. -/
  | termSkipped (id : String)
  /-- Junk stops the merge. -/
  | junk (start : Option Nat) (detail : String)
  /-- A comment on the document stops the merge. -/
  | documentComment
  deriving DecidableEq, Repr

namespace Issue

/-- The entry that an issue is about. -/
def entryId : Issue → String
  | .unsupportedPattern place => place.name
  | .multilineKey place _ => place.name
  | .untranslatedAttribute place => place.name
  | .untranslatedMessage id => id
  | .termSkipped id => "-" ++ id
  | .junk start _ => (start.map toString).getD ""
  | .documentComment => ""

/-- The kind of an issue, as tools ask for it. -/
def code : Issue → String
  | .unsupportedPattern _ => "UNSUPPORTED_PATTERN"
  | .multilineKey _ _ => "MULTILINE_KEY"
  | .untranslatedAttribute _ => "UNTRANSLATED_ATTRIBUTE"
  | .untranslatedMessage _ => "UNTRANSLATED_MESSAGE"
  | .termSkipped _ => "TERM_SKIPPED"
  | .junk _ _ => "JUNK"
  | .documentComment => "UNSUPPORTED_ENTRY"

/-- The sentence that a user reads. -/
def message : Issue → String
  | .unsupportedPattern _ => "Value has placeables or several elements and cannot be looked up"
  | .multilineKey _ key =>
    "Lookup key keeps raw newlines: " ++ String.ofList (Text.display key.toList)
  | .untranslatedAttribute _ => "Attribute has no translation and will be omitted"
  | .untranslatedMessage _ => "Message has no translation and will be dropped"
  | .termSkipped _ => "Terms are not migrated"
  | .junk _ detail => "Unparseable Fluent content aborts the merge: " ++ detail
  | .documentComment => "Resource comments (###) abort the merge"

end Issue

/-- What is wrong with a pattern, whatever the catalog holds. A pattern without elements is empty
and nothing is wrong with it. -/
def Pattern.issues (p : Pattern) (place : Place) : List Issue :=
  match p.simpleText? with
  | none => if p.elements = [] then [] else [.unsupportedPattern place]
  | some text =>
    if 1 < text.toList.count '\n' then [.multilineKey place (lookupKey text)] else []

/-- What is wrong with an attribute of a message. -/
def Attribute.issues (a : Attribute) (t : Translations) (message : String) : List Issue :=
  let place : Place := ⟨message, some a.id⟩
  a.value.issues place ++
    if t.ofPattern (some a.value) = "" then [.untranslatedAttribute place] else []

/-- What is wrong with a message. -/
def Message.issues (m : Message) (t : Translations) : List Issue :=
  (m.value.map (·.issues ⟨m.id, none⟩)).getD [] ++
    m.attributes.flatMap (·.issues t m.id) ++
    if t.ofPattern m.value = "" ∧ m.attributes.all (fun a => t.ofPattern (some a.value) = "") then
      [.untranslatedMessage m.id]
    else []

/-- What is wrong with an entry. -/
def Entry.issues (e : Entry) (t : Translations) : List Issue :=
  match e with
  | .message m => m.issues t
  | .term r => [.termSkipped r.id]
  | .comment .document _ => [.documentComment]
  | .comment _ _ => []
  | .junk j => [.junk (j.span.map Span.start) (j.annotations.headD "")]

/-- What a merge of these entries would leave out or stop at. -/
def auditEntries (t : Translations) (entries : List Entry) : List Issue :=
  entries.flatMap (·.issues t)

/-- What a merge of a document with a catalog would leave out or stop at. -/
def Document.audit (d : Document) (c : Catalog) : List Issue :=
  auditEntries c.defaultTranslations d.entries

end FluentMerge
