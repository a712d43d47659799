import FluentMerge.Catalog.Basic
import FluentMerge.Json.Value

/-!
# Catalogs as data

The JSON form of a catalog. Headers, contexts and records are members of objects under their names,
and writing gives them in order. Catalogs, records and comments are read from objects: where other
readers of this format take an array of the fields in their order as well, these refuse it.
-/

namespace FluentMerge

/-! ## Writing -/

/-- The comments of a record, by their kinds. -/
def Notes.toJson (n : Notes) : Json :=
  .object [("translator", .ofList Json.string n.translator),
    ("extracted", .ofList Json.string n.extracted),
    ("reference", .ofList Json.string n.reference), ("flag", .ofList Json.string n.flag),
    ("previous", .ofList Json.string n.previous)]

/-- A record, its context and plural null where it has none. -/
def Record.toJson (r : Record) : Json :=
  .object [("msgctxt", .ofOption Json.string r.msgctxt), ("msgid", .string r.msgid),
    ("msgid_plural", .ofOption Json.string r.msgidPlural), ("msgstr", .ofList Json.string r.msgstr),
    ("comments", r.comments.toJson)]

/-- An object with a member for each entry of a table. -/
def Json.ofTable {α : Type} (write : α → Json) (t : Std.ExtTreeMap String α) : Json :=
  .object (t.toList.map fun e => (e.1, write e.2))

/-- The records of a context. -/
def Translations.toJson (t : Translations) : Json := .ofTable Record.toJson t

/-- A catalog, with an object of objects for its records. -/
def Catalog.toJson (c : Catalog) : Json :=
  .object [("charset", .string c.charset), ("headers", .ofTable Json.string c.headers),
    ("translations", .ofTable Translations.toJson c.translations)]

/-! ## Reading -/

/-- Comments; a kind that is left out has none. -/
def Notes.ofJson? (j : Json) : Option Notes := do
  let texts := Json.listOf? Json.string?
  guard j.isObject
  let translator ← j.orElse? "translator" [] texts
  let extracted ← j.orElse? "extracted" [] texts
  let reference ← j.orElse? "reference" [] texts
  let flag ← j.orElse? "flag" [] texts
  let previous ← j.orElse? "previous" [] texts
  return ⟨translator, extracted, reference, flag, previous⟩

/-- A record; only its text has to be there. An array of its fields is refused. -/
def Record.ofJson? (j : Json) : Option Record := do
  let msgctxt ← j.optional? "msgctxt" Json.string?
  let msgid ← j.required? "msgid" Json.string?
  let msgidPlural ← j.optional? "msgid_plural" Json.string?
  let msgstr ← j.orElse? "msgstr" [] (Json.listOf? Json.string?)
  let comments ← j.orElse? "comments" .empty Notes.ofJson?
  return ⟨msgctxt, msgid, msgidPlural, msgstr, comments⟩

/-- A table with an entry for each member of an object. Of two members of one name the later
counts. -/
def Json.tableOf? {α : Type} (read? : Json → Option α) (j : Json) :
    Option (Std.ExtTreeMap String α) := do
  let members ← Json.membersOf? read? j
  return members.foldl (fun t m => t.insert m.1 m.2) ∅

/-- The records of a context. -/
def Translations.ofJson? (j : Json) : Option Translations := Json.tableOf? Record.ofJson? j

/-- A catalog; whatever is left out is empty. -/
def Catalog.ofJson? (j : Json) : Option Catalog := do
  guard j.isObject
  let charset ← j.orElse? "charset" "" Json.string?
  let headers ← j.orElse? "headers" ∅ (Json.tableOf? Json.string?)
  let translations ← j.orElse? "translations" ∅ (Json.tableOf? Translations.ofJson?)
  return ⟨charset, headers, translations⟩

end FluentMerge
