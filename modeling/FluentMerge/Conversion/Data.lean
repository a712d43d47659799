import FluentMerge.Conversion.Basic
import FluentMerge.Json.Value

/-!
# Conversions as data

The JSON forms of a request and of an issue. The files of a request have short names too.
-/

namespace FluentMerge

/-- A request, its files under their long names. -/
def Request.toJson (r : Request) : Json :=
  .object [("catalog_path", .string r.catalogPath), ("fluent_path", .string r.documentPath)]

/-- A request; each file has to be there once, under either name. -/
def Request.ofJson? (j : Json) : Option Request := do
  let catalogPath ← j.requiredAs? ["catalog_path", "po"] Json.string?
  let documentPath ← j.requiredAs? ["fluent_path", "ftl"] Json.string?
  return ⟨catalogPath, documentPath⟩

/-- An issue, as tools read it. -/
def Issue.toJson (i : Issue) : Json :=
  .object [("entry_id", .string i.entryId), ("code", .string i.code),
    ("message", .string i.message)]

end FluentMerge
