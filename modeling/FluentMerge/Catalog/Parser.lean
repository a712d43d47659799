import FluentMerge.Catalog.Line
import FluentMerge.Charset.Declaration
import FluentMerge.Text.Lines

/-!
# Reading a catalog

`Catalog.parse` goes through the lines of a text with the record that is being read and the catalog
of those before it. A record is complete when a blank line follows its `msgid`, when a comment, a
context or a `msgid` follows its translations, and at the end of the text. The first line that is
wrong, by itself or where it stands, is reported.
-/

namespace FluentMerge

/-! ## The record that is being read -/

namespace Record

/-- The translations with that of `form` changed by `f`, and empty ones before it if there are too
few. -/
def changeForm (r : Record) (form : Nat) (f : String → String) : Record :=
  let forms := r.msgstr ++ List.replicate (form + 1 - r.msgstr.length) ""
  { r with msgstr := forms.modify form f }

/-- The record with a field set. -/
def setField (r : Record) (value : String) : Field → Record
  | .msgctxt => { r with msgctxt := some value }
  | .msgid => { r with msgid := value }
  | .msgidPlural => { r with msgidPlural := some value }
  | .msgstr form => r.changeForm form fun _ => value

/-- The record with more text in a field. -/
def appendField (r : Record) (value : String) : Field → Record
  | .msgctxt => { r with msgctxt := some (r.msgctxt.getD "" ++ value) }
  | .msgid => { r with msgid := r.msgid ++ value }
  | .msgidPlural => { r with msgidPlural := some (r.msgidPlural.getD "" ++ value) }
  | .msgstr form => r.changeForm form (· ++ value)

/-- Whether the record is the header of its catalog: the one of the empty text. -/
def isHeader (r : Record) : Bool := r.msgid == "" && r.msgctxt == none

end Record

/-- A record that is being read. -/
structure Draft where
  record : Record
  /-- Whether its text has come. -/
  hasMsgid : Bool
  /-- Whether a translation of it has come. -/
  hasMsgstr : Bool
  /-- The field that a string on the next line goes on with. -/
  openField : Option Field
  deriving DecidableEq, Repr

/-- A record of which nothing has come yet. -/
def Draft.blank : Draft := ⟨.blank, false, false, none⟩

/-! ## The header -/

namespace Catalog

/-- The fields in the translation of a header: on each line a name, a colon and a value. -/
def headerFields (text : List Char) : List (String × String) :=
  (Text.lines text).filterMap fun line =>
    match line.dropWhile (· != ':') with
    | [] => none
    | _ :: value =>
      some (String.ofList (Text.trim (line.takeWhile (· != ':'))), String.ofList (Text.trim value))

/-- The catalog with more header fields, later ones replacing earlier ones, and the charset that its
content type then declares. -/
def addHeader (c : Catalog) (text : String) : Catalog :=
  let headers := (headerFields text.toList).foldl (fun h f => h.insert f.1 f.2) c.headers
  let declared := (headers["Content-Type"]?).bind fun type => Charset.declared? type.toList
  { c with headers, charset := (declared.map String.ofList).getD c.charset }

/-- The catalog with a record that has been read. -/
def addRecord (c : Catalog) (r : Record) : Catalog :=
  (if r.isHeader then c.addHeader r.localized else c).insert r

end Catalog

/-! ## Line by line -/

/-- A catalog of which some lines have been read. -/
structure PartialCatalog where
  catalog : Catalog
  draft : Draft

namespace PartialCatalog

/-- The state before the first line. -/
def start : PartialCatalog := ⟨.empty, .blank⟩

/-- Closes the record that is being read. -/
def flush (p : PartialCatalog) : PartialCatalog :=
  ⟨p.catalog.addRecord p.draft.record, .blank⟩

/-- Closes the record that is being read if `complete`. -/
def flushIf (p : PartialCatalog) (complete : Bool) : PartialCatalog :=
  if complete then p.flush else p

/-- Begins a field of the record that is being read. -/
def begin (p : PartialCatalog) (field : Field) (value : String) : PartialCatalog :=
  { p with draft :=
    { p.draft with
      record := p.draft.record.setField value field
      openField := some field } }

/-- What a line does. -/
def step (p : PartialCatalog) : CatalogLine → Except CatalogFault PartialCatalog
  | .blank => .ok (p.flushIf p.draft.hasMsgid)
  | .obsolete => .ok p
  | .comment kind text =>
    let q := p.flushIf p.draft.hasMsgstr
    .ok { q with draft :=
      { q.draft with
        record := { q.draft.record with comments := q.draft.record.comments.add text kind } } }
  | .continuation value =>
    match p.draft.openField with
    | none => .error .orphanString
    | some field =>
      .ok { p with draft := { p.draft with record := p.draft.record.appendField value field } }
  | .field (.msgstr form) value =>
    if p.draft.hasMsgid then
      let q := p.begin (.msgstr form) value
      .ok { q with draft := { q.draft with hasMsgstr := true } }
    else .error .missingMsgid
  | .field .msgidPlural value => .ok (p.begin .msgidPlural value)
  | .field .msgctxt value => .ok ((p.flushIf p.draft.hasMsgstr).begin .msgctxt value)
  | .field .msgid value =>
    let q := (p.flushIf p.draft.hasMsgstr).begin .msgid value
    .ok { q with draft := { q.draft with hasMsgid := true } }

/-- Reads one line. -/
def readLine (p : PartialCatalog) (line : List Char) : Except CatalogFault PartialCatalog := do
  p.step (← CatalogLine.ofText line)

/-- Reads lines, of which the first is number `n`. -/
def readLines (p : PartialCatalog) (n : Nat) : List (List Char) → Except CatalogError PartialCatalog
  | [] => .ok p
  | line :: rest =>
    match p.readLine line with
    | .ok q => q.readLines (n + 1) rest
    | .error fault => .error ⟨n, fault⟩

/-- The catalog when all lines are read. Without a declaration its charset is UTF-8. -/
def finish (p : PartialCatalog) : Catalog :=
  let c := (p.flushIf p.draft.hasMsgid).catalog
  { c with charset := if c.charset = "" then "utf-8" else c.charset }

end PartialCatalog

/-- The catalog that a text holds, or its first fault. -/
def Catalog.parse (text : String) : Except CatalogError Catalog :=
  PartialCatalog.finish <$> PartialCatalog.start.readLines 1 (Text.lines text.toList)

end FluentMerge
