import FluentMerge.Catalog.Basic
import FluentMerge.Catalog.Quoted

/-!
# Lines of a catalog

What one line of a gettext catalog says, whatever the lines around it: it is blank, it belongs to an
entry that is no longer in use, it is a comment, it goes on with the string above it, or it begins a
field of a record.
-/

namespace FluentMerge

/-- A field of a record. There are at most 256 translations. -/
inductive Field where
  | msgctxt
  | msgid
  | msgidPlural
  | msgstr (form : Fin 256)
  deriving DecidableEq, Repr

/-- A line of a catalog. -/
inductive CatalogLine where
  | blank
  | obsolete
  | comment (kind : NoteKind) (text : String)
  | continuation (value : String)
  | field (field : Field) (value : String)
  deriving DecidableEq, Repr

namespace CatalogLine

/-- The kind of a comment line and its text, from what follows its `#`. -/
def ofComment (s : List Char) : CatalogLine :=
  let note (kind : NoteKind) (t : List Char) := comment kind (String.ofList (Text.trim t))
  match s with
  | '.' :: t => note .extracted t
  | ':' :: t => note .reference t
  | ',' :: t => note .flag t
  | '|' :: t => note .previous t
  | s => note .translator s

/-- The number that decimal digits stand for. -/
def digitsValue (s : List Char) : Nat := s.foldl (fun n c => 10 * n + (c.toNat - '0'.toNat)) 0

/-- The number of a translation: digits, a plus sign before them allowed. -/
def pluralForm? (s : List Char) : Option (Fin 256) :=
  let digits := if s.head? = some '+' then s.tail else s
  if digits ≠ [] ∧ digits.all Char.isDigit then
    if h : digitsValue digits < 256 then some ⟨digitsValue digits, h⟩ else none
  else none

/-- What stands between `msgstr[` and `]`, if the keyword is of this form. -/
def pluralIndex? (keyword : List Char) : Option (List Char) :=
  if "msgstr[".toList.isPrefixOf keyword then
    let rest := keyword.drop 7
    if rest.getLast? = some ']' then some rest.dropLast else none
  else none

/-- The field that a keyword begins. -/
def keywordField (keyword : List Char) : Except CatalogFault Field :=
  if keyword = "msgctxt".toList then .ok .msgctxt
  else if keyword = "msgid".toList then .ok .msgid
  else if keyword = "msgid_plural".toList then .ok .msgidPlural
  else if keyword = "msgstr".toList then .ok (.msgstr 0)
  else match pluralIndex? keyword with
    | none => .error (.unknownKeyword (String.ofList keyword))
    | some index =>
      match pluralForm? index with
      | some form => .ok (.msgstr form)
      | none => .error (.invalidPluralIndex (String.ofList index))

/-- Reads a line that begins with a keyword. A wrong keyword is found before a wrong string. -/
def ofKeyword (s : List Char) : Except CatalogFault CatalogLine := do
  let field ← keywordField (s.takeWhile fun c => !Text.isWhite c)
  let value ← Quoted.unquote (s.dropWhile fun c => !Text.isWhite c)
  return .field field value

/-- Reads a line. -/
def ofText (s : List Char) : Except CatalogFault CatalogLine :=
  match Text.trim s with
  | [] => .ok .blank
  | '#' :: '~' :: _ => .ok .obsolete
  | '#' :: t => .ok (ofComment t)
  | '"' :: t => .continuation <$> Quoted.unquote ('"' :: t)
  | s => ofKeyword s

end CatalogLine

end FluentMerge
