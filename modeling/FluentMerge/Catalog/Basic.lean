import Std.Data.ExtTreeMap

/-!
# Catalogs

The data that reading a gettext catalog gives: the records by context and `msgid`, the fields of its
header, and the charset that the header declares.

Two catalogs are equal when they hold the same records under the same names, in whatever order these
were inserted.
-/

namespace FluentMerge

/-- The comments of a record, by their kinds. -/
structure Notes where
  translator : List String
  extracted : List String
  reference : List String
  flag : List String
  previous : List String
  deriving DecidableEq, Repr

namespace Notes

/-- No comment of any kind. -/
def empty : Notes := ⟨[], [], [], [], []⟩

/-- Whether there is no comment of any kind. -/
def isEmpty (n : Notes) : Bool := n == .empty

end Notes

/-- What a comment line of a catalog is for, told by the character after its `#`. -/
inductive NoteKind where
  | translator
  | extracted
  | reference
  | flag
  | previous
  deriving DecidableEq, Repr

/-- The comments and one more of this kind. -/
def Notes.add (n : Notes) (text : String) : NoteKind → Notes
  | .translator => { n with translator := n.translator ++ [text] }
  | .extracted => { n with extracted := n.extracted ++ [text] }
  | .reference => { n with reference := n.reference ++ [text] }
  | .flag => { n with flag := n.flag ++ [text] }
  | .previous => { n with previous := n.previous ++ [text] }

/-- A text and its translations. -/
structure Record where
  /-- The context that tells equal texts apart. -/
  msgctxt : Option String
  /-- The text. -/
  msgid : String
  /-- The text for more than one. -/
  msgidPlural : Option String
  /-- The translations, one for each form that number takes. -/
  msgstr : List String
  comments : Notes
  deriving DecidableEq, Repr

namespace Record

/-- The record of nothing yet. -/
def blank : Record := ⟨none, "", none, [], .empty⟩

/-- The record of one text with one translation. -/
def simple (msgid msgstr : String) : Record := { blank with msgid, msgstr := [msgstr] }

/-- The first translation, empty if there is none. -/
def localized (r : Record) : String := r.msgstr.headD ""

/-- The context, empty if there is none. -/
def context (r : Record) : String := r.msgctxt.getD ""

end Record

/-- The records of one context by their texts. -/
abbrev Translations := Std.ExtTreeMap String Record

/-- A gettext catalog. -/
structure Catalog where
  charset : String
  headers : Std.ExtTreeMap String String
  translations : Std.ExtTreeMap String Translations
  deriving DecidableEq

namespace Catalog

/-- The catalog without records and without declarations. -/
def empty : Catalog := ⟨"", ∅, ∅⟩

/-- The records of a context, if it has any. -/
def context? (c : Catalog) (name : String) : Option Translations := c.translations[name]?

/-- The records without context, which is where a merge looks its texts up. -/
def defaultTranslations (c : Catalog) : Translations := (c.context? "").getD ∅

/-- The catalog with one more record, which replaces that of the same context and text. -/
def insert (c : Catalog) (r : Record) : Catalog :=
  { c with
    translations :=
      c.translations.insert r.context (((c.context? r.context).getD ∅).insert r.msgid r) }

/-- Every record of the catalog, by context and then by text. -/
def records (c : Catalog) : List Record :=
  c.translations.toList.flatMap fun context => context.2.toList.map Prod.snd

/-- The number of records of each context. -/
def counts (c : Catalog) : List (String × Nat) :=
  c.translations.toList.map fun context => (context.1, context.2.size)

/-- What is found under a context and a text after an insertion: the new record at its own place,
and elsewhere what was there. -/
theorem getElem?_insert (c : Catalog) (r : Record) (context msgid : String) :
    ((c.insert r).context? context).bind (·[msgid]?) =
      if r.context = context ∧ r.msgid = msgid then some r
      else (c.context? context).bind (·[msgid]?) := by
  simp only [insert, context?, Std.ExtTreeMap.getElem?_insert, Std.LawfulEqCmp.compare_eq_iff_eq]
  by_cases hc : r.context = context
  · subst hc
    cases h : c.translations[r.context]? <;>
      by_cases hm : r.msgid = msgid <;> simp [hm, Std.ExtTreeMap.getElem?_insert]
  · simp [hc]

end Catalog

end FluentMerge
