import FluentMerge.Catalog.Parser
import FluentMerge.Document.Parser
import FluentMerge.Merge.Audit
import FluentMerge.Merge.Basic

/-!
# Sessions

A catalog and a document that are changed step by step and merged at any time. A step that fails
changes nothing.
-/

namespace FluentMerge

/-- A catalog and a document. -/
structure Session where
  catalog : Catalog
  document : Document

namespace Session

/-- The session with an empty catalog and an empty document. -/
def empty : Session := ⟨.empty, ⟨[]⟩⟩

/-- Puts a record into the catalog. -/
def insert (s : Session) (r : Record) : Session := { s with catalog := s.catalog.insert r }

/-- Replaces the catalog by the one in a text. -/
def loadCatalog (s : Session) (text : String) : Except CatalogError Session := do
  return { s with catalog := ← Catalog.parse text }

/-- Puts every record of the catalog in a text into the catalog. -/
def addCatalog (s : Session) (text : String) : Except CatalogError Session := do
  let added ← Catalog.parse text
  return { s with catalog := added.records.foldl Catalog.insert s.catalog }

/-- Replaces the document by the one in a text. -/
def loadDocument (s : Session) (text : String) : Session :=
  { s with document := .ofFileText text }

/-- Adds an entry to the end of the document. -/
def pushEntry (s : Session) (e : Entry) : Session :=
  { s with document := ⟨s.document.entries ++ [e]⟩ }

/-- Takes the last entry from the document, if it has one. -/
def popEntry (s : Session) : Session :=
  { s with document := ⟨s.document.entries.dropLast⟩ }

/-- The numbers of line ends between neighbouring entries of the document. -/
def gaps (s : Session) : List Nat :=
  (s.document.entries.zip s.document.entries.tail).map fun p => separatorLength p.1.span p.2.span

/-- The translated document. -/
def merge (s : Session) : Except UnsupportedEntry String := s.document.merge s.catalog

/-- Replaces the document by its translation, and gives that as text too. -/
def feed (s : Session) : Except UnsupportedEntry (String × Session) := do
  let text ← s.merge
  return (text, s.loadDocument text)

/-- What the translated document would lack. -/
def audit (s : Session) : List Issue := s.document.audit s.catalog

end Session

end FluentMerge
