import FluentMerge.Catalog.Parser
import FluentMerge.Charset.Decode
import FluentMerge.Conversion.File
import FluentMerge.Document.Parser
import FluentMerge.Merge.Audit
import FluentMerge.Merge.Basic

/-!
# Conversions

A conversion reads a catalog and a document from files and merges them. The catalog is read and
understood before the document is touched, and the first thing that goes wrong is all that comes of
it.
-/

namespace FluentMerge

/-- The two files of a conversion. -/
structure Request where
  catalogPath : String
  documentPath : String
  deriving DecidableEq, Repr

/-- What can go wrong in a conversion. -/
inductive ConversionError where
  | read (path : String) (fault : FileFault)
  | catalog (path : String) (error : CatalogError)
  | merge (entry : UnsupportedEntry)
  deriving DecidableEq, Repr

/-- The sentence that a user reads. -/
def ConversionError.message : ConversionError → String
  | .read path fault => "failed to read " ++ path ++ ": " ++ fault.message
  | .catalog path error => "invalid catalog " ++ path ++ ": " ++ error.message
  | .merge entry => entry.message

/-- The bytes of a file. -/
def readFile (files : FileReader) (path : String) : Except ConversionError (List UInt8) :=
  (files path).mapError (.read path)

/-- The catalog in a file. -/
def loadCatalog (codecs : Charset.Codecs) (files : FileReader) (path : String) :
    Except ConversionError Catalog := do
  let bytes ← readFile files path
  (Catalog.parse (String.ofList (Charset.decodeCatalog codecs bytes).1)).mapError (.catalog path)

/-- The document in a file, which is in UTF-8. -/
def loadDocument (files : FileReader) (path : String) : Except ConversionError Document := do
  let bytes ← readFile files path
  return Document.ofFileText (String.ofList (Utf8.decodeReplacing bytes))

/-- The catalog and the document of a conversion. -/
def Request.load (r : Request) (codecs : Charset.Codecs) (files : FileReader) :
    Except ConversionError (Catalog × Document) := do
  let catalog ← loadCatalog codecs files r.catalogPath
  let document ← loadDocument files r.documentPath
  return (catalog, document)

/-- The translated document. -/
def Request.convert (r : Request) (codecs : Charset.Codecs) (files : FileReader) :
    Except ConversionError String := do
  let (catalog, document) ← r.load codecs files
  (document.merge catalog).mapError .merge

/-- What the translated document would lack, or why there would be none. -/
def Request.audit (r : Request) (codecs : Charset.Codecs) (files : FileReader) :
    Except ConversionError (List Issue) := do
  let (catalog, document) ← r.load codecs files
  return document.audit catalog

end FluentMerge
