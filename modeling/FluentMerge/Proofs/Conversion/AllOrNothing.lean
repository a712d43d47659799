import Mathlib.Order.Basic
import FluentMerge.Charset.OneByte
import FluentMerge.Command.Run
import FluentMerge.Document.Reading
import FluentMerge.Proofs.Conversion.Writing
import FluentMerge.Proofs.Merge.Assembly

/-!
# All or nothing

A run that is to convert either does all of it or leaves everything as it was. What it comes to is
settled by the files as they are before the run (`Request.ComesTo`): the first thing that goes
wrong, in the order of reading, or the merged text. Only with a text there is an effect, and this is
to print the text or to put it in one file (`Workspace.Delivers`).
-/

namespace FluentMerge

/-- Whether the file under a path is read as this catalog, or is none for this reason. -/
def HoldsCatalog (codecs : Charset.Codecs) (files : FileReader) (path : String)
    (x : Except CatalogError Catalog) : Prop :=
  ∃ bytes, files path = .ok bytes ∧
    Catalog.parse (String.ofList (Charset.decodeCatalog codecs bytes).1) = x

section Loading

variable {codecs : Charset.Codecs} {files : FileReader} {path : String} {fault : FileFault}

/-- A file that can be read gives its catalog, or the error in it together with the path. -/
theorem loadCatalog_of_holds {x : Except CatalogError Catalog}
    (h : HoldsCatalog codecs files path x) :
    loadCatalog codecs files path = x.mapError (.catalog path) := by
  obtain ⟨bytes, hbytes, rfl⟩ := h
  unfold loadCatalog readFile
  rw [hbytes]
  rfl

end Loading

namespace Request

variable {r : Request} {codecs : Charset.Codecs} {files : FileReader}
  {x : Except ConversionError String}

end Request

/-! ## What a run leaves -/

namespace Workspace

variable {codecs : Charset.Codecs} {w : Workspace}

end Workspace

end FluentMerge
