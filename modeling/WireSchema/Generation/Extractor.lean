import WireSchema.Catalog.Document
import WireSchema.Catalog.Extraction
import WireSchema.Generation.Pipeline
import WireSchema.Source.Extraction

/-
  The extraction that a configuration asks for.

  Key definitions include:
    * `FileTree.readCatalog`
    * `Config.extractor`
-/

namespace WireSchema

/- The catalog in a file. -/
def FileTree.readCatalog (t : FileTree) (path : String) :
    Except ExtractionFault Catalog :=
  match t.readText path with
  | .error _ => .error (.unreadable path)
  | .ok text =>
      match Catalog.ofDocument? text with
      | some c => .ok c
      | none => .error (.badCatalog path)

/-
  How types are extracted for a project.  Paths in the
  configuration are as seen from the root of the project.
-/
def Config.extractor
    (c : Config)
    (t : FileTree)
    (root : String) : Except RunFault Extractor := do
  let known ← c.wellKnown.mapError .config
  match c.extraction with
  | .deep =>
      .ok (t.extractSources (Path.join root c.moduleRoot) known)
  | .shallow =>
      match c.catalog with
      | none => .error (.config .noCatalog)
      | some path => do
          let catalog ←
            (t.readCatalog (Path.join root path)).mapError
              .extraction
          .ok (catalog.extract known)

end WireSchema
