import WireSchema.Emit.Declaration

/-
  Laying out declarations as files: all in one, or one file
  for each namespace and one that exports them all.

  Key definitions include:
    * `Chunk`
    * `EmitScope.importLines`
    * `EmitScope.layOut`
-/

namespace WireSchema

/- A declaration as text, with the type it declares. -/
structure Chunk where
  id : TypeName
  text : String
  deriving DecidableEq, Repr, Inhabited

/- The declarations of one namespace. -/
structure NamespaceChunks where
  space : String
  chunks : List Chunk
  deriving DecidableEq, Repr, Inhabited

/- The chunks by namespace, in order of the namespaces. -/
def groupChunks (chunks : List Chunk) : List NamespaceChunks :=
  (sortTexts (chunks.map fun c => c.id.space)).map fun space =>
    { space
      chunks := chunks.filter fun c => c.id.space == space }

/- Each chunk behind an empty line. -/
def spacedChunks (chunks : List Chunk) : String :=
  String.join (chunks.map fun c => "\n" ++ c.text)

namespace EmitScope

------------------------------------------------------------
-- Imports
------------------------------------------------------------

/- The names to import from one file. -/
structure ImportGroup where
  stem : String
  names : List String
  deriving DecidableEq, Repr, Inhabited

/- Add a name to the group of its file, both in order. -/
def addImport
    (stem name : String) :
    List ImportGroup → List ImportGroup
  | [] => [{ stem, names := [name] }]
  | g :: rest =>
      if stem < g.stem then
        { stem, names := [name] } :: g :: rest
      else if stem = g.stem then
        { g with names := insertSorted textBefore name g.names }
          :: rest
      else g :: addImport stem name rest

/-
  The imports that references need.  A name whose namespace
  has no file is not imported.
-/
def importGroups
    (x : EmitScope)
    (files : FileStems) :
    List ImportGroup → List TypeName →
      Except EmitError (List ImportGroup)
  | groups, [] => .ok groups
  | groups, id :: rest =>
      match files.find? id.space with
      | none => importGroups x files groups rest
      | some stem => do
          let name ← x.name id
          importGroups x files (addImport stem name groups) rest

def importLine (dir : String) (g : ImportGroup) : String :=
  "import type \x7b " ++ Text.joinWith ", " g.names
    ++ " \x7d from \"" ++ dir ++ g.stem ++ "\";\n"

/- One line for each file that something is imported from. -/
def importLines
    (x : EmitScope)
    (files : FileStems)
    (referenced : List TypeName)
    (dir : String) : Except EmitError String := do
  let groups ← x.importGroups files [] (sortNames referenced)
  .ok (String.join (groups.map (importLine dir)))

------------------------------------------------------------
-- Files
------------------------------------------------------------

/- What the declarations of a namespace mention elsewhere. -/
def foreignNames
    (x : EmitScope)
    (group : NamespaceChunks) : List TypeName :=
  let mentioned := group.chunks.flatMap fun c =>
    match x.schema.find? c.id with
    | some t => t.dependencies
    | none => []
  mentioned.filter fun id => id.space != group.space

def namespaceFile
    (x : EmitScope)
    (files : FileStems)
    (group : NamespaceChunks) :
    Except EmitError OutputFile := do
  let imports ←
    x.importLines files (x.foreignNames group) "./"
  let stem := (files.find? group.space).getD "types"
  .ok
    { path := x.options.baseName ++ "/" ++ stem ++ ".ts"
      contents :=
        fileHeader ++ imports ++ spacedChunks group.chunks }

/- What the services mention. -/
def serviceNames (x : EmitScope) : List TypeName :=
  x.endpoints.flatMap fun e =>
    let request :=
      match e.request with
      | some t => t.dependencies
      | none => []
    request ++ e.response.dependencies

/- The file that exports all others and holds the services. -/
def indexFile
    (x : EmitScope)
    (files : FileStems)
    (services : String) : Except EmitError OutputFile := do
  let base := x.options.baseName
  let stems := sortUpTo textUpTo (files.stems.map Prod.snd)
  let exportLines := stems.map fun stem =>
    "export * from \"./" ++ base ++ "/" ++ stem ++ "\";\n"
  let rest ←
    if services.isEmpty then .ok ""
    else do
      let imports ←
        x.importLines files x.serviceNames ("./" ++ base ++ "/")
      .ok ("\n" ++ imports ++ "\n" ++ services)
  .ok
    { path := base ++ ".ts"
      contents :=
        fileHeader ++ "\n" ++ String.join exportLines ++ rest }

/- The files of a schema's declarations and services. -/
def layOut (x : EmitScope) (chunks : List Chunk) :
    Except EmitError (List OutputFile) := do
  let services ← x.servicesText
  if x.options.singleFile then
    let tail := if services.isEmpty then "" else "\n" ++ services
    .ok
      [{ path := x.options.baseName ++ ".ts"
         contents := fileHeader ++ spacedChunks chunks ++ tail }]
  else
    let files :=
      FileStems.ofNamespaces (chunks.map fun c => c.id.space)
        x.options.strippedPaths
    let parts ←
      (groupChunks chunks).mapM (x.namespaceFile files)
    let index ← x.indexFile files services
    .ok (parts ++ [index])

end EmitScope

end WireSchema
