import WireSchema.Extraction.Basic
import WireSchema.FileTree.Basic
import WireSchema.Source.Package
import WireSchema.Text.Blank

/-
  Modules: a directory of packages, with a file that says
  what their paths begin with.

  Key definitions include:
    * `ModuleSource`, `ModuleSource.open?`
    * `SourceReader`
    * `ModuleSource.placeOf?`
    * `ModuleSource.load`
-/

namespace WireSchema.Source

/- A module by its directory and by its path. -/
structure ModuleSource where
  root : String
  path : String
  deriving DecidableEq, Repr, Inhabited

------------------------------------------------------------
-- Module Files
------------------------------------------------------------

/- The name of the file that says the path of a module. -/
def moduleFileName : String := "go.mod"

/- The path on a line that is a module directive. -/
def modulePath? (line : List Char) : Option String :=
  (Text.afterHead? "module ".toList (Text.trim line)).map
    fun rest =>
      String.ofList
        (Text.dropEdgesWhile (fun c => c == '"')
          (Text.trim rest))

/- The module in a directory. -/
def ModuleSource.open? (t : FileTree) (root : String) :
    Except ExtractionFault ModuleSource :=
  let file := Path.join root moduleFileName
  match t.readText file with
  | .error _ => .error (.unreadable file)
  | .ok text =>
      match (Text.lines text.toList).findSome? modulePath? with
      | some path => .ok { root, path }
      | none => .error (.noModule file)

------------------------------------------------------------
-- Packages
------------------------------------------------------------

/- What the text of a file says, which has a path. -/
abbrev SourceReader := String → String → Option FileSource

namespace ModuleSource

/- The place of a package below the root of its module. -/
def placeOf? (m : ModuleSource) (package : String) :
    Option String :=
  if package == m.path then some ""
  else
    (Text.afterHead? (m.path ++ "/").toList
      package.toList).map String.ofList

/- The directory of a package. -/
def dirOf (m : ModuleSource) (place : String) : String :=
  if place.isEmpty then m.root else Path.join m.root place

/-
  Whether a name is that of a source file.  Files of tests
  are none.
-/
def isSourceName (name : String) : Bool :=
  name.endsWith ".go" && name != ".go"
    && !name.endsWith "_test.go"

/-
  The path of a file as seen from the root of the module.
  Backslashes are shown as slashes.
-/
def pathInside (place name : String) : String :=
  String.ofList
    ((Path.dropIdleStart (Path.join place name).toList).map
      fun c => if c = '\\' then '/' else c)

/- Read one file of a package. -/
def loadFile
    (m : ModuleSource)
    (read : SourceReader)
    (t : FileTree)
    (place name : String) :
    Except ExtractionFault FileSource :=
  let path := Path.join (m.dirOf place) name
  match t.readText path with
  | .error _ => .error (.unreadable path)
  | .ok source =>
      match read (pathInside place name) source with
      | some file => .ok file
      | none => .error (.syntaxFault (pathInside place name))

/-
  A package of the module.  Other modules and directories
  without source files have no packages.
-/
def load
    (m : ModuleSource)
    (read : SourceReader)
    (t : FileTree)
    (package : String) :
    Except ExtractionFault (Option PackageSource) :=
  match m.placeOf? package with
  | none => .ok none
  | some place =>
      let dir := m.dirOf place
      match t.names dir with
      | .error .missing => .ok none
      | .error .unusable => .error (.unreadable dir)
      | .ok names => do
          let names := names.filter fun name =>
            isSourceName name && t.isFile (Path.join dir name)
          if names.isEmpty then .ok none
          else
            let files ← names.mapM (m.loadFile read t place)
            .ok (some (.ofFiles package files))

end ModuleSource

end WireSchema.Source
