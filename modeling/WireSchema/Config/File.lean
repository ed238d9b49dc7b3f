import WireSchema.Config.Document
import WireSchema.Toml.Reader
import WireSchema.FileTree.Basic

/-
  Configuration files.

  Key definitions include:
    * `Config.ofText?`
    * `FileTree.loadConfig`
    * `FileTree.discoverConfig`
-/

namespace WireSchema

namespace Config

/-
  The name of one of several values: a string, or a table
  that holds something empty under that name.
-/
def choice? : Json → Option String
  | .text s => some s
  | .object [(name, .object [])] => some name
  | .object [(name, .array [])] => some name
  | _ => none

/- The configuration in the text of a file. -/
def ofText? (text : String) : Option Config := do
  let members ← Toml.parse? text
  ofJsonBy? choice? (TomlNode.table .opened members).toJson

end Config

/- Why a configuration file is of no use. -/
inductive ConfigFileFault where
  | unreadable (path : String)
  | malformed (path : String)
  deriving DecidableEq, Repr

def ConfigFileFault.message : ConfigFileFault → String
  | .unreadable path => "failed to read " ++ path
  | .malformed path => "invalid config " ++ path

namespace FileTree

/- The configuration in a file. -/
def loadConfig (t : FileTree) (path : String) :
    Except ConfigFileFault Config :=
  match t.readText path with
  | .error _ => .error (.unreadable path)
  | .ok text =>
      match Config.ofText? text with
      | some c => .ok c
      | none => .error (.malformed path)

/-
  Where a configuration may stand: in the project, in a
  directory of the project, in the settings of the user.
-/
def configPaths (root : String) (settings : Option String) :
    List String :=
  [Path.join root "typebridge.toml",
    Path.join (Path.join root ".typebridge") "config.toml"]
    ++ (settings.map fun dir =>
        Path.join (Path.join dir "typebridge")
          "config.toml").toList

/-
  The configuration of a project and the file it is from.
  Without any file it is the default one.
-/
def discoverConfig
    (t : FileTree)
    (root : String)
    (settings : Option String) :
    Except ConfigFileFault (Config × Option String) :=
  match (configPaths root settings).find? t.isFile with
  | none => .ok ({}, none)
  | some path => do
      let c ← t.loadConfig path
      .ok (c, some path)

end FileTree

end WireSchema
