import WireSchema.Command.Run

/-
  The program: it reads the files that a command may need,
  runs the command over them, and writes what has changed.

  Key definitions include:
    * `readEntry`, `readSources`
    * `gather`
    * `main`
-/

namespace WireSchema

------------------------------------------------------------
-- Reading
------------------------------------------------------------

/- The names on the way to an absolute path. -/
def locationOf (path : String) : Location :=
  (Path.segments path).filter fun s => !s.isEmpty

/-
  The tree with the file or the directory at a path, but not
  what is in the directory.  What cannot be read is left out.
-/
def readEntry (t : FileTree) (path : String) : IO FileTree := do
  let place := (← IO.currentDir) / path
  if ← place.isDir then pure (t.makeDirs path).1
  else if ← place.pathExists then
    try
      let content ← IO.FS.readBinFile place
      pure (t.plant path content)
    catch _ => pure t
  else pure t

/- How deep directories are read. -/
def depthLimit : Nat := 64

/- Directories in which no sources are looked for. -/
def isPassedOver (name : String) : Bool :=
  name == ".git" || name == "node_modules"

/- The tree with all sources of the module at a path. -/
def readSources : Nat → FileTree → String → IO FileTree
  | 0, t, _ => pure t
  | depth + 1, t, path => do
      let mut t ← readEntry t path
      let place := (← IO.currentDir) / path
      if ← place.isDir then
        for entry in ← place.readDir do
          let name := entry.fileName
          let inner := Path.join path name
          if ← entry.path.isDir then
            if !isPassedOver name then
              t ← readSources depth t inner
          else if name == Source.moduleFileName
              || name.endsWith ".go" then
            t ← readEntry t inner
      pure t

/- The directory of the settings of the user. -/
def settingsDir : IO (Option String) := do
  let home ← IO.getEnv "HOME"
  let fallback := home.map fun dir => Path.join dir ".config"
  match ← IO.getEnv "XDG_CONFIG_HOME" with
  | some dir =>
      pure (if Path.isAbsolute dir then some dir else fallback)
  | none => pure fallback

/- The files that say what a project is. -/
def Project.paths
    (p : Project)
    (settings : Option String) : List String :=
  [p.root, p.routes]
    ++ match p.config with
      | some path => [path]
      | none => FileTree.configPaths p.root settings

/- The tree that a command about a project runs over. -/
def gatherProject
    (settings : Option String)
    (t : FileTree)
    (p : Project) : IO FileTree := do
  let t ← (p.paths settings).foldlM readEntry t
  match t.projectConfig settings p with
  | .error _ => pure t
  | .ok c =>
      match c.extraction, c.catalog with
      | .deep, _ =>
          readSources depthLimit t (Path.join p.root c.moduleRoot)
      | .shallow, some path =>
          readEntry t (Path.join p.root path)
      | .shallow, none => pure t

/- The tree that a command runs over. -/
def gather (settings : Option String) (c : Command) :
    IO FileTree := do
  let home := locationOf (← IO.currentDir).toString
  let t := FileTree.withHome {} home
  match c with
  | .generate p _ => gatherProject settings t p
  | .schema p => gatherProject settings t p
  | .validate path => readEntry t path
  | .flavors => pure t

------------------------------------------------------------
-- Writing
------------------------------------------------------------

/- Write a file to its location. -/
def writeBack (f : Location × ByteArray) : IO Unit := do
  let dir := "/" ++ Text.joinWith "/" f.1.dropLast
  IO.FS.createDirAll dir
  IO.FS.writeBinFile ("/" ++ Text.joinWith "/" f.1) f.2

end WireSchema

open WireSchema in
/- Run the program with its arguments. -/
def main (args : List String) : IO UInt32 := do
  let settings ← settingsDir
  let t ←
    match CommandRequest.read? args with
    | some (.run c) => gather settings c
    | _ => pure {}
  let o := t.runArguments settings args
  (o.tree.changesFrom t).forM writeBack
  IO.print o.output
  IO.eprint o.errors
  return o.code.toUInt32
