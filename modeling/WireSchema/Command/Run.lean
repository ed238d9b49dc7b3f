import WireSchema.Command.Help
import WireSchema.Config.File
import WireSchema.Generation.Extractor
import WireSchema.Route.Document
import WireSchema.Schema.Reader

/-
  Running commands over a file tree.

  Key definitions include:
    * `CommandFault`
    * `Outcome`
    * `FileTree.runCommand`
    * `FileTree.runArguments`
-/

namespace WireSchema

------------------------------------------------------------
-- Faults
------------------------------------------------------------

/- Why a command fails. -/
inductive CommandFault where
  | config (e : ConfigFileFault)
  | noRoot (path : String)
  | routes (path : String)
  | unreadable (path : String)
  | document (path : String) (e : SchemaError)
  | run (e : RunFault)
  deriving DecidableEq, Repr

def CommandFault.message : CommandFault → String
  | .config e => e.message
  | .noRoot path =>
      "project root " ++ path ++ " is not a directory"
  | .routes path => "failed to load routes from " ++ path
  | .unreadable path => "failed to read " ++ path
  | .document path e =>
      "failed to decode " ++ path ++ ": " ++ e.message
  | .run e => e.message

------------------------------------------------------------
-- Outcomes
------------------------------------------------------------

/-
  What a command prints and leaves behind.  The code is zero
  if it succeeds.
-/
structure Outcome where
  code : Nat
  output : String := ""
  errors : String := ""
  tree : FileTree
  deriving Inhabited

namespace Outcome

def failureCode : Nat := 1

/- The code for arguments that make no sense. -/
def misuseCode : Nat := 2

/- The code of a run that an overflow aborts. -/
def abortCode : Nat := 101

def codeOf : CommandFault → Nat
  | .run (.emission { cause := .overflow, .. }) => abortCode
  | _ => failureCode

def printed (t : FileTree) (output : String) : Outcome :=
  { code := 0, output, tree := t }

def failed (t : FileTree) (e : CommandFault) : Outcome :=
  { code := codeOf e
    errors := "Error: " ++ e.message ++ "\n"
    tree := t }

/- The outcome of what prints a text or fails. -/
def ofText (t : FileTree) :
    Except CommandFault String → Outcome
  | .ok text => printed t text
  | .error e => failed t e

end Outcome

/- Lines with an end for each. -/
def linesText (lines : List String) : String :=
  String.join (lines.map fun l => l ++ "\n")

------------------------------------------------------------
-- Projects
------------------------------------------------------------

/- All that a project brings into a run. -/
structure LoadedProject where
  config : Config
  routes : RouteTable
  extract : Extractor

namespace FileTree

/- The configuration of a project, given or looked for. -/
def projectConfig
    (t : FileTree)
    (settings : Option String)
    (p : Project) : Except CommandFault Config := do
  let config ←
    match p.config with
    | some path => (t.loadConfig path).mapError .config
    | none => do
        let found ←
          (t.discoverConfig p.root settings).mapError .config
        .ok found.1
  if t.isDir p.root then .ok config
  else .error (.noRoot p.root)

/- The configuration first, then routes and extraction. -/
def loadProject
    (t : FileTree)
    (settings : Option String)
    (p : Project) : Except CommandFault LoadedProject := do
  let config ← t.projectConfig settings p
  match t.readRoutes? p.routes with
  | none => .error (.routes p.routes)
  | some routes => do
      let extract ← (config.extractor t p.root).mapError .run
      .ok { config, routes, extract }

------------------------------------------------------------
-- Commands
------------------------------------------------------------

/- How many there are of something, on a line of its own. -/
def countLine (n : Nat) (what : String) : String :=
  if n = 0 then "" else toString n ++ " " ++ what ++ "\n"

/-
  Write all files of a project and print their paths.  Files
  that were written before a fault stay.
-/
def runGenerate
    (t : FileTree)
    (settings : Option String)
    (p : Project)
    (out : Option String) : Outcome :=
  match t.loadProject settings p with
  | .error e => .failed t e
  | .ok x =>
      let dir := out.getD (Path.join p.root x.config.outputDir)
      let sink : DirectorySink := { root := dir, tree := t }
      match
        x.routes.generate x.config x.extract .builtin
          (.directory sink)
      with
      | (sink, .error e) => .failed (sink.treeOr t) (.run e)
      | (sink, .ok report) =>
          { code := 0
            output :=
              linesText
                (report.files.map fun f => Path.join dir f.path)
            errors :=
              countLine report.warnings.length "warning(s)"
            tree := sink.treeOr t }

/- The schema of a project as a document. -/
def schemaText
    (t : FileTree)
    (settings : Option String)
    (p : Project) : Except CommandFault String := do
  let x ← t.loadProject settings p
  let s ←
    (x.routes.buildSchema x.config x.extract).mapError .run
  .ok (s.document ++ "\n")

/- The number of types and services of a valid schema. -/
def validText (s : Schema) : String :=
  "ok: " ++ toString s.types.length ++ " type(s), "
    ++ toString s.services.length ++ " service(s)\n"

/- A violation with the name of the type it is about. -/
def violationLine (v : Violation) : String :=
  match v.owner? with
  | some owner => v.text ++ " (" ++ owner.qualified ++ ")"
  | none => v.text

/- The schema in a file. -/
def readSchema (t : FileTree) (path : String) :
    Except CommandFault Schema :=
  match t.readText path with
  | .error _ => .error (.unreadable path)
  | .ok text =>
      (Schema.ofDocument text).mapError (.document path)

/- Print the violations of a schema; they are a failure. -/
def runValidate (t : FileTree) (path : String) : Outcome :=
  match t.readSchema path with
  | .error e => .failed t e
  | .ok s =>
      let violations := s.validate
      if violations.isEmpty then .printed t (validText s)
      else
        { code := Outcome.failureCode
          output := linesText (violations.map violationLine)
          errors := countLine violations.length "violation(s)"
          tree := t }

end FileTree

/- The width of the column of names. -/
def flavorWidth : Nat := 10

/- Every flavor with the files that it makes. -/
def Registry.listing (r : Registry OutputFlavor) : String :=
  linesText
    (r.entries.map fun e =>
      padTo flavorWidth e.1 ++ " *." ++ e.2.fileSuffix)

namespace FileTree

/- Run a command. -/
def runCommand (t : FileTree) (settings : Option String) :
    Command → Outcome
  | .generate p out => t.runGenerate settings p out
  | .schema p => .ofText t (t.schemaText settings p)
  | .validate path => t.runValidate path
  | .flavors => .printed t Registry.builtin.listing

/- Do what arguments ask for. -/
def runArguments
    (t : FileTree)
    (settings : Option String)
    (args : List String) : Outcome :=
  match CommandRequest.read? args with
  | some (.run c) => t.runCommand settings c
  | some (.help topic) => .printed t topic.helpText
  | some .version => .printed t versionText
  | none =>
      { code := Outcome.misuseCode
        errors := Topic.program.helpText
        tree := t }

end FileTree

end WireSchema
