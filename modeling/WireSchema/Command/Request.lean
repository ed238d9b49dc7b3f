import WireSchema.Command.Argument

/-
  What the program can be asked for, and how arguments ask
  for it.

  Key definitions include:
    * `Project`, `Command`
    * `Topic`, `Topic.forms`
    * `CommandRequest`, `CommandRequest.read?`
-/

namespace WireSchema

------------------------------------------------------------
-- Commands
------------------------------------------------------------

/-
  The routes of a project and its root.  Without a path the
  configuration is looked for.
-/
structure Project where
  routes : String
  config : Option String := none
  root : String := "."
  deriving DecidableEq, Repr, Inhabited

/-
  Without a directory for its output, `generate` writes where
  the configuration says.
-/
inductive Command where
  | generate (project : Project) (out : Option String)
  | schema (project : Project)
  | validate (file : String)
  | flavors
  deriving DecidableEq, Repr, Inhabited

/- What there is help about. -/
inductive Topic where
  | program
  | generate
  | schema
  | validate
  | flavors
  | help
  deriving DecidableEq, Repr, Inhabited

inductive CommandRequest where
  | run (command : Command)
  | help (topic : Topic)
  | version
  deriving DecidableEq, Repr, Inhabited

namespace Topic

def commands : List Topic :=
  [.generate, .schema, .validate, .flavors, .help]

/- The word that selects a command. -/
def word : Topic → String
  | .program => ""
  | .generate => "generate"
  | .schema => "schema"
  | .validate => "validate"
  | .flavors => "flavors"
  | .help => "help"

def ofWord? (s : String) : Option Topic :=
  commands.find? fun t => t.word == s

------------------------------------------------------------
-- Options
------------------------------------------------------------

def routesForm : OptionForm :=
  { name := "routes"
    letter := some 'r'
    kind := .valued
    summary :=
      "Route map JSON (\x60\"Service.Method\" -> "
        ++ "\x7bverb, path, request, response\x7d\x60)" }

def configForm : OptionForm :=
  { name := "config"
    letter := some 'c'
    kind := .valued
    summary :=
      "Config file; discovered from the project root when "
        ++ "omitted" }

def rootForm : OptionForm :=
  { name := "root"
    kind := .valued
    summary :=
      "Project root. Relative config paths resolve against it "
        ++ "[default: .]" }

def outForm : OptionForm :=
  { name := "out"
    letter := some 'o'
    kind := .valued
    summary := "Output directory, overriding \x60output-dir\x60" }

def verboseForm : OptionForm :=
  { name := "verbose"
    letter := some 'v'
    summary := "Log at debug level" }

def helpForm : OptionForm :=
  { name := "help"
    letter := some 'h'
    kind := .help
    summary := "Print help" }

def versionForm : OptionForm :=
  { name := "version"
    letter := some 'V'
    kind := .version
    summary := "Print version" }

/-
  The options that a project is given by.  What every command
  understands stands behind the first one.
-/
def projectForms : List OptionForm :=
  [routesForm, verboseForm, configForm, rootForm]

/- The options that are understood, in order of their help. -/
def forms : Topic → List OptionForm
  | .program => [verboseForm, helpForm, versionForm]
  | .generate => projectForms ++ [outForm, helpForm]
  | .schema => projectForms ++ [helpForm]
  | .validate => [verboseForm, helpForm]
  | .flavors => [verboseForm, helpForm]
  | .help => []

/- The number of operands. -/
def operandLimit : Topic → Nat
  | .validate => 1
  | _ => 0

end Topic

------------------------------------------------------------
-- Reading
------------------------------------------------------------

/- The project that options give; it needs routes. -/
def Given.project? (g : Given) : Option Project :=
  (g.value? Topic.routesForm.name).map fun routes =>
    { routes
      config := g.value? Topic.configForm.name
      root := (g.value? Topic.rootForm.name).getD "." }

namespace CommandRequest

/- The command that options and operands make up. -/
def commandOf? : Topic → Given → Option Command
  | .generate, g =>
      g.project?.map fun p =>
        .generate p (g.value? Topic.outForm.name)
  | .schema, g => g.project?.map .schema
  | .validate, g => g.operands.head?.map .validate
  | .flavors, _ => some .flavors
  | .program, _ => none
  | .help, _ => none

/- Read what stands behind the word of a command. -/
def readCommand? (topic : Topic) (args : List String) :
    Option CommandRequest :=
  match
    readArguments topic.forms topic.operandLimit {} none args
  with
  | .ok g => (commandOf? topic g).map .run
  | .error .help => some (.help topic)
  | .error .version => some .version
  | .error .misuse => none

/- Read what stands behind the word `help`. -/
def readHelp? : List String → Option CommandRequest
  | [] => some (.help .program)
  | [word] => (Topic.ofWord? word).map .help
  | _ => none

/- Read options up to the word of a command. -/
def readFrom? : Given → List String → Option CommandRequest
  | _, [] => none
  | g, arg :: rest =>
      if isOption arg then
        match readOption Topic.program.forms g arg with
        | .ok (g, _) => readFrom? g rest
        | .error .help => some (.help .program)
        | .error .version => some .version
        | .error .misuse => none
      else
        match Topic.ofWord? arg with
        | some .help => readHelp? rest
        | some topic => readCommand? topic rest
        | none => none

/- What arguments ask for, unless they are misused. -/
def read? (args : List String) : Option CommandRequest :=
  readFrom? {} args

end CommandRequest

end WireSchema
