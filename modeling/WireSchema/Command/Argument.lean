import WireSchema.Text.Split

/-
  Reading the arguments of a command: options with and
  without values, and operands.

  Arguments are read from left to right, and the first one
  that is wrong or asks for help ends the reading.

  Key definitions include:
    * `OptionForm`
    * `Given`: what has been given so far
    * `Stop`
    * `readArguments`
-/

namespace WireSchema

------------------------------------------------------------
-- Options
------------------------------------------------------------

inductive OptionKind where
  | switch
  | valued
  | help
  | version
  deriving DecidableEq, Repr, Inhabited

/- An option by its long name and perhaps a single letter. -/
structure OptionForm where
  name : String
  letter : Option Char := none
  kind : OptionKind := .switch
  summary : String := ""
  deriving DecidableEq, Repr, Inhabited

/- Why arguments are not read to their end. -/
inductive Stop where
  | misuse
  | help
  | version
  deriving DecidableEq, Repr, Inhabited

------------------------------------------------------------
-- What Is Given
------------------------------------------------------------

structure Given where
  switches : List String := []
  values : List (String × String) := []
  operands : List String := []
  deriving DecidableEq, Repr, Inhabited

namespace Given

/- A switch is given once. -/
def addSwitch (g : Given) (name : String) :
    Except Stop Given :=
  if g.switches.contains name then .error .misuse
  else .ok { g with switches := name :: g.switches }

/- A value is given once, and it is not empty. -/
def addValue (g : Given) (name value : String) :
    Except Stop Given :=
  if value.isEmpty || (g.values.lookup name).isSome then
    .error .misuse
  else .ok { g with values := (name, value) :: g.values }

/- An operand is not empty, and there are only so many. -/
def addOperand (g : Given) (limit : Nat) (operand : String) :
    Except Stop Given :=
  if operand.isEmpty || limit ≤ g.operands.length then
    .error .misuse
  else .ok { g with operands := g.operands ++ [operand] }

def value? (g : Given) (name : String) : Option String :=
  g.values.lookup name

end Given

------------------------------------------------------------
-- Single Arguments
------------------------------------------------------------

/-
  What is given with one more option, and the name of the
  option if its value is the next argument.
-/
abbrev OptionStep := Except Stop (Given × Option String)

/- An option with a value behind it or without one. -/
def readForm
    (g : Given)
    (f : OptionForm)
    (value? : Option String) : OptionStep :=
  match f.kind, value? with
  | .switch, none => do .ok (← g.addSwitch f.name, none)
  | .valued, none => .ok (g, some f.name)
  | .valued, some value => do
      .ok (← g.addValue f.name value, none)
  | .help, none => .error .help
  | .version, none => .error .version
  | _, some _ => .error .misuse

/- An option by its long name, perhaps with a value. -/
def readLong
    (forms : List OptionForm)
    (g : Given)
    (text : List Char) : OptionStep :=
  let (name, value?) :=
    match Text.splitFirst '=' text with
    | some (name, value) => (name, some (String.ofList value))
    | none => (text, none)
  match forms.find? fun f => f.name.toList == name with
  | some f => readForm g f value?
  | none => .error .misuse

/- A value right behind the letter of its option. -/
def attached : List Char → String
  | '=' :: s => String.ofList s
  | s => String.ofList s

/- Options by their letters, one behind the other. -/
def readLetters (forms : List OptionForm) :
    Given → List Char → OptionStep
  | g, [] => .ok (g, none)
  | g, c :: rest =>
      match forms.find? fun f => f.letter == some c with
      | none => .error .misuse
      | some f =>
          if f.kind = .valued && !rest.isEmpty then
            readForm g f (some (attached rest))
          else do
            let (g, awaited) ← readForm g f none
            if awaited.isSome then .ok (g, awaited)
            else readLetters forms g rest

/- Whether an argument is an option; a lone hyphen is none. -/
def isOption (arg : String) : Bool :=
  match arg.toList with
  | '-' :: _ :: _ => true
  | _ => false

/- Read an argument that is an option. -/
def readOption
    (forms : List OptionForm)
    (g : Given)
    (arg : String) : OptionStep :=
  match arg.toList with
  | '-' :: '-' :: text => readLong forms g text
  | _ :: letters => readLetters forms g letters
  | [] => .error .misuse

------------------------------------------------------------
-- All Arguments
------------------------------------------------------------

/- The argument behind which everything is an operand. -/
def endOfOptions : String := "--"

/-
  Read arguments with some number of operands.  The option
  whose value comes next is known by its name.
-/
def readArguments (forms : List OptionForm) (limit : Nat) :
    Given → Option String → List String → Except Stop Given
  | g, none, [] => .ok g
  | _, some _, [] => .error .misuse
  | g, none, arg :: rest =>
      if arg == endOfOptions then
        rest.foldlM (fun g a => g.addOperand limit a) g
      else if isOption arg then
        match readOption forms g arg with
        | .ok (g, awaited) =>
            readArguments forms limit g awaited rest
        | .error stop => .error stop
      else
        match g.addOperand limit arg with
        | .ok g => readArguments forms limit g none rest
        | .error stop => .error stop
  | g, some name, arg :: rest =>
      if isOption arg then .error .misuse
      else
        match g.addValue name arg with
        | .ok g => readArguments forms limit g none rest
        | .error stop => .error stop

end WireSchema
