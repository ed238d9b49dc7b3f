import WireSchema.Command.Request

/-
  The texts that explain the program.

  Key definitions include:
    * `Topic.helpText`
    * `versionText`
-/

namespace WireSchema

def programName : String := "typebridge"

def programVersion : String := "0.2.0"

def versionText : String :=
  programName ++ " " ++ programVersion ++ "\n"

------------------------------------------------------------
-- Tables
------------------------------------------------------------

/- A text with blanks behind it up to a width. -/
def padTo (width : Nat) (s : String) : String :=
  s ++ String.ofList (List.replicate (width - s.length) ' ')

/- Rows of two columns. -/
def tableText (rows : List (String × String)) : String :=
  let width :=
    (rows.map fun r => r.1.length).foldl max 0
  String.join
    (rows.map fun r =>
      "  " ++ padTo width r.1 ++ "  " ++ r.2 ++ "\n")

/- A table under a title; nothing without rows. -/
def sectionText (title : String) (rows : List (String × String)) :
    String :=
  if rows.isEmpty then ""
  else "\n" ++ title ++ ":\n" ++ tableText rows

------------------------------------------------------------
-- Topics
------------------------------------------------------------

/- The value of an option as help shows it. -/
def OptionForm.valueText (f : OptionForm) : String :=
  if f.kind = .valued then
    " <" ++ String.ofList (f.name.toList.map Char.toUpper)
      ++ ">"
  else ""

/- An option as help shows it. -/
def OptionForm.row (f : OptionForm) : String × String :=
  let letter :=
    match f.letter with
    | some c => "-" ++ String.ofList [c] ++ ", "
    | none => "    "
  (letter ++ "--" ++ f.name ++ f.valueText, f.summary)

namespace Topic

def summary : Topic → String
  | .program => "Command-line front end for typebridge"
  | .generate =>
      "Extract, validate and write all configured artifacts"
  | .schema => "Print the extracted IR as JSON"
  | .validate => "Validate an IR JSON document"
  | .flavors => "List available output flavors"
  | .help =>
      "Print this message or the help of the given "
        ++ "subcommand(s)"

/- What stands behind the name of the program. -/
def usage : Topic → String
  | .program => "[OPTIONS] <COMMAND>"
  | .generate => "generate [OPTIONS] --routes <ROUTES>"
  | .schema => "schema [OPTIONS] --routes <ROUTES>"
  | .validate => "validate [OPTIONS] <FILE>"
  | .flavors => "flavors [OPTIONS]"
  | .help => "help [COMMAND]..."

/- The operands and what they mean. -/
def operandRows : Topic → List (String × String)
  | .validate =>
      [("<FILE>",
        "IR document produced by \x60typebridge schema\x60")]
  | .help =>
      [("[COMMAND]...", "Print help for the subcommand(s)")]
  | _ => []

def commandRows : Topic → List (String × String)
  | .program => commands.map fun t => (t.word, t.summary)
  | _ => []

/- The help about a topic. -/
def helpText (t : Topic) : String :=
  t.summary ++ "\n\nUsage: " ++ programName ++ " " ++ t.usage
    ++ "\n"
    ++ sectionText "Commands" t.commandRows
    ++ sectionText "Arguments" t.operandRows
    ++ sectionText "Options" (t.forms.map OptionForm.row)

end Topic

end WireSchema
