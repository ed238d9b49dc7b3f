import WireSchema.Rules.Effect

/-
  The spellings of one validation library.

  A validator is built from the pieces of a dialect; which
  pieces go where is the same in every dialect.

  Key definitions include:
    * `Chain`: a base schema with refinements
    * `Dialect`
    * `literalSchema`, `objectEntry`, `patternLiteral`
-/

namespace WireSchema

/- A base schema and the refinements put on it, in order. -/
structure Chain where
  base : String
  steps : List String := []
  deriving DecidableEq, Repr, Inhabited

/-
  How a library writes each piece of a validator.  Schemas
  for parsed texts accept the text of a scalar and produce
  the scalar.
-/
structure Dialect where
  name : String
  fileSuffix : String
  importLine : String
  infersTypes : Bool
  base : BaseKind → String
  parsed : BaseKind → Chain
  refinement : Refinement → String
  finish : Chain → String
  checkThenParse : String → Chain → String
  literals : List Literal → String
  null : String
  array : String → String
  map : String → String → String
  union : List String → String
  nullable : String → String
  optional : String → String
  deferred : String → String
  object : List String → List String → String
  factory : List String → String → String
  applied : String → Nat → String
  inferred : String → String

instance : Inhabited Dialect where
  default :=
    { name := "", fileSuffix := "", importLine := ""
      infersTypes := false, base := fun _ => ""
      parsed := fun _ => { base := "" }
      refinement := fun _ => "", finish := fun c => c.base
      checkThenParse := fun s _ => s, literals := fun _ => ""
      null := "", array := id, map := fun _ v => v
      union := fun _ => "", nullable := id, optional := id
      deferred := id, object := fun _ _ => ""
      factory := fun _ s => s, applied := fun s _ => s
      inferred := id }

------------------------------------------------------------
-- Shared Spellings
------------------------------------------------------------

/- The words in which dialects spell a set of literals. -/
structure LiteralWords where
  none : String
  texts : String
  single : String
  union : String

/- A call with arguments between commas. -/
def callText (function : String) (args : List String) : String :=
  function ++ "(" ++ Text.joinWith ", " args ++ ")"

/- A call with one list of arguments. -/
def callList (function : String) (args : List String) : String :=
  function ++ "([" ++ Text.joinWith ", " args ++ "])"

/-
  The schema of a set of literals: texts have a form of their
  own, other sets are unions of single literals.
-/
def literalSchema
    (words : LiteralWords)
    (values : List Literal) : String :=
  match values with
  | [] => callText words.none []
  | values =>
      if values.all Literal.isText then
        callList words.texts (values.map Literal.code)
      else
        match values with
        | [v] => callText words.single [v.code]
        | values =>
            callList words.union
              (values.map fun v => callText words.single [v.code])

/- Every line of an entry moved in by one level. -/
def objectEntry (entry : String) : String :=
  Text.joinWith "\n"
    ((Text.linesString entry).map fun line => "  " ++ line)

/- Entries one below the other, each with a comma. -/
def objectEntries (entries : List String) : String :=
  String.join (entries.map fun e => objectEntry e ++ ",\n")

/- A pattern as a literal, slashes inside it escaped. -/
def patternLiteral (source : String) : String :=
  let body := source.toList.flatMap fun c =>
    if c = '/' then ['\\', '/'] else [c]
  "/" ++ String.ofList body ++ "/"

/- A function from the schemas of parameters to a schema. -/
def factoryText
    (bound : String)
    (params : List String)
    (body : String) : String :=
  let bounds := params.map fun p => p ++ " extends " ++ bound
  let args := params.map fun p => p ++ ": " ++ p
  "<" ++ Text.joinWith ", " bounds ++ ">("
    ++ Text.joinWith ", " args ++ ") => " ++ body

end WireSchema
