import WireSchema.Emit.Options
import WireSchema.TypeExpr.Builtin
import WireSchema.Validator.Registry

/-
  Configurations of a run.

  Key definitions include:
    * `Config`
    * `Config.emitOptions`, `Config.wellKnown`
    * `ConfigFault`, `Config.check`
-/

namespace WireSchema

/- Where the types are read from. -/
inductive Extraction where
  | deep
  | shallow
  deriving DecidableEq, Repr, Inhabited

/-
  Deep extraction reads the sources of the module at a root,
  shallow extraction a catalog.  Type mappings are in order
  of the names.
-/
structure Config where
  extraction : Extraction := .deep
  moduleRoot : String := "."
  catalog : Option String := none
  extraScope : List String := []
  comments : CommentPolicy := .all
  enumStyle : EnumStyle := .taggedUnion
  absentMark : AbsentMark := .undefined
  singleFile : Bool := true
  strippedPaths : List String := []
  typeMappings : List (String × String) := []
  flavors : List String := []
  baseTypes : Bool := true
  outputDir : String := "generated"
  baseName : String := "types"
  deriving DecidableEq, Repr, Inhabited

------------------------------------------------------------
-- Faults
------------------------------------------------------------

/- What makes a configuration unusable. -/
inductive ConfigFault where
  | baseName (found : String)
  | repeatedFlavor (name : String)
  | unavailableFlavor (name : String) (available : List String)
  | unknownFlavor (name : String)
  | noTypes
  | noCatalog
  | unknownKind (e : UnknownKind)
  | routeKey (key : String)
  deriving DecidableEq, Repr

namespace ConfigFault

def reason : ConfigFault → String
  | .baseName found =>
      "base-name must be a plain file stem, got "
        ++ Text.shown found
  | .repeatedFlavor name =>
      "flavor " ++ Text.shown name ++ " listed twice"
  | .unavailableFlavor name available =>
      "unknown flavor " ++ Text.shown name ++ " (available: "
        ++ Text.joinWith ", " available ++ ")"
  | .unknownFlavor name => "unknown flavor " ++ Text.shown name
  | .noTypes =>
      "emit-base-types = false needs a flavor that exports "
        ++ "inferred types"
  | .noCatalog => "provider = \"shallow\" needs a catalog path"
  | .unknownKind e => "configuration error: " ++ e.message
  | .routeKey key =>
      "route key " ++ Text.shown key
        ++ " must have the form Service.Method"

def message (f : ConfigFault) : String :=
  "invalid config: " ++ f.reason

end ConfigFault

------------------------------------------------------------
-- What a Configuration Asks For
------------------------------------------------------------

namespace Config

def emitOptions (c : Config) : EmitOptions :=
  { enumStyle := c.enumStyle
    absentMark := c.absentMark
    comments := c.comments
    singleFile := c.singleFile
    strippedPaths := c.strippedPaths
    baseTypes := c.baseTypes
    baseName := c.baseName }

/- The well-known types with the mappings of the user. -/
def wellKnown (c : Config) : Except ConfigFault WellKnown :=
  (WellKnown.override c.typeMappings).mapError .unknownKind

/- The base name is the stem of a file, not a path. -/
def checkBaseName (c : Config) : Except ConfigFault Unit :=
  if c.baseName.isEmpty || c.baseName.toList.contains '/' then
    .error (.baseName c.baseName)
  else .ok ()

/- Each flavor is listed once and available. -/
def checkFlavors
    (r : Registry OutputFlavor)
    (seen : List String) :
    List String → Except ConfigFault Unit
  | [] => .ok ()
  | name :: rest =>
      if seen.contains name then .error (.repeatedFlavor name)
      else if !r.contains name then
        .error (.unavailableFlavor name r.names)
      else checkFlavors r (name :: seen) rest

/- Without base types some flavor has to export the types. -/
def checkTypes (c : Config) (r : Registry OutputFlavor) :
    Except ConfigFault Unit :=
  let infers :=
    (c.flavors.filterMap r.find?).any fun f => f.infersTypes
  if c.baseTypes || infers then .ok () else .error .noTypes

def checkCatalog (c : Config) : Except ConfigFault Unit :=
  if c.extraction == .shallow && c.catalog.isNone then
    .error .noCatalog
  else .ok ()

/- The first fault of a configuration. -/
def check (c : Config) (r : Registry OutputFlavor) :
    Except ConfigFault Unit := do
  c.checkBaseName
  checkFlavors r [] c.flavors
  c.checkTypes r
  c.checkCatalog
  let _ ← c.wellKnown
  .ok ()

end Config

end WireSchema
