import WireSchema.Schema.Type

/-
  Schemas: declared types, services and warnings.

  Key definitions include:
    * `Endpoint`, `Service`
    * `Warning`
    * `Schema`, `Schema.find?`
    * `Schema.addType`
    * `SchemaError`
-/

namespace WireSchema

------------------------------------------------------------
-- Services
------------------------------------------------------------

/- A method of a service that can be called. -/
structure Endpoint where
  name : String
  fullName : String
  verb : String
  path : String
  request : Option WireType := none
  response : WireType
  doc : Doc := {}
  deriving BEq, Repr, Inhabited

structure Service where
  name : String
  endpoints : List Endpoint := []
  doc : Doc := {}
  deriving BEq, Repr, Inhabited

------------------------------------------------------------
-- Warnings
------------------------------------------------------------

/- What a warning is about. -/
inductive WarningKind where
  | unsupportedRule
  | unresolvedType
  | membersUnavailable
  | memberSkipped
  | unsupportedType
  deriving DecidableEq, Repr, Inhabited

namespace WarningKind

def all : List WarningKind :=
  [.unsupportedRule, .unresolvedType, .membersUnavailable,
    .memberSkipped, .unsupportedType]

def code : WarningKind → String
  | .unsupportedRule => "unsupported_validation_rule"
  | .unresolvedType => "unresolved_type"
  | .membersUnavailable => "enum_members_unavailable"
  | .memberSkipped => "enum_member_skipped"
  | .unsupportedType => "unsupported_type"

def ofCode? (s : String) : Option WarningKind :=
  all.find? fun k => k.code == s

theorem ofCode?_code (k : WarningKind) :
    ofCode? k.code = some k := by
  cases k <;> decide

end WarningKind

/- A finding that does not stop the work. -/
structure Warning where
  kind : WarningKind
  message : String
  place : Option SourcePlace := none
  typeName : Option String := none
  deriving DecidableEq, Repr, Inhabited

/- The warning as a person reads it. -/
def Warning.text (w : Warning) : String :=
  let place :=
    match w.place with
    | some p => p.text ++ ": "
    | none => ""
  "[" ++ w.kind.code ++ "] " ++ place ++ w.message

------------------------------------------------------------
-- Schemas
------------------------------------------------------------

/- The version of the documents that hold schemas. -/
def schemaVersion : Nat := 1

structure Schema where
  version : Nat := schemaVersion
  types : List WireType := []
  services : List Service := []
  warnings : List Warning := []
  deriving BEq, Repr, Inhabited

/- Why a schema or a type for it is refused. -/
inductive SchemaError where
  | unnamed (kindName : String)
  | version (found : Nat)
  | malformed
  deriving DecidableEq, Repr

def SchemaError.message : SchemaError → String
  | .unnamed kindName =>
      "only record, alias and enum descriptors can be added as "
        ++ "named types (got " ++ kindName ++ ")"
  | .version found =>
      "unsupported IR version " ++ toString found
        ++ " (expected " ++ toString schemaVersion ++ ")"
  | .malformed => "invalid IR document"

namespace Schema

/- The first declaration of a name. -/
def find? (s : Schema) (id : TypeName) : Option WireType :=
  s.types.find? fun t => t.id? == some id

def contains (s : Schema) (id : TypeName) : Bool :=
  (s.find? id).isSome

def findService? (s : Schema) (name : String) :
    Option Service :=
  s.services.find? fun v => v.name == name

/-
  Add a declaration at the end.  A name that is declared
  already is added again, for the validation to report.
-/
def addType (s : Schema) (t : WireType) :
    Except SchemaError Schema :=
  match t.id? with
  | some _ => .ok { s with types := s.types ++ [t] }
  | none => .error (.unnamed t.kindName)

def addService (s : Schema) (v : Service) : Schema :=
  { s with services := s.services ++ [v] }

def addWarning (s : Schema) (w : Warning) : Schema :=
  { s with warnings := s.warnings ++ [w] }

/- The declared names, in order of declaration. -/
def names (s : Schema) : List TypeName :=
  s.types.filterMap WireType.id?

/- A name is contained exactly when it is declared. -/
theorem contains_iff (s : Schema) (id : TypeName) :
    s.contains id = true ↔ id ∈ s.names := by
  simp [contains, find?, names, List.find?_isSome,
    List.mem_filterMap]

end Schema

end WireSchema
