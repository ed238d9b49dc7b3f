import WireSchema.Schema.Basic
import WireSchema.Text.Quoted

/-
  What can be wrong with a schema.

  Key definitions include:
    * `Violation`
    * `Violation.code`, `message`, `owner?`
    * `InvalidSchema`
-/

namespace WireSchema

/- The part of an endpoint that a type stands in. -/
inductive BodyRole where
  | request
  | response
  deriving DecidableEq, Repr, Inhabited

def BodyRole.word : BodyRole → String
  | .request => "request"
  | .response => "response"

/-
  A violation holds the names it is about.  A cycle of
  inheritance is the walk from a name along parents back to
  that name.
-/
inductive Violation where
  | duplicateType (id : TypeName)
  | stringEncoding (record : TypeName) (field form : String)
  | unknownParent (record parent : TypeName)
  | circularInheritance (start : TypeName) (walk : List TypeName)
  | unknownReference (owner target : TypeName)
  | unknownBodyReference
      (endpoint : String)
      (role : BodyRole)
      (target : TypeName)
  | duplicateEndpoint (service endpoint : String)
  | fullName (found expected : String)
  | path (endpoint found expected : String)
  | strayUnion (owner : TypeName)
  | strayBodyUnion (endpoint : String)
  deriving DecidableEq, Repr, Inhabited

namespace Violation

/- The kind of a violation. -/
def code : Violation → String
  | .duplicateType _ => "duplicate_type"
  | .stringEncoding .. => "invalid_string_encoded"
  | .unknownParent .. => "missing_extends_reference"
  | .circularInheritance .. => "circular_inheritance"
  | .unknownReference .. => "missing_type_reference"
  | .unknownBodyReference .. => "missing_type_reference"
  | .duplicateEndpoint .. => "duplicate_endpoint"
  | .fullName .. => "invalid_fullname"
  | .path .. => "invalid_path"
  | .strayUnion _ => "illegal_union"
  | .strayBodyUnion _ => "illegal_union"

def strayUnionText (owner : String) : String :=
  owner ++ " uses a union outside of a type-parameter constraint"

def message : Violation → String
  | .duplicateType id =>
      "type " ++ id.qualified ++ " is defined more than once"
  | .stringEncoding record field form =>
      "field " ++ record.name ++ "." ++ field
        ++ " is string-encoded but has non-scalar type " ++ form
  | .unknownParent record parent =>
      record.qualified ++ " extends unknown type "
        ++ parent.qualified
  | .circularInheritance start walk =>
      "circular inheritance: "
        ++ Text.joinWith " -> "
          ((walk ++ [start]).map TypeName.name)
  | .unknownReference owner target =>
      owner.qualified ++ " references unknown type "
        ++ target.qualified
  | .unknownBodyReference endpoint role target =>
      endpoint ++ " " ++ role.word ++ " references unknown type "
        ++ target.qualified
  | .duplicateEndpoint service endpoint =>
      "endpoint " ++ endpoint
        ++ " is declared more than once in service " ++ service
  | .fullName found expected =>
      "endpoint full name " ++ Text.shown found ++ " should be "
        ++ Text.shown expected
  | .path endpoint found expected =>
      "endpoint " ++ endpoint ++ " has path " ++ Text.shown found
        ++ ", expected " ++ Text.shown expected
  | .strayUnion owner => strayUnionText owner.qualified
  | .strayBodyUnion endpoint => strayUnionText endpoint

/- The declaration that a violation is found in. -/
def owner? : Violation → Option TypeName
  | .duplicateType id => some id
  | .stringEncoding record _ _ => some record
  | .unknownParent record _ => some record
  | .circularInheritance start _ => some start
  | .unknownReference owner _ => some owner
  | .strayUnion owner => some owner
  | _ => none

/- The violation as a person reads it. -/
def text (v : Violation) : String :=
  v.code ++ ": " ++ v.message

end Violation

/- All violations of a schema that has some. -/
structure InvalidSchema where
  first : Violation
  rest : List Violation
  deriving DecidableEq, Repr, Inhabited

namespace InvalidSchema

def all (x : InvalidSchema) : List Violation :=
  x.first :: x.rest

def message (x : InvalidSchema) : String :=
  x.first.text ++ " (" ++ toString x.all.length
    ++ " violation(s) in total)"

end InvalidSchema

end WireSchema
