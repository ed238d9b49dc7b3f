import WireSchema.Schema.Basic

/-
  Settings of the emitters and the files they produce.

  Key definitions include:
    * `EmitOptions`
    * `OutputFile`
    * `EmitError`
-/

namespace WireSchema

------------------------------------------------------------
-- Settings
------------------------------------------------------------

/- How an enumeration is declared. -/
inductive EnumStyle where
  | taggedUnion
  | nativeEnum
  | flatConstants
  deriving DecidableEq, Repr, Inhabited

/- What stands for the value of an absent field. -/
inductive AbsentMark where
  | undefined
  | null
  deriving DecidableEq, Repr, Inhabited

/- Which comments reach the emitted code. -/
inductive CommentPolicy where
  | all
  | typesOnly
  | none
  deriving DecidableEq, Repr, Inhabited

/-
  The base name is the stem of the base file and of every
  validator file.
-/
structure EmitOptions where
  enumStyle : EnumStyle := .taggedUnion
  absentMark : AbsentMark := .undefined
  comments : CommentPolicy := .all
  singleFile : Bool := true
  strippedPaths : List String := []
  baseTypes : Bool := true
  baseName : String := "types"
  deriving DecidableEq, Repr, Inhabited

namespace EmitOptions

/- Whether comments of declarations are written. -/
def typeComments (o : EmitOptions) : Bool :=
  o.comments != .none

/- Whether comments of fields and members are written. -/
def memberComments (o : EmitOptions) : Bool :=
  o.comments == .all

end EmitOptions

------------------------------------------------------------
-- Files
------------------------------------------------------------

/- A file, its path relative to the output directory. -/
structure OutputFile where
  path : String
  contents : String
  deriving DecidableEq, Repr, Inhabited

/- The first line of every emitted file. -/
def fileHeader : String :=
  "// Code generated by typebridge. DO NOT EDIT.\n"

------------------------------------------------------------
-- Errors
------------------------------------------------------------

/-
  Why something cannot be emitted: a form that has no place
  there, a name that is not declared, or a rule whose bound
  overflows.
-/
inductive EmitError where
  | unsupported (what : String)
  | unknownType (id : TypeName)
  | overflow
  deriving DecidableEq, Repr, Inhabited

def EmitError.message : EmitError → String
  | .unsupported what => what ++ " cannot be emitted here"
  | .unknownType id =>
      "reference to unknown type " ++ id.qualified
  | .overflow => "length bound exceeds 64 bits"

end WireSchema
