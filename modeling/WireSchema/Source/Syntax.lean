import WireSchema.Schema.Name
import WireSchema.Source.Constant

/-
  Declarations in source files.

  Key definitions include:
    * `SourceType`, `SourceField`
    * `TypeSource`, `ConstSource`, `FileSource`
    * `SourceType.isStruct`, `SourceType.isInterface`
-/

namespace WireSchema.Source

------------------------------------------------------------
-- Types
------------------------------------------------------------

/- A field; one without names is embedded. -/
structure SourceField (τ : Type) where
  names : List String
  type : τ
  tag : String := ""
  doc : Doc := {}
  deriving BEq, Repr, Inhabited

/-
  A type as it is written.  The length of an array is known
  when it is a literal; what is `unsupported` is kept as its
  text.
-/
inductive SourceType where
  | ident (name : String)
  | qualified (package name : String)
  | generic (base : SourceType) (args : List SourceType)
  | pointer (elem : SourceType)
  | slice (elem : SourceType)
  | array (len : Option Nat) (elem : SourceType)
  | map (key value : SourceType)
  | struct (fields : List (SourceField SourceType))
  | interface (elems : List SourceType) (hasMethods : Bool)
  | union (terms : List SourceType)
  | tilde (elem : SourceType)
  | unsupported (text : String)
  deriving BEq, Repr, Inhabited

def SourceType.isStruct : SourceType → Bool
  | .struct _ => true
  | _ => false

def SourceType.isInterface : SourceType → Bool
  | .interface .. => true
  | _ => false

/- Terms of a union; one alone is no union. -/
def SourceType.ofTerms : List SourceType → SourceType
  | [t] => t
  | ts => .union ts

------------------------------------------------------------
-- Declarations
------------------------------------------------------------

structure SourceParam where
  name : String
  bound : SourceType
  deriving BEq, Repr, Inhabited

/- A type declaration; a synonym is only another name. -/
structure TypeSource where
  name : String
  params : List SourceParam := []
  type : SourceType
  isSynonym : Bool := false
  doc : Doc := {}
  place : SourcePlace
  deriving BEq, Repr, Inhabited

/- A constant at a position in its group. -/
structure ConstSource where
  name : String
  type : Option String := none
  value : Option ConstExpr := none
  position : Nat := 0
  doc : Doc := {}
  place : SourcePlace
  deriving BEq, Repr, Inhabited

/- A source file; imports are in order of the local names. -/
structure FileSource where
  path : String
  package : String := ""
  imports : List (String × String) := []
  types : List TypeSource := []
  consts : List ConstSource := []
  deriving BEq, Repr, Inhabited

end WireSchema.Source
