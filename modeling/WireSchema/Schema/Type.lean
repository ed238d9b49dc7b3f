import WireSchema.Schema.Name
import WireSchema.Number.Decimal
import WireSchema.Text.Quoted

/-
  The types of a wire schema.

  A type is a declaration (record, synonym, enumeration) or
  an expression over declared names.  Declarations stand in
  the list of a schema; expressions stand inside them.

  Key definitions include:
    * `BaseKind`, `Literal`
    * `RecordDecl`, `SynonymDecl`, `EnumDecl`
    * `WireType`
    * `WireType.id?`, `WireType.target`
    * `WireType.walk`, `WireType.references`
-/

namespace WireSchema

------------------------------------------------------------
-- Base Kinds
------------------------------------------------------------

inductive BaseKind where
  | bool
  | int
  | uint
  | float
  | string
  | bytes
  | time
  | duration
  | any
  | empty
  deriving DecidableEq, Repr, Inhabited

namespace BaseKind

def all : List BaseKind :=
  [.bool, .int, .uint, .float, .string, .bytes, .time,
    .duration, .any, .empty]

def name : BaseKind → String
  | .bool => "bool"
  | .int => "int"
  | .uint => "uint"
  | .float => "float"
  | .string => "string"
  | .bytes => "bytes"
  | .time => "time"
  | .duration => "duration"
  | .any => "any"
  | .empty => "empty"

/- The kind of a name. -/
def ofName? (s : String) : Option BaseKind :=
  all.find? fun k => k.name == s

theorem ofName?_name (k : BaseKind) :
    ofName? k.name = some k := by
  cases k <;> decide

/- The kinds that may travel as a string on the wire. -/
def isScalar : BaseKind → Bool
  | .bool | .int | .uint | .float | .string => true
  | _ => false

def isNumeric : BaseKind → Bool
  | .int | .uint | .float => true
  | _ => false

end BaseKind

------------------------------------------------------------
-- Literals
------------------------------------------------------------

/- The values that an enumeration may list. -/
inductive Literal where
  | text (s : String)
  | int (n : Int)
  | float (x : Binary64)
  deriving DecidableEq, Repr, Inhabited

namespace Literal

def isText : Literal → Bool
  | .text _ => true
  | _ => false

/- The literal in emitted code. -/
def code : Literal → String
  | .text s => Text.quote s
  | .int n => toString n
  | .float x => x.positionalText

end Literal

------------------------------------------------------------
-- Declarations
------------------------------------------------------------

structure TypeParam (τ : Type) where
  name : String
  bound : Option τ := none
  deriving BEq, DecidableEq, Repr, Inhabited

/-
  A field of a record.  An optional field may be absent from
  the wire, a string-encoded one holds a scalar that travels
  as a string, and a skipped one never travels.
-/
structure Field (τ : Type) where
  name : String
  type : τ
  wireName : String
  optional : Bool := false
  stringEncoded : Bool := false
  skip : Bool := false
  rules : String := ""
  doc : Doc := {}
  deriving BEq, DecidableEq, Repr, Inhabited

structure RecordDecl (τ : Type) where
  id : TypeName
  params : List (TypeParam τ) := []
  fields : List (Field τ) := []
  parents : List TypeName := []
  doc : Doc := {}
  source : Option SourcePlace := none
  deriving BEq, DecidableEq, Repr, Inhabited

/- A name for a type expression. -/
structure SynonymDecl (τ : Type) where
  id : TypeName
  params : List (TypeParam τ) := []
  target : τ
  doc : Doc := {}
  source : Option SourcePlace := none
  deriving BEq, DecidableEq, Repr, Inhabited

structure EnumMember where
  name : String
  value : Literal
  doc : Doc := {}
  deriving DecidableEq, Repr, Inhabited

/- A closed set of literals. -/
structure EnumDecl where
  id : TypeName
  members : List EnumMember := []
  doc : Doc := {}
  source : Option SourcePlace := none
  deriving DecidableEq, Repr, Inhabited

------------------------------------------------------------
-- Types
------------------------------------------------------------

/-
  An array of length zero is one that grows.  A pointer is on
  the wire but may be null.  Unions only make sense as bounds
  of type parameters.
-/
inductive WireType where
  | record (decl : RecordDecl WireType)
  | synonym (decl : SynonymDecl WireType)
  | enum (decl : EnumDecl)
  | base (kind : BaseKind) (bits : Nat)
  | array (elem : WireType) (len : Nat)
  | map (key value : WireType)
  | reference (id : TypeName)
  | pointer (elem : WireType)
  | union (members : List WireType)
  | param (p : TypeParam WireType)
  deriving BEq, Repr, Inhabited

namespace WireType

def any : WireType :=
  .base .any 0

/- The answer of an endpoint that sends nothing back. -/
def nullAnswer : WireType :=
  .pointer (.base .empty 0)

def isNullAnswer : WireType → Bool
  | .pointer (.base .empty _) => true
  | _ => false

/- The name of a declaration; expressions have none. -/
def id? : WireType → Option TypeName
  | .record d => some d.id
  | .synonym d => some d.id
  | .enum d => some d.id
  | _ => none

def doc? : WireType → Option Doc
  | .record d => some d.doc
  | .synonym d => some d.doc
  | .enum d => some d.doc
  | _ => none

def source? : WireType → Option SourcePlace
  | .record d => d.source
  | .synonym d => d.source
  | .enum d => d.source
  | _ => none

/- The word for the form of a type in documents. -/
def kindName : WireType → String
  | .record _ => "record"
  | .synonym _ => "alias"
  | .enum _ => "enum"
  | .base .. => "primitive"
  | .array .. => "array"
  | .map .. => "map"
  | .reference _ => "reference"
  | .pointer _ => "pointer"
  | .union _ => "union"
  | .param _ => "typeParameter"

/- The type behind any number of pointers. -/
def target : WireType → WireType
  | .pointer elem => target elem
  | t => t

def isPointer : WireType → Bool
  | .pointer _ => true
  | _ => false

/- Growable arrays and maps, which have an empty value. -/
def isContainer : WireType → Bool
  | .array _ len => len == 0
  | .map .. => true
  | _ => false

/- The scalar kind behind any number of pointers. -/
def scalarKind? (t : WireType) : Option BaseKind :=
  match t.target with
  | .base kind _ => if kind.isScalar then some kind else none
  | _ => none

/- No pointer is left in front of the target of a type. -/
theorem isPointer_target (t : WireType) :
    t.target.isPointer = false := by
  fun_induction target t with
  | case1 elem ih => exact ih
  | case2 t h =>
      cases t <;> first | rfl | exact absurd rfl (h _)

------------------------------------------------------------
-- Parts
------------------------------------------------------------

mutual

/-
  The type and all types inside it, each one before its
  parts: bounds of parameters, then fields or the target.
-/
def walk : WireType → List WireType
  | .record ⟨id, params, fields, parents, doc, source⟩ =>
      .record ⟨id, params, fields, parents, doc, source⟩
        :: (walkParams params ++ walkFields fields)
  | .synonym ⟨id, params, body, doc, source⟩ =>
      .synonym ⟨id, params, body, doc, source⟩
        :: (walkParams params ++ walk body)
  | .enum d => [.enum d]
  | .base kind bits => [.base kind bits]
  | .array elem len => .array elem len :: walk elem
  | .map key value => .map key value :: (walk key ++ walk value)
  | .reference id => [.reference id]
  | .pointer elem => .pointer elem :: walk elem
  | .union members => .union members :: walkTypes members
  | .param p => .param p :: walkParam p

def walkTypes : List WireType → List WireType
  | [] => []
  | t :: rest => walk t ++ walkTypes rest

def walkParams : List (TypeParam WireType) → List WireType
  | [] => []
  | p :: rest => walkParam p ++ walkParams rest

def walkParam : TypeParam WireType → List WireType
  | ⟨_, bound⟩ => walkBound bound

def walkBound : Option WireType → List WireType
  | none => []
  | some t => walk t

def walkFields : List (Field WireType) → List WireType
  | [] => []
  | f :: rest => walkField f ++ walkFields rest

def walkField : Field WireType → List WireType
  | ⟨_, t, _, _, _, _, _, _⟩ => walk t

end

/- A type is the first of its parts. -/
theorem walk_eq_cons (t : WireType) :
    t.walk = t :: t.walk.tail := by
  cases t with
  | record d =>
      rcases d with ⟨id, params, fields, parents, doc, source⟩
      rw [walk, List.tail_cons]
  | synonym d =>
      rcases d with ⟨id, params, body, doc, source⟩
      rw [walk, List.tail_cons]
  | _ => rw [walk, List.tail_cons]

theorem self_mem_walk (t : WireType) : t ∈ t.walk := by
  rw [walk_eq_cons]
  exact List.mem_cons_self

/- The name that a reference refers to. -/
@[simp] def referent? : WireType → Option TypeName
  | .reference id => some id
  | _ => none

/- The names that a type refers to, in order. -/
def references (t : WireType) : List TypeName :=
  t.walk.filterMap referent?

end WireType

end WireSchema
