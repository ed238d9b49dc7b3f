import WireSchema.TypeExpr.Reader
import WireSchema.TypeExpr.Instance

/-
  Catalogs of types as a running program reports them: the
  shapes of its types without declarations and constants.

  Key definitions include:
    * `Reflected`, `ReflectedField`
    * `Catalog`, `Catalog.find?`
    * `catalogName`: the name a reported type is declared by
-/

namespace WireSchema

------------------------------------------------------------
-- Reported Types
------------------------------------------------------------

/- A field of a reported struct. -/
structure ReflectedField (τ : Type) where
  name : String
  type : τ
  tag : String := ""
  embedded : Bool := false
  deriving BEq, Repr, Inhabited

/-
  The shape of a type.  A named type stands in the catalog or
  is a well-known one; `unsupported` is every form that has
  no place on the wire.
-/
inductive Reflected where
  | bool
  | int (bits : Nat)
  | uint (bits : Nat)
  | float (bits : Nat)
  | string
  | interface
  | slice (elem : Reflected)
  | array (len : Nat) (elem : Reflected)
  | map (key value : Reflected)
  | pointer (elem : Reflected)
  | struct (fields : List (ReflectedField Reflected))
  | named (space name : String)
  | unsupported
  deriving BEq, Repr, Inhabited

------------------------------------------------------------
-- Catalogs
------------------------------------------------------------

/-
  A named type.  The name of an instance of a generic type
  holds its arguments in brackets.
-/
structure CatalogEntry where
  space : String
  name : String
  shape : Reflected
  deriving BEq, Repr, Inhabited

structure Catalog where
  entries : List CatalogEntry := []
  deriving BEq, Repr, Inhabited

/- The first entry of a name. -/
def Catalog.find? (c : Catalog) (space name : String) :
    Option CatalogEntry :=
  c.entries.find? fun e => e.space == space && e.name == name

/-
  The name that a reported type is declared by.  Instances
  are named as those in routes are.
-/
def catalogName (space name : String) : TypeName :=
  if name.toList.contains '[' then
    match TypeExpr.parse name with
    | .ok (.named _ generic args) =>
        TypeExpr.instanceName space generic args
    | _ => { name := syntheticName name, space }
  else { name, space }

end WireSchema
