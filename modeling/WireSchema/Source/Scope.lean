import WireSchema.Source.Package
import WireSchema.TypeExpr.Builtin

/-
  The meaning of names in a declaration: parameters of the
  declaration, types of its package, imported packages and
  predeclared types.

  Key definitions include:
    * `SourceScope`
    * `SourceScope.resolve?`
-/

namespace WireSchema.Source

/- A parameter stands for itself or for an argument. -/
inductive Binding where
  | itself
  | argument (e : TypeExpr)
  deriving BEq, Repr, Inhabited

/-
  What surrounds a type in the source.  Of two parameters
  with one name the first in the list counts.
-/
structure SourceScope where
  package : PackageSource
  file : FileSource
  bindings : List (String × Binding) := []
  place : SourcePlace
  deriving BEq, Repr, Inhabited

namespace SourceScope

def binds (x : SourceScope) (name : String) : Bool :=
  (x.bindings.lookup name).isSome

def declares (x : SourceScope) (name : String) : Bool :=
  (x.package.find? name).isSome

/- The path of the package that a file calls by a name. -/
def import? (x : SourceScope) (package : String) :
    Option String :=
  x.file.imports.lookup package

/- The type that a name stands for. -/
def resolveName? (x : SourceScope) (name : String) :
    Option TypeExpr :=
  match x.bindings.lookup name with
  | some .itself => some (.param name)
  | some (.argument e) => some e
  | none =>
      if x.declares name then
        some (.named x.package.path name [])
      else if (builtinType? name).isSome then
        some (.builtin name)
      else none

mutual

/-
  A source type as a type expression, if it is one: no name
  is unknown, and no part has a form of its own.
-/
def resolve? (x : SourceScope) : SourceType → Option TypeExpr
  | .ident name => x.resolveName? name
  | .qualified package name =>
      (x.import? package).map fun path => .named path name []
  | .generic base args =>
      match resolve? x base, resolveTypes? x args with
      | some (.named space name _), some args =>
          some (.named space name args)
      | _, _ => none
  | .pointer elem => (resolve? x elem).map .pointer
  | .slice elem => (resolve? x elem).map .slice
  | .array (some len) elem =>
      (resolve? x elem).map (.array len)
  | .array none _ => none
  | .map key value => do
      let key ← resolve? x key
      let value ← resolve? x value
      some (.map key value)
  | .interface [] false => some (.builtin "interface\x7b\x7d")
  | .struct [] => some (.builtin "struct\x7b\x7d")
  | _ => none

def resolveTypes? (x : SourceScope) :
    List SourceType → Option (List TypeExpr)
  | [] => some []
  | t :: rest => do
      let t ← resolve? x t
      let rest ← resolveTypes? x rest
      some (t :: rest)

end

/- Whether a type is that of a byte. -/
def isByte (x : SourceScope) : SourceType → Bool
  | .ident name => isByteName name && !x.binds name
  | _ => false

end SourceScope

end WireSchema.Source
