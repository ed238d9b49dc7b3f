import WireSchema.Source.Scope
import WireSchema.Source.Shown
import WireSchema.Source.Walk

/-
  The wire types of source types.

  A named type becomes a reference and is put in the queue.
  A struct without a name is declared on the spot, under a
  name made of where it stands.  What has no wire form
  becomes any value, with a warning.

  Key definitions include:
    * `ModuleView.lowerExpr`
    * `ModuleView.isStruct`
    * `ModuleView.lower`, `ModuleView.lowerFields`
-/

namespace WireSchema.Source

open Walk

------------------------------------------------------------
-- Type Expressions
------------------------------------------------------------

mutual

/- Whether a parameter is left in an expression. -/
def hasParam : TypeExpr → Bool
  | .param _ => true
  | .named _ _ args => anyHasParam args
  | .pointer elem => hasParam elem
  | .slice elem => hasParam elem
  | .array _ elem => hasParam elem
  | .map key value => hasParam key || hasParam value
  | .builtin _ => false

def anyHasParam : List TypeExpr → Bool
  | [] => false
  | e :: rest => hasParam e || anyHasParam rest

end

/- A warning about a type that is not where it should be. -/
def missingType
    (space name reason : String)
    (place : SourcePlace) : Warning :=
  { Warning.unresolved { name, space } reason with
    place := some place }

namespace ModuleView

/-
  The wire type of a type that a package declares, if there
  is one.  An instance with parameters left in its arguments
  is the generic type itself, and an interface is any value.
-/
def lowerDeclared
    (place : SourcePlace)
    (space name : String)
    (args : List TypeExpr) :
    Option PackageSource → ModuleStep WireType
  | none => do
      note
        (missingType space name
          "is outside the module and has no type mapping"
          place)
      pure .any
  | some p =>
      match p.find? name with
      | none => do
          note
            (missingType space name
              "is not declared in its package" place)
          pure .any
      | some (_, d) =>
          if d.type.isInterface then pure .any
          else do
            let args := if anyHasParam args then [] else args
            let id ← Instance.enqueue { space, name, args }
            pure (.reference id)

/- The wire type of a named type. -/
def lowerNamed
    (v : ModuleView)
    (place : SourcePlace)
    (space name : String)
    (args : List TypeExpr) : ModuleStep WireType :=
  match v.known.find? space name with
  | some t => pure t
  | none => do
      let package ←
        if space.isEmpty then pure none else v.package? space
      lowerDeclared place space name args package

/- The wire type of a type expression. -/
def lowerExpr (v : ModuleView) (place : SourcePlace) :
    TypeExpr → ModuleStep WireType
  | .named space name args => v.lowerNamed place space name args
  | .pointer elem => do
      let elem ← lowerExpr v place elem
      pure (.pointer elem)
  | .slice (.builtin name) =>
      if isByteName name then pure (.base .bytes 0)
      else pure (.array ((builtinType? name).getD .any) 0)
  | .slice elem => do
      let elem ← lowerExpr v place elem
      pure (.array elem 0)
  | .array len elem => do
      let elem ← lowerExpr v place elem
      pure (.array elem len)
  | .map key value => do
      let key ← lowerExpr v place key
      let value ← lowerExpr v place value
      pure (.map key value)
  | .builtin name => pure ((builtinType? name).getD .any)
  | .param name => pure (.param { name })

------------------------------------------------------------
-- Names
------------------------------------------------------------

/- A type without a wire form, as any value. -/
def unsupported
    (x : SourceScope)
    (hint what : String) : ModuleStep WireType := do
  note
    { kind := .unsupportedType
      message :=
        what ++ " has no wire representation; emitted as any"
      place := some x.place
      typeName := some hint }
  pure .any

/- The wire type of what is made of names. -/
def lowerNames
    (v : ModuleView)
    (x : SourceScope)
    (hint : String)
    (t : SourceType) : ModuleStep WireType :=
  match x.resolve? t with
  | some e => v.lowerExpr x.place e
  | none => unsupported x hint t.shown

/- The wire type of a single name. -/
def lowerIdent
    (v : ModuleView)
    (x : SourceScope)
    (hint name : String) : ModuleStep WireType :=
  match x.resolveName? name with
  | some e => v.lowerExpr x.place e
  | none => unsupported x hint name

/- Whether a package declares a struct by a name. -/
def declaresStruct (p : PackageSource) (name : String) : Bool :=
  (p.find? name).any fun d => d.2.type.isStruct

/- Whether a type is a declared struct behind pointers. -/
def isStruct (v : ModuleView) (x : SourceScope) :
    SourceType → ModuleStep Bool
  | .pointer elem => isStruct v x elem
  | .generic base _ => isStruct v x base
  | .ident name => pure (declaresStruct x.package name)
  | .qualified package name =>
      match x.import? package with
      | none => pure false
      | some path => do
          let found ← v.package? path
          pure (found.any fun p => declaresStruct p name)
  | _ => pure false

/- The name that an embedded type lends to its field. -/
def embeddedName? : SourceType → Option String
  | .pointer elem => embeddedName? elem
  | .generic base _ => embeddedName? base
  | .ident name => some name
  | .qualified _ name => some name
  | _ => none

------------------------------------------------------------
-- Types
------------------------------------------------------------

mutual

/-
  The wire type of a source type.  The hint says where the
  type stands; structs without a name are named after it.
-/
def lower
    (v : ModuleView)
    (x : SourceScope)
    (hint : String) : SourceType → ModuleStep WireType
  | .struct fields => do
      let id : TypeName :=
        { name := syntheticName hint, space := x.package.path }
      if ← takeName id then
        let (fields, parents) ← lowerFields v x id fields
        declare
          (.record
            { id, fields, parents, source := some x.place })
      pure (.reference id)
  | .pointer elem => do
      let elem ← lower v x hint elem
      pure (.pointer elem)
  | .slice elem =>
      if x.isByte elem then pure (.base .bytes 0)
      else do
        let elem ← lower v x hint elem
        pure (.array elem 0)
  | .array len elem => do
      let elem ← lower v x hint elem
      pure (.array elem (len.getD 0))
  | .map key value => do
      let key ← lower v x hint key
      let value ← lower v x hint value
      pure (.map key value)
  | .interface .. => pure .any
  | .union _ => pure .any
  | .tilde _ => pure .any
  | .unsupported text => unsupported x hint text
  | .ident name => v.lowerIdent x hint name
  | .qualified package name =>
      v.lowerNames x hint (.qualified package name)
  | .generic base args =>
      v.lowerNames x hint (.generic base args)

/- The members of a struct that is declared by a name. -/
def lowerFields
    (v : ModuleView)
    (x : SourceScope)
    (owner : TypeName) :
    List (SourceField SourceType) → ModuleStep Members
  | [] => pure ([], [])
  | f :: rest => do
      let first ← lowerField v x owner f
      let more ← lowerFields v x owner rest
      pure (first.append more)

/-
  What a field adds to its struct.  An embedded struct
  without a wire name is a parent; a field that other
  packages do not see adds nothing.
-/
def lowerField
    (v : ModuleView)
    (x : SourceScope)
    (owner : TypeName) :
    SourceField SourceType → ModuleStep Members
  | ⟨names, type, tag, doc⟩ => do
      let facts := FieldFacts.ofTag tag
      let lowered := fun name => do
        let hint := owner.name ++ "_" ++ name
        let t ← lower v x hint type
        pure ([taggedField name facts t doc], [])
      match names, embeddedName? type with
      | [], none => pure ([], [])
      | [], some name => do
          if facts.wire.skip then pure ([], [])
          else do
            let parent? ←
              if facts.wire.name.isSome then pure none
              else do
                -- a package is read only if no wire name is given
                if ← v.isStruct x type then
                  let hint := owner.name ++ "_" ++ name
                  let t ← lower v x hint type
                  pure t.target.referent?
                else pure none
            match parent? with
            | some parent => pure ([], [parent])
            | none =>
                if isExported name then lowered name
                else pure ([], [])
      | names, _ => do
          let exported := names.filter isExported
          let parts ← exported.mapM lowered
          pure (parts.foldl Members.append ([], []))

end

end ModuleView

end WireSchema.Source
