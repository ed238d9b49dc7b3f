import WireSchema.Source.Bound
import WireSchema.Source.Enumeration

/-
  Extracting a schema from the sources of a module.

  Key definitions include:
    * `ModuleView.require`, `ModuleView.requireSpace`
    * `ModuleView.declareInstance`
    * `FileTree.extractWithin`, `FileTree.extractSources`
-/

namespace WireSchema.Source

open Walk

namespace ModuleView

------------------------------------------------------------
-- Requests
------------------------------------------------------------

/- Ask for every exported type of a package. -/
def requireSpace (v : ModuleView) (space : String) :
    ModuleStep Unit := do
  match ← v.package? space with
  | none => fault (.unresolved space)
  | some p =>
      let wanted := p.types.filter fun d =>
        isExported d.name && !d.type.isInterface
      wanted.forM fun d => do
        let _ ← Instance.enqueue { space, name := d.name }

/- A named root is declared in a package of the module. -/
def checkRoot (v : ModuleView) (space name text : String) :
    ModuleStep Unit := do
  let package ←
    if space.isEmpty then pure none else v.package? space
  if (package.bind fun p => p.find? name).isSome then pure ()
  else fault (.unresolved text)

mutual

/- Ask for the types that a root is made of. -/
def require (v : ModuleView) : TypeExpr → ModuleStep Unit
  | .named space name args =>
      if (v.known.find? space name).isSome then pure ()
      else do
        v.checkRoot space name
          (TypeExpr.named space name args).text
        requireArgs v args
        let _ ← Instance.enqueue { space, name, args }
        pure ()
  | .pointer elem => require v elem
  | .slice elem => require v elem
  | .array _ elem => require v elem
  | .map key value => do
      require v key
      require v value
  | .builtin name =>
      if (builtinType? name).isSome then pure ()
      else fault (.unresolved name)
  | .param _ => pure ()

def requireArgs (v : ModuleView) :
    List TypeExpr → ModuleStep Unit
  | [] => pure ()
  | arg :: rest => do
      require v arg
      requireArgs v rest

end

------------------------------------------------------------
-- Declarations
------------------------------------------------------------

/- What does not resolve when arguments do not fit. -/
def arityText (i : Instance) (expected : Nat) : String :=
  i.id.qualified ++ " (expects " ++ toString expected
    ++ " type arguments, got " ++ toString i.args.length ++ ")"

/-
  What the parameters of a declaration stand for in an
  instance.  Without arguments they stand for themselves.
-/
def bindingsOf? (params : List String) (args : List TypeExpr) :
    Option (List (String × Binding)) :=
  if args.isEmpty then
    some (params.map fun p => (p, .itself)).reverse
  else if args.length = params.length then
    some (params.zip (args.map Binding.argument)).reverse
  else none

/-
  The parameters of a declaration with their bounds, which
  lie no deeper inside each other than a limit says.
-/
def lowerParams
    (v : ModuleView)
    (depth : Nat)
    (x : SourceScope) :
    List SourceParam → ModuleStep (List (TypeParam WireType))
  | [] => pure []
  | p :: rest => do
      let bound ← v.lowerBound depth x p.bound
      let more ← lowerParams v depth x rest
      pure ({ name := p.name, bound } :: more)

/-
  The enum that a declaration is, or else a synonym of what
  it stands for.
-/
def lowerSynonym
    (v : ModuleView)
    (x : SourceScope)
    (id : TypeName)
    (params : List (TypeParam WireType))
    (d : TypeSource) :
    Option WireType → ModuleStep WireType
  | some t => pure t
  | none => do
      let target ← v.lower x id.name d.type
      pure
        (.synonym
          { id, params, target
            doc := d.doc
            source := some d.place })

/- The wire type that a declaration declares. -/
def lowerDecl
    (v : ModuleView)
    (x : SourceScope)
    (id : TypeName)
    (params : List (TypeParam WireType))
    (d : TypeSource) : ModuleStep WireType :=
  match d.type with
  | .struct fields => do
      let (fields, parents) ← v.lowerFields x id fields
      pure
        (.record
          { id, params, fields, parents
            doc := d.doc
            source := some d.place })
  | _ => do
      let enum? ←
        if params.isEmpty && !d.isSynonym then
          enumeration x.package id d
        else pure none
      v.lowerSynonym x id params d enum?

/- Declare an instance of a declaration. -/
def declareInstance
    (v : ModuleView)
    (depth : Nat)
    (i : Instance) : ModuleStep Unit := do
  let package ← v.package? i.space
  match package, package.bind fun p => p.find? i.name with
  | some p, some (file, d) =>
      match bindingsOf? (d.params.map (·.name)) i.args with
      | none => fault (.unresolved (arityText i d.params.length))
      | some bindings => do
          let x : SourceScope :=
            { package := p, file, bindings, place := d.place }
          let params ←
            if i.args.isEmpty then
              v.lowerParams depth x d.params
            else pure []
          let t ← v.lowerDecl x i.id params d
          declare t
  | _, _ => fault (.unresolved (i.space ++ "." ++ i.name))

/-
  All that a request asks for, in order, in so many
  declarations at most.
-/
def walk
    (v : ModuleView)
    (depth count : Nat)
    (r : ExtractionRequest) : ModuleStep Unit := do
  r.scope.forM v.requireSpace
  r.roots.forM v.require
  drain (v.declareInstance depth) count

end ModuleView

end WireSchema.Source

------------------------------------------------------------
-- Extraction
------------------------------------------------------------

namespace WireSchema

open Source

namespace FileTree

/-
  The schema of the types that a request asks for, from the
  sources of the module in a directory, if no more than so
  many declarations make it and no bounds lie deeper inside
  each other than that.
-/
def extractWithin
    (t : FileTree)
    (read : SourceReader)
    (root : String)
    (known : WellKnown)
    (depth count : Nat) : Extractor :=
  fun r => do
    r.check
    let module ← ModuleSource.open? t root
    Walk.finish []
      (ModuleView.walk { read, tree := t, module, known }
        depth count r)

/-
  No chain of bounds is longer than all sources together,
  unless it turns in a circle.
-/
def boundDepth (t : FileTree) : Nat :=
  2 * t.size + 2

/-
  The number of declarations in one extraction.  A generic
  type that needs ever larger instances of itself has no end.
-/
def declarationLimit : Nat := 1000000

/- Extraction from texts, with the limits that it runs with. -/
def extractSources
    (t : FileTree)
    (root : String)
    (known : WellKnown) : Extractor :=
  t.extractWithin FileSource.parse? root known t.boundDepth
    declarationLimit

end FileTree

end WireSchema
