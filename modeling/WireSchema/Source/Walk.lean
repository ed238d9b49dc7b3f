import WireSchema.Extraction.Walk
import WireSchema.Source.Module
import WireSchema.TypeExpr.Builtin
import WireSchema.TypeExpr.Instance

/-
  The walk through the packages of a module, which are read
  when something first needs them.

  Key definitions include:
    * `ModuleView`, `Instance`, `ModuleStep`
    * `ModuleView.load`, `ModuleView.package?`
    * `Instance.enqueue`
-/

namespace WireSchema.Source

/-
  A module, the files it is read from, what reads their texts
  and known types.
-/
structure ModuleView where
  read : SourceReader
  tree : FileTree
  module : ModuleSource
  known : WellKnown

/- A package of the module, from its files. -/
def ModuleView.load (v : ModuleView) (path : String) :
    Except ExtractionFault (Option PackageSource) :=
  v.module.load v.read v.tree path

------------------------------------------------------------
-- Instances
------------------------------------------------------------

/- A declared type with arguments for its parameters. -/
structure Instance where
  space : String
  name : String
  args : List TypeExpr := []
  deriving BEq, Repr, Inhabited

namespace Instance

/- The name that an instance is declared by. -/
def id (i : Instance) : TypeName :=
  TypeExpr.instanceName i.space i.name i.args

def text (i : Instance) : String :=
  (TypeExpr.named i.space i.name i.args).text

end Instance

------------------------------------------------------------
-- Steps
------------------------------------------------------------

/- The packages that have been read or looked for. -/
abbrev Loaded := List (String × Option PackageSource)

/- Steps of a walk through a module. -/
abbrev ModuleStep := WalkStep Instance Loaded

/-
  The name of an instance, which will be declared.  Only
  names that arguments are part of can clash.
-/
def Instance.enqueue (i : Instance) :
    ModuleStep TypeName := do
  if !i.args.isEmpty then Walk.claim text i.id i
  Walk.enqueue i.id i
  pure i.id

namespace ModuleView

/- A package of the module, read when first asked for. -/
def package? (v : ModuleView) (path : String) :
    ModuleStep (Option PackageSource) := do
  let x ← get
  match x.memory.lookup path with
  | some found => pure found
  | none => do
      let found ← liftM (v.load path)
      modify fun x =>
        { x with memory := (path, found) :: x.memory }
      pure found

end ModuleView

end WireSchema.Source
