import WireSchema.Emit.Names

/-
  The order in which declarations are emitted: what a
  declaration depends on comes first, unless a cycle of
  dependencies prevents it.

  Key definitions include:
    * `WireType.dependencies`
    * `Schema.visit`: depth-first search
    * `Schema.emitOrder`
-/

namespace WireSchema

/- The parents of a record, and all names referred to. -/
def WireType.dependencies (t : WireType) : List TypeName :=
  match t with
  | .record d => d.parents ++ t.references
  | _ => t.references

namespace Schema

/- The last declaration of a name. -/
def findLast? (s : Schema) (id : TypeName) : Option WireType :=
  s.types.reverse.find? fun t => t.id? == some id

/- A search under way: names seen, declarations finished. -/
structure Search where
  seen : List TypeName := []
  finished : List WireType := []
  deriving Inhabited

/-
  Visit a name and, before it is finished, what it depends
  on.  Each visit sees a new name, so the search is never
  deeper than the number of declarations.
-/
def visit (s : Schema) : Nat → Search → TypeName → Search
  | 0, state, _ => state
  | depth + 1, state, id =>
      if state.seen.contains id then state
      else
        match s.findLast? id with
        | none => state
        | some t =>
            let entered := { state with seen := id :: state.seen }
            let left :=
              t.dependencies.foldl (visit s depth) entered
            { left with finished := left.finished ++ [t] }

/- The name a type is sought under among roots. -/
def rootName (names : EmittedNames) (id : TypeName) : String :=
  (names.find? id).getD id.name

/- The declared names by emitted name. -/
def roots (s : Schema) (names : EmittedNames) :
    List TypeName :=
  let upTo := fun a b =>
    let x := rootName names a
    let y := rootName names b
    if x != y then decide (x < y) else a.upTo b
  sortUpTo upTo (sortNames s.names)

/-
  The declarations in the order of their emission.  The roots
  are visited by emitted name, so that the order in which
  types were found does not matter.
-/
def emitOrder (s : Schema) (names : EmittedNames) :
    List WireType :=
  ((s.roots names).foldl (s.visit (s.types.length + 1))
    {}).finished

end Schema

end WireSchema
