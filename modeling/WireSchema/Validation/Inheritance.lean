import WireSchema.Validation.Violation

/-
  Cycles among the parents of records.

  The search goes along parents depth first.  A parent that
  is on the path already closes a cycle; every name is
  entered once.

  Key definitions include:
    * `Schema.parentsOf`
    * `Schema.cyclesFrom`
    * `Schema.inheritanceCycles`
-/

namespace WireSchema

/- A cycle: its start and the walk that leads back to it. -/
structure InheritanceCycle where
  start : TypeName
  walk : List TypeName
  deriving DecidableEq, Repr, Inhabited

namespace Schema

/- The parents that a declaration names. -/
def declaredParents (id : TypeName) :
    WireType → List TypeName
  | .record d => if d.id = id then d.parents else []
  | _ => []

/- The declared parents of the records of a name. -/
def parentsOf (s : Schema) (id : TypeName) : List TypeName :=
  (s.types.flatMap (declaredParents id)).filter s.contains

/- The names of records, in order. -/
def recordNames (s : Schema) : List TypeName :=
  sortNames
    (s.types.filterMap fun t =>
      match t with
      | .record d => some d.id
      | _ => none)

/- A search under way: names entered, cycles found. -/
structure CycleSearch where
  entered : List TypeName := []
  cycles : List InheritanceCycle := []
  deriving Inhabited

/-
  Search from a name, given the path that leads to it.  Each
  step enters a new declared name, so the path is never
  longer than there are declarations.
-/
def cyclesFrom (s : Schema) :
    Nat → List TypeName → CycleSearch → TypeName → CycleSearch
  | 0, _, state, _ => state
  | depth + 1, path, state, id =>
      if state.entered.contains id then state
      else
        let path := path ++ [id]
        let entered := { state with entered := id :: state.entered }
        (s.parentsOf id).foldl
          (fun state parent =>
            if path.contains parent then
              let cycle : InheritanceCycle :=
                { start := parent
                  walk := path.dropWhile fun n => n != parent }
              { state with cycles := state.cycles ++ [cycle] }
            else cyclesFrom s depth path state parent)
          entered

/- The cycles that the search meets. -/
def inheritanceCycles (s : Schema) : List InheritanceCycle :=
  (s.recordNames.foldl
    (s.cyclesFrom (s.types.length + 1) []) {}).cycles

end Schema

end WireSchema
