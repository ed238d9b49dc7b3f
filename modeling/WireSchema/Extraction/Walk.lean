import WireSchema.Extraction.Basic

/-
  The walk from the types that a request asks for to all that
  they need.

  An item is what a declaration is made from.  Items are put
  in a queue when something first needs them and declared
  when their turn comes; no name is declared twice.

  Key definitions include:
    * `Walk`, `WalkStep`
    * `Walk.takeName`, `Walk.claim`, `Walk.enqueue`
    * `Walk.drain`
-/

namespace WireSchema

------------------------------------------------------------
-- State
------------------------------------------------------------

/-
  The work done and to do.  `taken` holds every name that has
  been given to a declaration, `claims` the item that each
  claimed name stands for, `memory` what else is known.
-/
structure Walk (ι σ : Type) where
  schema : Schema := {}
  taken : List TypeName := []
  claims : List (TypeName × ι) := []
  queue : List ι := []
  memory : σ
  deriving Inhabited

/- Steps of a walk, which may fail. -/
abbrev WalkStep (ι σ : Type) :=
  StateT (Walk ι σ) (Except ExtractionFault)

namespace Walk

variable {ι σ : Type}

def fault {α : Type} (e : ExtractionFault) : WalkStep ι σ α :=
  fun _ => .error e

------------------------------------------------------------
-- Declarations
------------------------------------------------------------

/- Add a warning unless it has been given already. -/
def note (w : Warning) : WalkStep ι σ Unit :=
  modify fun x => { x with schema := x.schema.note w }

def declare (t : WireType) : WalkStep ι σ Unit := do
  let x ← get
  match x.schema.addType t with
  | .ok schema => set { x with schema }
  | .error e => fault (.badType e)

------------------------------------------------------------
-- Names
------------------------------------------------------------

/- Take a name, and say whether it was free. -/
def takeName (id : TypeName) : WalkStep ι σ Bool := do
  let x ← get
  if x.taken.contains id then pure false
  else
    set { x with taken := id :: x.taken }
    pure true

/-
  Let a name stand for an item.  A name that stands for
  another one already is a fault, which shows both.
-/
def claim [BEq ι] (shown : ι → String) (id : TypeName) (i : ι) :
    WalkStep ι σ Unit := do
  let x ← get
  match x.claims.lookup id with
  | some first =>
      if first == i then pure ()
      else fault (.nameClash id (shown first) (shown i))
  | none => set { x with claims := (id, i) :: x.claims }

/- Put an item in the queue unless its name is taken. -/
def enqueue (id : TypeName) (i : ι) : WalkStep ι σ Unit := do
  if ← takeName id then
    modify fun x => { x with queue := x.queue ++ [i] }

/-
  Declare what is in the queue until it is empty.  The bound
  is on the number of declarations.
-/
def drain (declareItem : ι → WalkStep ι σ Unit) :
    Nat → WalkStep ι σ Unit
  | 0 => do
      let x ← get
      if x.queue.isEmpty then pure () else fault .unfinished
  | bound + 1 => do
      let x ← get
      match x.queue with
      | [] => pure ()
      | i :: rest => do
          set { x with queue := rest }
          declareItem i
          drain declareItem bound

/- The schema at the end of a walk. -/
def finish (memory : σ) (steps : WalkStep ι σ Unit) :
    Except ExtractionFault Schema := do
  let (_, x) ← steps.run { memory }
  .ok x.schema

end Walk

end WireSchema
