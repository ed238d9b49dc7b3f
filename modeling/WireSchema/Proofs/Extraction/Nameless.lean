import Mathlib.Logic.Relation
import WireSchema.Proofs.Extraction.Lowering

/-
  Structs without a name, where a walk meets them.

  Such a struct is declared where it stands, by a name made
  of its place, unless something else has that name by then.
  What is entered on the way to the end of a walk comes to
  its own end, and nothing of it is lost later.

  Key definitions include:
    * `Walk.Completes`
    * `NamelessStruct`, `NamelessStruct.IsDeclared`
    * `NamelessStruct.Resolves`
-/

namespace WireSchema

variable {ι σ : Type}

------------------------------------------------------------
-- Parts of a Walk
------------------------------------------------------------

namespace Walk

variable {Part : Type}
variable {Inv : List TypeName → Walk ι σ → Prop}
variable {Ends : Part → Walk ι σ → Walk ι σ → Prop}

/-
  A part of a walk begins in a state and comes to an end,
  which a later state has in it.
-/
structure Completes
    (Inv : List TypeName → Walk ι σ → Prop)
    (Ends : Part → Walk ι σ → Walk ι σ → Prop)
    (later : Walk ι σ)
    (p : Part × Walk ι σ) : Prop where
  begins : ∃ pending, Inv pending p.2
  ends : ∃ y, Ends p.1 p.2 y ∧ y.Within later

/- A part that comes to its end is complete by then. -/
theorem Completes.of_ends
    {p : Part}
    {pending : List TypeName}
    {x y : Walk ι σ}
    (hBegins : Inv pending x)
    (hEnds : Ends p x y) : Completes Inv Ends y (p, x) :=
  ⟨⟨pending, hBegins⟩, y, hEnds, .refl y⟩

/-
  If each part that another one enters comes to its end
  before that one does, then so do the parts they enter.
-/
theorem completes_of_enters
    {Enters : Part × Walk ι σ → Part × Walk ι σ → Prop}
    {p q : Part × Walk ι σ}
    {z : Walk ι σ}
    (hStep : ∀ p q, Enters p q →
      ∀ pending y, Inv pending p.2 → Ends p.1 p.2 y →
        Completes Inv Ends y q)
    (hEnters : Relation.ReflTransGen Enters p q)
    (hp : Completes Inv Ends z p) :
    Completes Inv Ends z q := by
  induction hEnters with
  | refl => exact hp
  | tail hReached hEnter ih =>
      rcases ih with ⟨⟨pending, hInv⟩, y, hEnds, hyz⟩
      rcases hStep _ _ hEnter pending y hInv hEnds with
        ⟨hBegins, w, hEndsNext, hwy⟩
      exact ⟨hBegins, w, hEndsNext, hwy.trans hyz⟩

/-
  In a run that empties the queue, each item is declared from
  the state in which it comes first, and nothing of that is
  lost later.
-/
theorem run_item_of_drains
    {Allowed : ExtractionFault → Prop}
    {Ready : Walk ι σ → Prop}
    {declareItem : ι → WalkStep ι σ Unit}
    {bound : Nat}
    {i : ι}
    {spent rest : List ι}
    {x y z : Walk ι σ}
    (hStep : ∀ y i rest, Ready y → y.queue = i :: rest →
      Yields Allowed (declareItem i) { y with queue := rest }
        fun _ w => Ready w ∧ y.Within w)
    (hRun : (drain declareItem bound).run x = .ok ((), z))
    (hDrains : Drains declareItem x spent y)
    (hy : Ready y)
    (hQueue : y.queue = i :: rest) :
    ∃ w, (declareItem i).run { y with queue := rest } =
        .ok ((), w)
      ∧ w.Within z := by
  rcases hDrains.run_drain hRun with ⟨_, hNext⟩
  rcases run_drain_cons hQueue hNext with ⟨_, w, hItem, hRest⟩
  have hw := ((hStep y i rest hy hQueue).of_run_ok hItem).1
  let Later := fun (u : Walk ι σ) => Ready u ∧ w.Within u
  have hKept : ∀ u i rest, Later u → u.queue = i :: rest →
      Yields Allowed (declareItem i) { u with queue := rest }
        fun _ v => Later v := by
    rintro u i rest ⟨hu, hwu⟩ hQueue
    apply (hStep u i rest hu hQueue).imp
    rintro _ v ⟨hv, huv⟩
    exact ⟨hv, hwu.trans huv⟩
  have hLater := of_run_drain Later hKept ⟨hw, .refl w⟩ hRest
  exact ⟨w, hItem, hLater.2⟩

end Walk

------------------------------------------------------------
-- Structs without a Name
------------------------------------------------------------

/-
  A struct without a name: the name made of its place, the
  step that lowers it, and the step that lowers its fields.
-/
structure NamelessStruct (ι σ : Type) where
  id : TypeName
  lowered : WalkStep ι σ WireType
  members : WalkStep ι σ Members
  source : Option SourcePlace := none

namespace NamelessStruct

open Walk

variable {a : NamelessStruct ι σ}
variable {x y z : Walk ι σ}

/-
  The name stands in a schema for the record of exactly the
  fields and parents of this struct, lowered where the struct
  has been met.
-/
def IsDeclared
    (a : NamelessStruct ι σ)
    (x : Walk ι σ)
    (s : Schema) : Prop :=
  ∃ fields parents y,
    a.members.run { x with taken := a.id :: x.taken } =
        .ok ((fields, parents), y)
      ∧ s.find? a.id =
        some
          (.record
            { id := a.id, fields, parents, source := a.source })

/-
  What becomes of a struct that is met in a state.  There is
  a reference to its name, which the schema declares.  If the
  name has been free, it stands for the struct.  The step is
  done at once, without a look at the fields, exactly when
  the name has been taken.
-/
structure Resolves
    (a : NamelessStruct ι σ)
    (x : Walk ι σ)
    (s : Schema) : Prop where
  reference : ∃ y, a.lowered.run x = .ok (.reference a.id, y)
  contained : a.id ∈ s.names
  free : a.id ∉ x.taken → a.IsDeclared x s
  taken :
    a.id ∈ x.taken ↔
      a.lowered.run x = .ok (.reference a.id, x)

/- The step that every struct without a name is lowered by. -/
def step (a : NamelessStruct ι σ) : WalkStep ι σ WireType := do
  if ← takeName a.id then
    let (fields, parents) ← a.members
    declare
      (.record { id := a.id, fields, parents, source := a.source })
  pure (.reference a.id)

theorem run_of_mem
    (hStep : a.lowered = a.step)
    (hTaken : a.id ∈ x.taken) :
    a.lowered.run x = .ok (.reference a.id, x) := by
  rw [hStep]
  unfold step
  rw [StateT.run_bind, run_takeName_of_mem hTaken]
  rfl

/-
  With the name free the fields are lowered, and a record of
  them is declared.
-/
theorem run_of_not_mem
    {t : WireType}
    (hStep : a.lowered = a.step)
    (hFree : a.id ∉ x.taken)
    (hRun : a.lowered.run x = .ok (t, y)) :
    ∃ fields parents z,
      a.members.run { x with taken := a.id :: x.taken } =
          .ok ((fields, parents), z)
        ∧ z.Within y
        ∧ .record
            { id := a.id, fields, parents, source := a.source }
          ∈ y.schema.types
        ∧ t = .reference a.id := by
  have hTake := run_takeName_of_not_mem hFree
  rw [hStep] at hRun
  unfold step at hRun
  rcases run_bind_eq_ok hRun with ⟨free, _, hSame, hRun⟩
  rw [hTake] at hSame
  cases hSame
  simp only [if_true] at hRun
  rcases run_bind_eq_ok hRun with
    ⟨⟨fields, parents⟩, z, hMembers, hRun⟩
  rcases run_bind_eq_ok hRun with ⟨_, _, hDeclared, hEnd⟩
  cases hEnd
  have hLater := within_of_run_declare hDeclared
  exact ⟨fields, parents, z, hMembers, hLater.1, hLater.2, rfl⟩

/- Whatever the state is, the result is the reference. -/
theorem eq_reference_of_run
    {t : WireType}
    (hStep : a.lowered = a.step)
    (hRun : a.lowered.run x = .ok (t, y)) :
    t = .reference a.id := by
  by_cases hTaken : a.id ∈ x.taken
  · rw [run_of_mem hStep hTaken] at hRun
    cases hRun
    rfl
  · rcases run_of_not_mem hStep hTaken hRun with
      ⟨_, _, _, _, _, _, hReference⟩
    exact hReference

/- A struct whose step has come to its end resolves. -/
theorem resolves
    {idOf : ι → TypeName}
    {bound : WireType → Prop}
    {t : WireType}
    (hStep : a.lowered = a.step)
    (hRun : a.lowered.run x = .ok (t, y))
    (hGood : t.IsPlainOver y.taken)
    (hWithin : y.Within z)
    (hSound : Sound idOf bound [] z)
    (hQueue : z.queue = []) : a.Resolves x z.schema := by
  have hReference := eq_reference_of_run hStep hRun
  rw [hReference] at hRun hGood
  have hName : a.id ∈ y.taken :=
    (WireType.isPlainOver_reference a.id).mp hGood
  constructor
  case reference => exact ⟨y, hRun⟩
  case contained =>
    have hTaken := hWithin.taken hName
    exact (hSound.taken_perm hQueue).mem_iff.mp hTaken
  case free =>
    intro hFree
    rcases run_of_not_mem hStep hFree hRun with
      ⟨fields, parents, w, hMembers, -, hDeclared, -⟩
    refine ⟨fields, parents, w, hMembers, ?_⟩
    have hDistinct := (hSound.isComplete hQueue).distinct
    have hLast := hWithin.types.subset hDeclared
    exact Schema.find?_eq_some hDistinct hLast rfl
  case taken =>
    constructor
    · exact run_of_mem hStep
    · intro hDone
      rw [hDone] at hRun
      cases hRun
      exact hName

/- What is not a record stands for no struct. -/
theorem not_isDeclared
    {s : Schema}
    {t : WireType}
    (hDistinct : s.names.Nodup)
    (ht : t ∈ s.types)
    (hId : t.id? = some a.id)
    (hKind : ∀ d, t ≠ .record d) : ¬a.IsDeclared x s := by
  rintro ⟨fields, parents, y, -, hFound⟩
  rw [Schema.find?_eq_some hDistinct ht hId] at hFound
  exact hKind _ (Option.some.inj hFound)

end NamelessStruct

end WireSchema
