import WireSchema.Emit.Order
import WireSchema.TypeExpr.Instance

/-
  The parts of a type.

  The parts that `walk` lists are described form by form, and
  so are the names that a type refers to.

  A type is tight if no pointer to a type that has an empty
  value is left in it.  To see whether it is, the names in a
  type do not matter, so that it may be compared with an
  outline that has any value in their place.

  Key definitions include:
    * `WireType.inductionOnParts`
    * `WireType.boundWalk`, `WireType.boundReferences`
    * `WireType.IsTight`
    * `WireType.Outlines`
-/

namespace WireSchema

namespace WireType

------------------------------------------------------------
-- Induction
------------------------------------------------------------

section Induction

variable {P : WireType → Prop}
variable
  (hRecord :
    ∀ d : RecordDecl WireType,
      (∀ p ∈ d.params, ∀ b ∈ p.bound, P b) →
      (∀ f ∈ d.fields, P f.type) → P (.record d))
  (hSynonym :
    ∀ d : SynonymDecl WireType,
      (∀ p ∈ d.params, ∀ b ∈ p.bound, P b) →
      P d.target → P (.synonym d))
  (hEnum : ∀ d, P (.enum d))
  (hBase : ∀ kind bits, P (.base kind bits))
  (hArray : ∀ elem len, P elem → P (.array elem len))
  (hMap : ∀ key value, P key → P value → P (.map key value))
  (hReference : ∀ id, P (.reference id))
  (hPointer : ∀ elem, P elem → P (.pointer elem))
  (hUnion :
    ∀ members, (∀ t ∈ members, P t) → P (.union members))
  (hParam :
    ∀ p : TypeParam WireType,
      (∀ b ∈ p.bound, P b) → P (.param p))

include hRecord hSynonym hEnum hBase hArray hMap hReference
  hPointer hUnion hParam

/-
  What passes from the parts of a type to the type holds of
  every type.  The parts in lists are taken member by member.
-/
theorem inductionOnParts (t : WireType) : P t := by
  refine @WireType.rec P
    (fun d => P (.record d))
    (fun d => P (.synonym d))
    (fun ts => ∀ t ∈ ts, P t)
    (fun p => ∀ b ∈ p.bound, P b)
    (fun ps => ∀ p ∈ ps, ∀ b ∈ p.bound, P b)
    (fun fs => ∀ f ∈ fs, P f.type)
    (fun bound => ∀ b ∈ bound, P b)
    (fun f => P f.type)
    (fun _ h => h) (fun _ h => h) hEnum hBase hArray hMap
    hReference hPointer hUnion hParam
    ?record ?synonym ?noType ?type ?bound ?noParam ?param
    ?noField ?field ?noBound ?someBound ?fieldType t
  case record =>
    intro id params fields parents doc source hParams hFields
    exact hRecord _ hParams hFields
  case synonym =>
    intro id params target doc source hParams hTarget
    exact hSynonym _ hParams hTarget
  case bound =>
    intro name bound hBound
    exact hBound
  case fieldType =>
    intro name type wireName optional encoded skip rules doc h
    exact h
  case type =>
    intro head tail hHead hTail
    exact List.forall_mem_cons.mpr ⟨hHead, hTail⟩
  case param =>
    intro head tail hHead hTail
    exact List.forall_mem_cons.mpr ⟨hHead, hTail⟩
  case field =>
    intro head tail hHead hTail
    exact List.forall_mem_cons.mpr ⟨hHead, hTail⟩
  case someBound =>
    intro val hVal b hb
    rwa [← Option.mem_some.mp hb]
  all_goals simp

end Induction

------------------------------------------------------------
-- Parts by Form
------------------------------------------------------------

/- The parts of the bound of a parameter, if it has one. -/
def boundWalk (p : TypeParam WireType) : List WireType :=
  p.bound.elim [] walk

theorem walkTypes_eq (ts : List WireType) :
    walkTypes ts = ts.flatMap walk := by
  induction ts with
  | nil => simp [walkTypes]
  | cons t rest ih => simp [walkTypes, ih]

theorem walkParam_eq (p : TypeParam WireType) :
    walkParam p = boundWalk p := by
  rcases p with ⟨name, _ | bound⟩
  · simp [walkParam, walkBound, boundWalk]
  · simp [walkParam, walkBound, boundWalk]

theorem walkParams_eq (ps : List (TypeParam WireType)) :
    walkParams ps = ps.flatMap boundWalk := by
  induction ps with
  | nil => simp [walkParams]
  | cons p rest ih => simp [walkParams, walkParam_eq, ih]

theorem walkFields_eq (fs : List (Field WireType)) :
    walkFields fs = fs.flatMap fun f => f.type.walk := by
  induction fs with
  | nil => simp [walkFields]
  | cons f rest ih =>
      rcases f with ⟨name, type, wireName⟩
      simp [walkFields, walkField, ih]

@[simp] theorem walk_record (d : RecordDecl WireType) :
    (record d).walk =
      record d :: (d.params.flatMap boundWalk
        ++ d.fields.flatMap fun f => f.type.walk) := by
  simp [walk, walkParams_eq, walkFields_eq]

@[simp] theorem walk_synonym (d : SynonymDecl WireType) :
    (synonym d).walk =
      synonym d
        :: (d.params.flatMap boundWalk ++ d.target.walk) := by
  simp [walk, walkParams_eq]

@[simp] theorem walk_enum (d : EnumDecl) :
    (enum d).walk = [enum d] := by
  simp [walk]

@[simp] theorem walk_base (kind : BaseKind) (bits : Nat) :
    (base kind bits).walk = [base kind bits] := by
  simp [walk]

@[simp] theorem walk_array (elem : WireType) (len : Nat) :
    (array elem len).walk = array elem len :: elem.walk := by
  simp [walk]

@[simp] theorem walk_map (key value : WireType) :
    (map key value).walk =
      map key value :: (key.walk ++ value.walk) := by
  simp [walk]

@[simp] theorem walk_reference (id : TypeName) :
    (reference id).walk = [reference id] := by
  simp [walk]

@[simp] theorem walk_pointer (elem : WireType) :
    (pointer elem).walk = pointer elem :: elem.walk := by
  simp [walk]

@[simp] theorem walk_union (members : List WireType) :
    (union members).walk =
      union members :: members.flatMap walk := by
  simp [walk, walkTypes_eq]

@[simp] theorem walk_param (p : TypeParam WireType) :
    (param p).walk = param p :: boundWalk p := by
  simp [walk, walkParam_eq]

------------------------------------------------------------
-- References by Form
------------------------------------------------------------

/- The names that the bound of a parameter refers to. -/
def boundReferences (p : TypeParam WireType) :
    List TypeName :=
  p.bound.elim [] references

theorem filterMap_boundWalk (p : TypeParam WireType) :
    (boundWalk p).filterMap referent? = boundReferences p := by
  rcases p with ⟨name, _ | bound⟩
  · simp [boundWalk, boundReferences]
  · simp [boundWalk, boundReferences, references]

@[simp] theorem references_record (d : RecordDecl WireType) :
    (record d).references =
      d.params.flatMap boundReferences
        ++ d.fields.flatMap fun f => f.type.references := by
  simp [references, referent?, List.filterMap_cons,
    List.filterMap_flatMap, filterMap_boundWalk]

@[simp] theorem references_synonym (d : SynonymDecl WireType) :
    (synonym d).references =
      d.params.flatMap boundReferences
        ++ d.target.references := by
  simp [references, referent?, List.filterMap_cons,
    List.filterMap_flatMap, filterMap_boundWalk]

@[simp] theorem references_enum (d : EnumDecl) :
    (enum d).references = [] := by
  simp [references, referent?]

@[simp] theorem references_base (kind : BaseKind) (bits : Nat) :
    (base kind bits).references = [] := by
  simp [references, referent?]

@[simp] theorem references_array (elem : WireType) (len : Nat) :
    (array elem len).references = elem.references := by
  simp [references, referent?, List.filterMap_cons]

@[simp] theorem references_map (key value : WireType) :
    (map key value).references =
      key.references ++ value.references := by
  simp [references, referent?, List.filterMap_cons]

@[simp] theorem references_reference (id : TypeName) :
    (reference id).references = [id] := by
  simp [references, referent?]

@[simp] theorem references_pointer (elem : WireType) :
    (pointer elem).references = elem.references := by
  simp [references, referent?, List.filterMap_cons]

@[simp] theorem references_union (members : List WireType) :
    (union members).references =
      members.flatMap references := by
  simp only [references, walk_union, List.filterMap_cons,
    referent?, List.filterMap_flatMap]
  rfl

@[simp] theorem references_param (p : TypeParam WireType) :
    (param p).references = boundReferences p := by
  simp [references, referent?, List.filterMap_cons,
    filterMap_boundWalk]

/- What the target of a type refers to, the type does too. -/
theorem mem_references_of_target
    {t : WireType}
    {id : TypeName}
    (hTarget : t.target.referent? = some id) :
    id ∈ t.references := by
  fun_induction target t with
  | case1 elem ih =>
      rw [references_pointer]
      exact ih hTarget
  | case2 t hNotPointer =>
      cases t <;> simp_all [referent?]

/- A collapsed pointer refers to what the pointer did. -/
@[simp] theorem references_collapse (t : WireType) :
    t.collapse.references = t.references := by
  unfold collapse
  split
  · split
    · simp
    · rfl
  · rfl

------------------------------------------------------------
-- Tight Types
------------------------------------------------------------

/- No pointer in a type is one that `collapse` drops. -/
def IsTight (t : WireType) : Prop :=
  ∀ u ∈ t.walk, u.collapses = false

instance (t : WireType) : Decidable t.IsTight :=
  inferInstanceAs (Decidable (∀ u ∈ t.walk, u.collapses = false))

@[simp] theorem isTight_base (kind : BaseKind) (bits : Nat) :
    (base kind bits).IsTight := by
  simp [IsTight, walk, collapses]

@[simp] theorem isTight_reference (id : TypeName) :
    (reference id).IsTight := by
  simp [IsTight, walk, collapses]

@[simp] theorem isTight_param (name : String) :
    (param { name }).IsTight := by
  simp [IsTight, walk, walkParam, walkBound, collapses]

@[simp] theorem isTight_array (elem : WireType) (len : Nat) :
    (array elem len).IsTight ↔ elem.IsTight := by
  simp [IsTight, walk, collapses]

@[simp] theorem isTight_map (key value : WireType) :
    (map key value).IsTight ↔ key.IsTight ∧ value.IsTight := by
  simp [IsTight, walk, collapses, or_imp, forall_and]

@[simp] theorem isTight_pointer (elem : WireType) :
    (pointer elem).IsTight ↔
      elem.isGrowable = false ∧ elem.IsTight := by
  simp [IsTight, walk, collapses]

/- No pointer to drop is left in front of a type. -/
theorem collapses_collapse (t : WireType) :
    t.collapse.collapses = false := by
  cases t with
  | pointer elem =>
      cases hElem : elem.isGrowable with
      | true =>
          simp only [collapse, hElem, if_true]
          cases elem <;>
            simp_all [isGrowable, isContainer, collapses]
      | false => simp [collapse, hElem, collapses]
  | _ => rfl

/- Of a pointer, only what it points to has to be tight. -/
@[simp] theorem isTight_collapse_pointer (elem : WireType) :
    (pointer elem).collapse.IsTight ↔ elem.IsTight := by
  cases hElem : elem.isGrowable with
  | true => simp [collapse, hElem]
  | false => simp [collapse, hElem]

------------------------------------------------------------
-- Outlines
------------------------------------------------------------

/- The first type is the second with its names left out. -/
inductive Outlines : WireType → WireType → Prop where
  | base (kind : BaseKind) (bits : Nat) :
      Outlines (.base kind bits) (.base kind bits)
  | reference (id : TypeName) : Outlines .any (.reference id)
  | param (name : String) : Outlines .any (.param { name })
  | array
      {o t : WireType}
      (len : Nat)
      (hElem : Outlines o t) :
      Outlines (.array o len) (.array t len)
  | map
      {o p t u : WireType}
      (hKey : Outlines o t)
      (hValue : Outlines p u) :
      Outlines (.map o p) (.map t u)
  | pointer
      {o t : WireType}
      (hElem : Outlines o t) :
      Outlines (.pointer o) (.pointer t)

theorem outlines_any : Outlines any any :=
  .base .any 0

namespace Outlines

variable {o t : WireType}

theorem isGrowable_eq (h : o.Outlines t) :
    t.isGrowable = o.isGrowable := by
  cases h with
  | base kind bits => rfl
  | reference id => rfl
  | param name => rfl
  | array len hElem => rfl
  | map hKey hValue => rfl
  | pointer hElem => rfl

theorem collapses_eq (h : o.Outlines t) :
    t.collapses = o.collapses := by
  cases h with
  | pointer hElem => exact hElem.isGrowable_eq
  | _ => rfl

theorem isTight_iff (h : o.Outlines t) :
    t.IsTight ↔ o.IsTight := by
  induction h with
  | base kind bits => rfl
  | reference id => simp [any]
  | param name => simp [any]
  | array len hElem ih => simpa using ih
  | map hKey hValue ihKey ihValue => simp [ihKey, ihValue]
  | pointer hElem ih => simp [ih, hElem.isGrowable_eq]

theorem collapse (h : o.Outlines t) :
    o.collapse.Outlines t.collapse := by
  cases h with
  | base kind bits => exact .base kind bits
  | reference id => exact .reference id
  | param name => exact .param name
  | array len hElem => exact .array len hElem
  | map hKey hValue => exact .map hKey hValue
  | pointer hElem =>
      simp only [WireType.collapse, hElem.isGrowable_eq]
      split
      · exact hElem
      · exact .pointer hElem

end Outlines

/- The types of predeclared and of well-known names. -/
theorem outlines_of_builtinType?
    {name : String}
    {t : WireType}
    (h : builtinType? name = some t) : t.Outlines t := by
  unfold builtinType? at h
  rcases Option.map_eq_some_iff.mp h with ⟨p, -, rfl⟩
  exact .base p.1 p.2

theorem outlines_builtin (name : String) :
    ((builtinType? name).getD any).Outlines
      ((builtinType? name).getD any) := by
  cases h : builtinType? name with
  | none => exact outlines_any
  | some t => exact outlines_of_builtinType? h

theorem outlines_of_find?
    {known : WellKnown}
    {space name : String}
    {t : WireType}
    (h : known.find? space name = some t) : t.Outlines t := by
  unfold WellKnown.find? at h
  rcases Option.map_eq_some_iff.mp h with ⟨kind, -, rfl⟩
  exact .base kind _

end WireType

end WireSchema
