import WireSchema.Emit.Order
import WireSchema.Proofs.Schema.Parts
import WireSchema.Validation.Basic

/-
  Types without declarations and unions inside them.

  Expressions hold no declaration, and plain types no union
  either.  A plain declaration is one whose parts are plain,
  the bounds of its parameters apart.

  Key definitions include:
    * `WireType.isUnion`
    * `WireType.IsExpression`, `WireType.IsPlain`
    * `WireType.IsPlainDecl`, `WireType.IsFlat`
    * `Schema.IsComplete`, `Schema.IsFlat`
-/

namespace WireSchema

namespace WireType

------------------------------------------------------------
-- Expressions
------------------------------------------------------------

/- A type with no declaration in it, itself included. -/
def IsExpression (t : WireType) : Prop :=
  ∀ u ∈ t.walk, u.id? = none

@[simp] theorem isExpression_base
    (kind : BaseKind)
    (bits : Nat) :
    (base kind bits).IsExpression := by
  simp [IsExpression, id?]

@[simp] theorem isExpression_array
    (elem : WireType)
    (len : Nat) :
    (array elem len).IsExpression ↔ elem.IsExpression := by
  simp [IsExpression, id?]

@[simp] theorem isExpression_map (key value : WireType) :
    (map key value).IsExpression ↔
      key.IsExpression ∧ value.IsExpression := by
  simp [IsExpression, id?, or_imp, forall_and]

@[simp] theorem isExpression_reference (id : TypeName) :
    (reference id).IsExpression := by
  simp [IsExpression, id?]

@[simp] theorem isExpression_pointer (elem : WireType) :
    (pointer elem).IsExpression ↔ elem.IsExpression := by
  simp [IsExpression, id?]

@[simp] theorem isExpression_union (members : List WireType) :
    (union members).IsExpression ↔
      ∀ t ∈ members, t.IsExpression := by
  simp only [IsExpression, walk_union, List.forall_mem_cons,
    List.mem_flatMap, id?, true_and]
  constructor
  · intro h t ht u hu
    exact h u ⟨t, ht, hu⟩
  · rintro h u ⟨t, ht, hu⟩
    exact h t ht u hu

/- A declaration is no expression. -/
theorem IsExpression.id?_eq_none
    {t : WireType}
    (h : t.IsExpression) : t.id? = none :=
  h t (self_mem_walk t)

------------------------------------------------------------
-- Plain Types
------------------------------------------------------------

@[simp] def isUnion : WireType → Bool
  | .union _ => true
  | _ => false

/- An expression with no union in it. -/
def IsPlain (t : WireType) : Prop :=
  t.IsExpression ∧ ∀ u ∈ t.walk, u.isUnion = false

@[simp] theorem isPlain_base (kind : BaseKind) (bits : Nat) :
    (base kind bits).IsPlain := by
  simp [IsPlain, isUnion]

@[simp] theorem isPlain_array (elem : WireType) (len : Nat) :
    (array elem len).IsPlain ↔ elem.IsPlain := by
  simp [IsPlain, isUnion]

@[simp] theorem isPlain_map (key value : WireType) :
    (map key value).IsPlain ↔
      key.IsPlain ∧ value.IsPlain := by
  simp [IsPlain, isUnion, or_imp, forall_and,
    and_and_and_comm]

@[simp] theorem isPlain_reference (id : TypeName) :
    (reference id).IsPlain := by
  simp [IsPlain, isUnion]

@[simp] theorem isPlain_pointer (elem : WireType) :
    (pointer elem).IsPlain ↔ elem.IsPlain := by
  simp [IsPlain, isUnion]

/- A parameter without a bound has no parts. -/
@[simp] theorem isPlain_param_free (name : String) :
    (param { name }).IsPlain := by
  simp [IsPlain, IsExpression, isUnion, id?, boundWalk]

/- A plain type stays plain when its pointer collapses. -/
theorem IsPlain.collapse
    {t : WireType}
    (h : t.IsPlain) : t.collapse.IsPlain := by
  unfold WireType.collapse
  split
  · split
    · exact (isPlain_pointer _).mp h
    · exact h
  · exact h

------------------------------------------------------------
-- Plain Declarations
------------------------------------------------------------

/- Every parameter with a bound has one of a kind. -/
def BoundsSatisfy
    (bound : WireType → Prop)
    (params : List (TypeParam WireType)) : Prop :=
  ∀ p ∈ params, ∀ b ∈ p.bound, bound b

/-
  A declaration whose parameters have bounds of a kind and
  whose other parts are plain.
-/
def IsPlainDecl (bound : WireType → Prop) : WireType → Prop
  | .record d =>
      BoundsSatisfy bound d.params
        ∧ ∀ f ∈ d.fields, f.type.IsPlain
  | .synonym d =>
      BoundsSatisfy bound d.params ∧ d.target.IsPlain
  | .enum _ => True
  | _ => False

/- What holds in all bounds holds of each part of a bound. -/
theorem of_mem_boundWalk
    {bound P : WireType → Prop}
    {params : List (TypeParam WireType)}
    (hBounds : BoundsSatisfy bound params)
    (hParts : ∀ b, bound b → ∀ u ∈ b.walk, P u)
    {u : WireType}
    (hu : u ∈ params.flatMap boundWalk) : P u := by
  rcases List.mem_flatMap.mp hu with ⟨p, hp, hu⟩
  rcases p with ⟨name, _ | b⟩
  · simp [boundWalk] at hu
  · exact hParts b (hBounds _ hp b rfl) u hu

/-
  What holds in the bounds and in plain types holds of every
  part of a plain declaration.
-/
theorem IsPlainDecl.of_mem_walk
    {bound P : WireType → Prop}
    {t : WireType}
    (hDecl : t.IsPlainDecl bound)
    (hBound : ∀ b, bound b → ∀ u ∈ b.walk, P u)
    (hPlain : ∀ v : WireType, v.IsPlain → ∀ u ∈ v.walk, P u)
    {u : WireType}
    (hu : u ∈ t.walk.tail) : P u := by
  cases t with
  | record d =>
      rw [walk_record, List.tail_cons, List.mem_append] at hu
      rcases hu with hu | hu
      · exact of_mem_boundWalk hDecl.1 hBound hu
      · rcases List.mem_flatMap.mp hu with ⟨f, hf, hu⟩
        exact hPlain f.type (hDecl.2 f hf) u hu
  | synonym d =>
      rw [walk_synonym, List.tail_cons, List.mem_append] at hu
      rcases hu with hu | hu
      · exact of_mem_boundWalk hDecl.1 hBound hu
      · exact hPlain d.target hDecl.2 u hu
  | enum d => simp at hu
  | _ => exact hDecl.elim

/-
  No declaration stands inside a plain one whose bounds are
  expressions.
-/
theorem IsPlainDecl.id?_eq_none
    {bound : WireType → Prop}
    {t u : WireType}
    (hDecl : t.IsPlainDecl bound)
    (hBound : ∀ b, bound b → b.IsExpression)
    (hu : u ∈ t.walk.tail) : u.id? = none :=
  hDecl.of_mem_walk (P := fun u => u.id? = none)
    hBound (fun _ h => h.1) hu

/- There is no union where none is in a bound. -/
theorem IsPlainDecl.isUnion_eq_false
    {bound : WireType → Prop}
    {t u : WireType}
    (hDecl : t.IsPlainDecl bound)
    (hBound : ∀ b, bound b → b.IsPlain)
    (hu : u ∈ t.walk) : u.isUnion = false := by
  rw [walk_eq_cons, List.mem_cons] at hu
  rcases hu with rfl | hu
  · cases u with
    | union members => exact hDecl.elim
    | _ => rfl
  · have hPlain : ∀ v : WireType, v.IsPlain →
        ∀ u ∈ v.walk, u.isUnion = false :=
      fun _ h => h.2
    exact hDecl.of_mem_walk
      (fun b hb => hPlain b (hBound b hb)) hPlain hu

/- A plain declaration is a declaration. -/
theorem IsPlainDecl.isSome_id?
    {bound : WireType → Prop}
    {t : WireType}
    (hDecl : t.IsPlainDecl bound) : t.id?.isSome = true := by
  cases t with
  | record d => rfl
  | synonym d => rfl
  | enum d => rfl
  | _ => exact hDecl.elim

------------------------------------------------------------
-- Flat Types
------------------------------------------------------------

/- A type with no declaration inside it. -/
def IsFlat (t : WireType) : Prop :=
  ∀ u ∈ t.walk.tail, u.id? = none

/- Bounds without declarations in them are expressions. -/
theorem boundsSatisfy_isExpression
    {params : List (TypeParam WireType)}
    (h : ∀ u ∈ params.flatMap boundWalk, u.id? = none) :
    BoundsSatisfy IsExpression params := by
  intro p hp b hb u hu
  apply h
  rw [List.mem_flatMap]
  refine ⟨p, hp, ?_⟩
  rw [boundWalk, Option.mem_def.mp hb]
  exact hu

theorem IsFlat.record
    {d : RecordDecl WireType}
    (h : (record d).IsFlat) :
    BoundsSatisfy IsExpression d.params
      ∧ ∀ f ∈ d.fields, f.type.IsExpression := by
  unfold IsFlat at h
  rw [walk_record, List.tail_cons, List.forall_mem_append] at h
  refine ⟨boundsSatisfy_isExpression h.1, ?_⟩
  intro f hf u hu
  exact h.2 u (List.mem_flatMap.mpr ⟨f, hf, hu⟩)

theorem IsFlat.synonym
    {d : SynonymDecl WireType}
    (h : (synonym d).IsFlat) :
    BoundsSatisfy IsExpression d.params
      ∧ d.target.IsExpression := by
  unfold IsFlat at h
  rw [walk_synonym, List.tail_cons, List.forall_mem_append] at h
  exact ⟨boundsSatisfy_isExpression h.1, h.2⟩

------------------------------------------------------------
-- Stray Unions
------------------------------------------------------------

theorem strayInTypes_eq_zero
    {inBound : Bool}
    {ts : List WireType}
    (h : ∀ t ∈ ts, t.strayUnions inBound = 0) :
    strayInTypes inBound ts = 0 := by
  induction ts with
  | nil => simp [strayInTypes]
  | cons t rest ih =>
      rw [List.forall_mem_cons] at h
      simp [strayInTypes, h.1, ih h.2]

theorem strayInFields_eq_zero
    {inBound : Bool}
    {fs : List (Field WireType)}
    (h : ∀ f ∈ fs, f.type.strayUnions inBound = 0) :
    strayInFields inBound fs = 0 := by
  induction fs with
  | nil => simp [strayInFields]
  | cons f rest ih =>
      rw [List.forall_mem_cons] at h
      rcases f with ⟨name, type, wireName⟩
      have hType : type.strayUnions inBound = 0 := h.1
      simp [strayInFields, strayInField, hType, ih h.2]

/- A bound in which no union is stray adds none. -/
theorem strayInParam_eq_zero
    {p : TypeParam WireType}
    (h : ∀ b ∈ p.bound, strayUnions true b = 0) :
    strayInParam p = 0 := by
  rcases p with ⟨name, _ | b⟩
  · simp [strayInParam, strayInBound]
  · simp [strayInParam, strayInBound, h b rfl]

theorem strayInParams_of_bounds
    {ps : List (TypeParam WireType)}
    (h : ∀ p ∈ ps, ∀ b ∈ p.bound, strayUnions true b = 0) :
    strayInParams ps = 0 := by
  induction ps with
  | nil => simp [strayInParams]
  | cons p rest ih =>
      rw [List.forall_mem_cons] at h
      simp [strayInParams, strayInParam_eq_zero h.1, ih h.2]

/- No union inside a bound is stray. -/
theorem strayUnions_inBound (t : WireType) :
    strayUnions true t = 0 := by
  induction t using inductionOnParts with
  | hRecord d hParams hFields =>
      simp [strayUnions, strayInParams_of_bounds hParams,
        strayInFields_eq_zero hFields]
  | hSynonym d hParams hTarget =>
      simp [strayUnions, strayInParams_of_bounds hParams, hTarget]
  | hEnum d => simp [strayUnions]
  | hBase kind bits => simp [strayUnions]
  | hArray elem len hElem => simpa [strayUnions] using hElem
  | hMap key value hKey hValue =>
      simp [strayUnions, hKey, hValue]
  | hReference id => simp [strayUnions]
  | hPointer elem hElem => simpa [strayUnions] using hElem
  | hUnion members hMembers =>
      simp [strayUnions, strayInTypes_eq_zero hMembers]
  | hParam p hBound =>
      simpa [strayUnions] using strayInParam_eq_zero hBound

/- The bounds of parameters hold no stray union. -/
theorem strayInParams_eq_zero (ps : List (TypeParam WireType)) :
    strayInParams ps = 0 :=
  strayInParams_of_bounds fun _ _ b _ => strayUnions_inBound b

/- No union in a plain type is stray. -/
theorem IsPlain.strayUnions_eq_zero
    {t : WireType}
    (hPlain : t.IsPlain) : t.strayUnions false = 0 := by
  induction t using inductionOnParts with
  | hRecord d =>
      exact absurd hPlain.1.id?_eq_none (by simp [id?])
  | hSynonym d =>
      exact absurd hPlain.1.id?_eq_none (by simp [id?])
  | hEnum d => simp [strayUnions]
  | hBase kind bits => simp [strayUnions]
  | hArray elem len hElem =>
      simpa [strayUnions] using hElem (by simpa using hPlain)
  | hMap key value hKey hValue =>
      have hBoth := (isPlain_map key value).mp hPlain
      simp [strayUnions, hKey hBoth.1, hValue hBoth.2]
  | hReference id => simp [strayUnions]
  | hPointer elem hElem =>
      simpa [strayUnions] using hElem (by simpa using hPlain)
  | hUnion members =>
      have hSelf := hPlain.2 _ (self_mem_walk _)
      simp [isUnion] at hSelf
  | hParam p =>
      rw [strayUnions]
      exact strayInParam_eq_zero fun b _ =>
        strayUnions_inBound b

/- Unions in a plain declaration stand in bounds only. -/
theorem IsPlainDecl.strayUnions_eq_zero
    {bound : WireType → Prop}
    {t : WireType}
    (hDecl : t.IsPlainDecl bound) :
    t.strayUnions false = 0 := by
  cases t with
  | record d =>
      have hFields :
          ∀ f ∈ d.fields, f.type.strayUnions false = 0 :=
        fun f hf => (hDecl.2 f hf).strayUnions_eq_zero
      simp [strayUnions, strayInParams_eq_zero,
        strayInFields_eq_zero hFields]
  | synonym d =>
      simp [strayUnions, strayInParams_eq_zero,
        hDecl.2.strayUnions_eq_zero]
  | enum d => simp [strayUnions]
  | _ => exact hDecl.elim

end WireType

------------------------------------------------------------
-- Schemas
------------------------------------------------------------

/-
  Every declaration has a name of its own and depends on
  declared names only.
-/
structure Schema.IsComplete (s : Schema) : Prop where
  distinct : s.names.Nodup
  closed :
    ∀ t ∈ s.types, ∀ id ∈ t.dependencies, id ∈ s.names

namespace Schema

variable {s : Schema}

theorem mem_names_of_id?
    {id : TypeName}
    {t : WireType}
    (ht : t ∈ s.types)
    (hId : t.id? = some id) : id ∈ s.names :=
  List.mem_filterMap.mpr ⟨t, ht, hId⟩

/- Of distinct names each has one declaration. -/
theorem eq_of_id?_eq
    {id : TypeName}
    {t u : WireType}
    (hDistinct : s.names.Nodup)
    (ht : t ∈ s.types)
    (hu : u ∈ s.types)
    (hIdT : t.id? = some id)
    (hIdU : u.id? = some id) : t = u := by
  unfold names at hDistinct
  generalize s.types = types at *
  induction types with
  | nil => cases ht
  | cons first rest ih =>
      have hRest : (rest.filterMap WireType.id?).Nodup := by
        refine hDistinct.sublist ?_
        exact (List.sublist_cons_self first rest).filterMap _
      have hAlone : ∀ v ∈ rest, first.id? = some id →
          v.id? ≠ some id := by
        intro v hv hFirst hIdV
        rw [List.filterMap_cons_some hFirst,
          List.nodup_cons] at hDistinct
        exact hDistinct.1 (List.mem_filterMap.mpr ⟨v, hv, hIdV⟩)
      rcases List.mem_cons.mp ht with rfl | ht
      · rcases List.mem_cons.mp hu with rfl | hu
        · rfl
        · exact absurd hIdU (hAlone u hu hIdT)
      · rcases List.mem_cons.mp hu with hSame | hu
        · rw [hSame] at hIdU
          exact absurd hIdT (hAlone t ht hIdU)
        · exact ih hRest ht hu

/- With distinct names, each is found where it is declared. -/
theorem find?_eq_some
    {id : TypeName}
    {t : WireType}
    (hDistinct : s.names.Nodup)
    (ht : t ∈ s.types)
    (hId : t.id? = some id) : s.find? id = some t := by
  cases hFound : s.find? id with
  | none =>
      have hNone := List.find?_eq_none.mp hFound t ht
      simp [hId] at hNone
  | some u =>
      have hu := List.mem_of_find?_eq_some hFound
      have hIdU : u.id? = some id := by
        simpa using List.find?_some hFound
      rw [eq_of_id?_eq hDistinct ht hu hId hIdU]

end Schema

/-
  No declaration stands inside another one or in a body of an
  endpoint.
-/
structure Schema.IsFlat (s : Schema) : Prop where
  declared : ∀ t ∈ s.types, t.IsFlat
  sent :
    ∀ v ∈ s.services, ∀ e ∈ v.endpoints, ∀ b ∈ bodies e,
      b.2.IsExpression

end WireSchema
