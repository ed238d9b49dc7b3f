import WireSchema.Emit.Declaration
import WireSchema.Proofs.Outcome
import WireSchema.Proofs.Schema.Plain

/-
  Declarations that can be written.

  An expression can be written if there is a name for all
  that it refers to, and a declaration if all of its parts
  can be written.

  Key definitions include:
    * `EmittedNames.Covers`
    * `EmittedNames.Expresses`, `EmittedNames.Declares`
    * `EmitScope.Serves`
-/

namespace WireSchema

namespace EmittedNames

variable {names : EmittedNames}

------------------------------------------------------------
-- Names
------------------------------------------------------------

/- There is a name for each of some types. -/
def Covers (names : EmittedNames) (ids : List TypeName) : Prop :=
  ∀ id ∈ ids, (names.find? id).isSome = true

------------------------------------------------------------
-- Expressions
------------------------------------------------------------

/- An expression over types that have names. -/
structure Expresses
    (names : EmittedNames)
    (t : WireType) : Prop where
  plain : t.IsExpression
  covered : names.Covers t.references

theorem Expresses.array
    {elem : WireType}
    {len : Nat}
    (h : names.Expresses (.array elem len)) :
    names.Expresses elem := by
  refine ⟨by simpa using h.plain, ?_⟩
  have hCovered := h.covered
  rwa [WireType.references_array] at hCovered

theorem Expresses.map
    {key value : WireType}
    (h : names.Expresses (.map key value)) :
    names.Expresses key ∧ names.Expresses value := by
  have hPlain := (WireType.isExpression_map _ _).mp h.plain
  have hCovered := h.covered
  unfold Covers at hCovered
  rw [WireType.references_map,
    List.forall_mem_append] at hCovered
  exact ⟨⟨hPlain.1, hCovered.1⟩, ⟨hPlain.2, hCovered.2⟩⟩

theorem Expresses.pointer
    {elem : WireType}
    (h : names.Expresses (.pointer elem)) :
    names.Expresses elem := by
  refine ⟨by simpa using h.plain, ?_⟩
  have hCovered := h.covered
  rwa [WireType.references_pointer] at hCovered

theorem Expresses.union
    {members : List WireType}
    (h : names.Expresses (.union members)) :
    ∀ t ∈ members, names.Expresses t := by
  intro t ht
  refine ⟨(WireType.isExpression_union _).mp h.plain t ht, ?_⟩
  intro id hId
  apply h.covered
  rw [WireType.references_union]
  exact List.mem_flatMap.mpr ⟨t, ht, hId⟩

theorem Expresses.reference
    {id : TypeName}
    (h : names.Expresses (.reference id)) :
    (names.find? id).isSome = true := by
  apply h.covered
  simp

/- The target behind pointers is an expression as well. -/
theorem Expresses.target
    {t : WireType}
    (h : names.Expresses t) : names.Expresses t.target := by
  fun_induction WireType.target t with
  | case1 elem ih => exact ih h.pointer
  | case2 t => exact h

/- An expression has no parents, so it depends on references. -/
theorem Expresses.covers_dependencies
    {t : WireType}
    (h : names.Expresses t) : names.Covers t.dependencies := by
  cases t with
  | record d =>
      exact absurd h.plain.id?_eq_none (by simp [WireType.id?])
  | _ => exact h.covered

------------------------------------------------------------
-- Declarations
------------------------------------------------------------

/- A declaration whose parts can all be written. -/
def Declares (names : EmittedNames) : WireType → Prop
  | .record d =>
      names.Covers (d.id :: d.parents)
        ∧ WireType.BoundsSatisfy names.Expresses d.params
        ∧ ∀ f ∈ d.fields, names.Expresses f.type
  | .synonym d =>
      names.Covers [d.id]
        ∧ WireType.BoundsSatisfy names.Expresses d.params
        ∧ names.Expresses d.target
  | .enum d => names.Covers [d.id]
  | _ => False

/- Bounds can be written if all they refer to has a name. -/
theorem boundsSatisfy_expresses
    {params : List (TypeParam WireType)}
    (hPlain :
      WireType.BoundsSatisfy WireType.IsExpression params)
    (hCovered :
      names.Covers (params.flatMap WireType.boundReferences)) :
    WireType.BoundsSatisfy names.Expresses params := by
  intro p hp b hb
  refine ⟨hPlain p hp b hb, ?_⟩
  intro id hId
  apply hCovered
  rw [List.mem_flatMap]
  refine ⟨p, hp, ?_⟩
  rw [WireType.boundReferences, Option.mem_def.mp hb]
  exact hId

/-
  A flat declaration can be written if it and all that it
  depends on have names.
-/
theorem declares_of_isFlat
    {t : WireType}
    {id : TypeName}
    (hId : t.id? = some id)
    (hFlat : t.IsFlat)
    (hCovered : names.Covers (id :: t.dependencies)) :
    names.Declares t := by
  unfold Covers at hCovered
  rw [List.forall_mem_cons] at hCovered
  cases t with
  | record d =>
      cases hId
      unfold WireType.dependencies at hCovered
      dsimp only at hCovered
      rw [List.forall_mem_append, WireType.references_record,
        List.forall_mem_append] at hCovered
      rcases hCovered with ⟨hSelf, hParents, hBounds, hFields⟩
      refine ⟨List.forall_mem_cons.mpr ⟨hSelf, hParents⟩,
        boundsSatisfy_expresses hFlat.record.1 hBounds, ?_⟩
      intro f hf
      refine ⟨hFlat.record.2 f hf, ?_⟩
      intro other hOther
      exact hFields other
        (List.mem_flatMap.mpr ⟨f, hf, hOther⟩)
  | synonym d =>
      cases hId
      unfold WireType.dependencies at hCovered
      dsimp only at hCovered
      rw [WireType.references_synonym,
        List.forall_mem_append] at hCovered
      rcases hCovered with ⟨hSelf, hBounds, hTarget⟩
      exact ⟨List.forall_mem_singleton.mpr hSelf,
        boundsSatisfy_expresses hFlat.synonym.1 hBounds,
        hFlat.synonym.2, hTarget⟩
  | enum d =>
      cases hId
      exact List.forall_mem_singleton.mpr hCovered.1
  | _ => cases hId

/- What can be written refers to what has names. -/
theorem covers_boundReferences
    {params : List (TypeParam WireType)}
    (h : WireType.BoundsSatisfy names.Expresses params) :
    names.Covers (params.flatMap WireType.boundReferences) := by
  intro id hId
  rcases List.mem_flatMap.mp hId with ⟨p, hp, hId⟩
  unfold WireType.boundReferences at hId
  cases hBound : p.bound with
  | none =>
      rw [hBound] at hId
      cases hId
  | some b =>
      rw [hBound] at hId
      exact (h p hp b hBound).covered id hId

/- A declaration that can be written depends on names. -/
theorem Declares.covers_dependencies
    {t : WireType}
    (h : names.Declares t) : names.Covers t.dependencies := by
  cases t with
  | record d =>
      rcases h with ⟨hNames, hBounds, hFields⟩
      unfold Covers WireType.dependencies
      dsimp only
      rw [WireType.references_record, List.forall_mem_append,
        List.forall_mem_append]
      refine ⟨(List.forall_mem_cons.mp hNames).2,
        covers_boundReferences hBounds, ?_⟩
      intro id hId
      rcases List.mem_flatMap.mp hId with ⟨f, hf, hId⟩
      exact (hFields f hf).covered id hId
  | synonym d =>
      rcases h with ⟨-, hBounds, hTarget⟩
      unfold Covers WireType.dependencies
      dsimp only
      rw [WireType.references_synonym, List.forall_mem_append]
      exact ⟨covers_boundReferences hBounds, hTarget.covered⟩
  | enum d =>
      unfold Covers WireType.dependencies
      simp
  | _ => exact h.elim

end EmittedNames

namespace EmitScope

variable {x : EmitScope}

------------------------------------------------------------
-- Names
------------------------------------------------------------

theorem name_eq_ok_iff
    {id : TypeName}
    {text : String} :
    x.name id = .ok text ↔ x.names.find? id = some text := by
  unfold name
  cases x.names.find? id with
  | none => simp
  | some other => simp

theorem succeeds_name
    {id : TypeName}
    (h : (x.names.find? id).isSome = true) :
    Succeeds (x.name id) := by
  rcases Option.isSome_iff_exists.mp h with ⟨text, hFound⟩
  unfold name
  rw [hFound]
  exact succeeds_ok text

theorem succeeds_names
    {ids : List TypeName}
    (h : x.names.Covers ids) : Succeeds (ids.mapM x.name) := by
  apply succeeds_mapM
  intro id hId
  exact succeeds_name (h id hId)

------------------------------------------------------------
-- Expressions
------------------------------------------------------------

theorem succeeds_expressions
    {ts : List WireType}
    (h : ∀ t ∈ ts, Succeeds (x.expression t)) :
    Succeeds (x.expressions ts) := by
  induction ts with
  | nil =>
      unfold expressions
      exact succeeds_ok []
  | cons t rest ih =>
      rw [List.forall_mem_cons] at h
      unfold expressions
      apply h.1.bind
      intro part _
      apply (ih h.2).bind
      intro parts _
      exact succeeds_ok _

theorem succeeds_expression
    {t : WireType}
    (h : x.names.Expresses t) : Succeeds (x.expression t) := by
  induction t using WireType.inductionOnParts with
  | hRecord d =>
      exact absurd h.plain.id?_eq_none (by simp [WireType.id?])
  | hSynonym d =>
      exact absurd h.plain.id?_eq_none (by simp [WireType.id?])
  | hEnum d =>
      exact absurd h.plain.id?_eq_none (by simp [WireType.id?])
  | hBase kind bits =>
      unfold expression
      exact succeeds_ok _
  | hArray elem len hElem =>
      unfold expression
      apply (hElem h.array).bind
      intro text _
      exact succeeds_ok _
  | hMap key value hKey hValue =>
      unfold expression
      apply (hValue h.map.2).bind
      intro text _
      exact succeeds_ok _
  | hReference id =>
      unfold expression
      exact succeeds_name h.reference
  | hPointer elem hElem =>
      by_cases hEmpty : ∃ bits, elem = .base .empty bits
      · rcases hEmpty with ⟨bits, rfl⟩
        unfold expression
        exact succeeds_ok _
      · rw [expression]
        · apply (hElem h.pointer).bind
          intro text _
          exact succeeds_ok _
        · intro bits hBase
          exact hEmpty ⟨bits, hBase⟩
  | hUnion members hMembers =>
      have hEach : Succeeds (x.expressions members) := by
        apply succeeds_expressions
        intro t ht
        exact hMembers t ht (h.union t ht)
      unfold expression
      apply hEach.bind
      intro parts _
      exact succeeds_ok _
  | hParam p =>
      unfold expression
      exact succeeds_ok _

------------------------------------------------------------
-- Declarations
------------------------------------------------------------

theorem succeeds_paramsText
    {params : List (TypeParam WireType)}
    (h : WireType.BoundsSatisfy x.names.Expresses params) :
    Succeeds (x.paramsText params) := by
  unfold paramsText
  split
  · exact succeeds_ok _
  · have hEach : Succeeds (params.mapM x.paramText) := by
      apply succeeds_mapM
      intro p hp
      unfold paramText
      split
      · exact succeeds_ok _
      · next bound hBound =>
          split
          · exact succeeds_ok _
          · apply (succeeds_expression (h p hp bound hBound)).bind
            intro text _
            exact succeeds_ok _
    apply hEach.bind
    intro parts _
    exact succeeds_ok _

theorem succeeds_fieldText
    {f : Field WireType}
    (h : x.names.Expresses f.type) : Succeeds (x.fieldText f) := by
  have hType : Succeeds (x.fieldType f) := by
    unfold fieldType
    split
    · exact succeeds_ok _
    · exact succeeds_expression h
  unfold fieldText
  apply hType.bind
  intro text _
  exact succeeds_ok _

theorem succeeds_recordText
    {d : RecordDecl WireType}
    (h : x.names.Declares (.record d)) :
    Succeeds (x.recordText d) := by
  rcases h with ⟨hNames, hBounds, hFields⟩
  have hParts := List.forall_mem_cons.mp hNames
  unfold recordText
  apply (succeeds_name hParts.1).bind
  intro name _
  apply (succeeds_paramsText hBounds).bind
  intro params _
  apply (succeeds_names hParts.2).bind
  intro parents _
  have hEach : Succeeds ((sentFields d).mapM x.fieldText) := by
    apply succeeds_mapM
    intro f hf
    exact succeeds_fieldText
      (hFields f (List.mem_filter.mp hf).1)
  apply hEach.bind
  intro fields _
  exact succeeds_ok _

/- What can be declared is written. -/
theorem succeeds_declarationText
    {t : WireType}
    (h : x.names.Declares t) : Succeeds (x.declarationText t) := by
  cases t with
  | record d => exact succeeds_recordText h
  | synonym d =>
      rcases h with ⟨hName, hBounds, hTarget⟩
      have hName := List.forall_mem_singleton.mp hName
      unfold declarationText synonymText
      apply (succeeds_name hName).bind
      intro name _
      apply (succeeds_paramsText hBounds).bind
      intro params _
      apply (succeeds_expression hTarget).bind
      intro target _
      exact succeeds_ok _
  | enum d =>
      have hName := List.forall_mem_singleton.mp h
      unfold declarationText enumText
      apply (succeeds_name hName).bind
      intro name _
      exact succeeds_ok _
  | _ => exact h.elim

------------------------------------------------------------
-- Services
------------------------------------------------------------

/- All that endpoints take and answer can be written. -/
def Serves (x : EmitScope) : Prop :=
  ∀ e ∈ x.endpoints, ∀ b ∈ Schema.bodies e, x.names.Expresses b.2

theorem response_mem_bodies (e : Endpoint) :
    (BodyRole.response, e.response) ∈ Schema.bodies e := by
  simp [Schema.bodies]

theorem request_mem_bodies
    {e : Endpoint}
    {t : WireType}
    (h : e.request = some t) :
    (BodyRole.request, t) ∈ Schema.bodies e := by
  simp [Schema.bodies, h]

theorem succeeds_endpointText
    {e : Endpoint}
    (h : ∀ b ∈ Schema.bodies e, x.names.Expresses b.2) :
    Succeeds (x.endpointText e) := by
  unfold endpointText
  apply (succeeds_expression (h _ (response_mem_bodies e))).bind
  intro response _
  cases hRequest : e.request with
  | none => exact succeeds_ok _
  | some t =>
      have hType : x.names.Expresses t :=
        h _ (request_mem_bodies hRequest)
      apply (succeeds_expression hType).bind
      intro text _
      exact succeeds_ok _

theorem succeeds_servicesText
    (h : x.Serves) : Succeeds x.servicesText := by
  have hEach : Succeeds (x.schema.services.mapM x.serviceText) := by
    apply succeeds_mapM
    intro v hv
    have hMethods :
        Succeeds (v.endpoints.mapM x.endpointText) := by
      apply succeeds_mapM
      intro e he
      exact succeeds_endpointText
        (h e (List.mem_flatMap.mpr ⟨v, hv, he⟩))
    unfold serviceText
    apply hMethods.bind
    intro methods _
    exact succeeds_ok _
  unfold servicesText
  apply hEach.bind
  intro services _
  exact succeeds_ok _

end EmitScope

end WireSchema
