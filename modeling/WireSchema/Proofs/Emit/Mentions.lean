import Mathlib.Data.List.Flatten
import WireSchema.Proofs.Emit.Rendering
import WireSchema.Proofs.Validation.Checks

/-
  What declarations and services mention.

  A name that stands in an expression is the emitted name of
  a type that the described type refers to.  So declarations
  mention nothing but themselves and what they depend on.

  Key definitions include:
    * `EmitScope.RefersTo`
    * `EmitScope.refersTo_declarationOf`
    * `EmitScope.refersTo_serviceTerms`
-/

namespace WireSchema

namespace EmitScope

variable {x : EmitScope}

------------------------------------------------------------
-- References
------------------------------------------------------------

/- References to some types, by their emitted names. -/
def RefersTo
    (x : EmitScope)
    (ids : List TypeName)
    (refs : List SchemaRef) : Prop :=
  ∀ r ∈ refs, r.id ∈ ids ∧ x.name r.id = .ok r.name

theorem refersTo_nil {ids : List TypeName} : x.RefersTo ids [] :=
  List.forall_mem_nil _

theorem RefersTo.mono
    {ids more : List TypeName}
    {refs : List SchemaRef}
    (h : x.RefersTo ids refs)
    (hMore : ids ⊆ more) : x.RefersTo more refs :=
  fun r hr => ⟨hMore (h r hr).1, (h r hr).2⟩

theorem RefersTo.append
    {ids others : List TypeName}
    {refs more : List SchemaRef}
    (h : x.RefersTo ids refs)
    (hMore : x.RefersTo others more) :
    x.RefersTo (ids ++ others) (refs ++ more) :=
  List.forall_mem_append.mpr
    ⟨h.mono (List.subset_append_left ids others),
      hMore.mono (List.subset_append_right ids others)⟩

theorem refersTo_refOf
    {id : TypeName}
    {r : SchemaRef}
    (h : x.refOf id = .ok r) : x.RefersTo [id] [r] := by
  rcases refOf_eq_ok h with ⟨hId, hName⟩
  exact List.forall_mem_singleton.mpr
    ⟨List.mem_singleton.mpr hId, hName⟩

/- What each of some steps refers to, all of them do. -/
theorem refersTo_mapM
    {α β : Type}
    {f : α → Except EmitError β}
    {ids : α → List TypeName}
    {refs : β → List SchemaRef}
    {xs : List α}
    {ys : List β}
    (hEach : ∀ a ∈ xs, ∀ b, f a = .ok b →
      x.RefersTo (ids a) (refs b))
    (h : xs.mapM f = .ok ys) :
    x.RefersTo (xs.flatMap ids) (ys.flatMap refs) := by
  have hPairs := forall₂_of_mapM_eq_ok h
  clear h
  induction hPairs with
  | nil => exact refersTo_nil
  | cons hFirst _ ih =>
      rw [List.forall_mem_cons] at hEach
      rw [List.flatMap_cons, List.flatMap_cons]
      exact (hEach.1 _ hFirst).append (ih hEach.2)

------------------------------------------------------------
-- Expressions
------------------------------------------------------------

theorem typeTerms_eq_mapM (ts : List WireType) :
    x.typeTerms ts = ts.mapM x.typeTerm := by
  induction ts with
  | nil => rfl
  | cons t rest ih =>
      rw [typeTerms, List.mapM_cons, ih]
      rfl

theorem mentionsInAll_eq (es : List TypeTerm) :
    TypeTerm.mentionsInAll es = es.flatMap TypeTerm.mentions := by
  induction es with
  | nil => rfl
  | cons e rest ih =>
      rw [TypeTerm.mentionsInAll, ih, List.flatMap_cons]

/- An expression mentions only what its type refers to. -/
theorem refersTo_typeTerm
    {t : WireType}
    {e : TypeTerm}
    (h : x.typeTerm t = .ok e) :
    x.RefersTo t.references e.mentions := by
  induction t using WireType.inductionOnParts generalizing e with
  | hRecord d => cases h
  | hSynonym d => cases h
  | hEnum d => cases h
  | hBase kind bits =>
      cases h
      exact refersTo_nil
  | hArray elem len hElem =>
      rcases eq_ok_of_bind h with ⟨inner, hInner, h⟩
      have hKnown := hElem hInner
      cases h
      rw [WireType.references_array]
      exact hKnown
  | hMap key value _ hValue =>
      rcases eq_ok_of_bind h with ⟨inner, hInner, h⟩
      cases h
      rw [WireType.references_map]
      exact (hValue hInner).mono (List.subset_append_right _ _)
  | hReference id =>
      rcases eq_ok_of_bind h with ⟨target, hTarget, h⟩
      cases h
      rw [WireType.references_reference]
      exact refersTo_refOf hTarget
  | hPointer elem hElem =>
      by_cases hEmpty : ∃ bits, elem = .base .empty bits
      · rcases hEmpty with ⟨bits, rfl⟩
        cases h
        exact refersTo_nil
      · rw [typeTerm] at h
        · rcases eq_ok_of_bind h with ⟨inner, hInner, h⟩
          have hKnown := hElem hInner
          cases h
          rw [WireType.references_pointer]
          exact hKnown
        · intro bits hBase
          exact hEmpty ⟨bits, hBase⟩
  | hUnion members hMembers =>
      rcases eq_ok_of_bind h with ⟨parts, hParts, h⟩
      cases h
      rw [typeTerms_eq_mapM] at hParts
      rw [WireType.references_union, TypeTerm.mentions,
        mentionsInAll_eq]
      exact refersTo_mapM (fun t ht e => hMembers t ht) hParts
  | hParam p =>
      cases h
      exact refersTo_nil

------------------------------------------------------------
-- Declarations
------------------------------------------------------------

theorem refersTo_paramTerm
    {p : TypeParam WireType}
    {q : ParamTerm}
    (h : x.paramTerm p = .ok q) :
    x.RefersTo (WireType.boundReferences p) q.mentions := by
  unfold paramTerm at h
  unfold WireType.boundReferences
  cases hBound : p.bound with
  | none =>
      rw [hBound] at h
      cases h
      exact refersTo_nil
  | some bound =>
      rw [hBound] at h
      dsimp only at h
      split at h
      · cases h
        exact refersTo_nil
      · rcases eq_ok_of_bind h with ⟨term, hTerm, h⟩
        cases h
        exact refersTo_typeTerm hTerm

theorem refersTo_params
    {params : List (TypeParam WireType)}
    {terms : List ParamTerm}
    (h : params.mapM x.paramTerm = .ok terms) :
    x.RefersTo (params.flatMap WireType.boundReferences)
      (terms.flatMap ParamTerm.mentions) :=
  refersTo_mapM (fun _ _ _ => refersTo_paramTerm) h

/- Null around a type mentions nothing. -/
theorem refersTo_propertyTerm
    {f : Field WireType}
    {p : PropertyTerm}
    (h : x.propertyTerm f = .ok p) :
    x.RefersTo f.type.references p.value.mentions := by
  rcases eq_ok_of_bind h with ⟨value, hValue, h⟩
  have hField : x.RefersTo f.type.references value.mentions := by
    unfold fieldTerm at hValue
    split at hValue
    · cases hValue
      split
      · exact refersTo_nil
      · exact refersTo_nil
    · exact refersTo_typeTerm hValue
  cases h
  dsimp only
  split
  · exact hField
  · exact hField

theorem refersTo_record
    {r : RecordDecl WireType}
    {d : BaseDeclaration}
    (h : x.declarationOf (.record r) = .ok d) :
    x.RefersTo (r.id :: (WireType.record r).dependencies)
      d.mentions := by
  rcases eq_ok_of_bind h with ⟨target, hTarget, h⟩
  rcases eq_ok_of_bind h with ⟨params, hParams, h⟩
  rcases eq_ok_of_bind h with ⟨parents, hParents, h⟩
  rcases eq_ok_of_bind h with ⟨properties, hProperties, h⟩
  cases h
  have hTarget := refersTo_refOf hTarget
  have hParams := refersTo_params hParams
  have hParents :
      x.RefersTo (r.parents.flatMap fun id => [id])
        (parents.flatMap fun r => [r]) :=
    refersTo_mapM (fun _ _ _ => refersTo_refOf) hParents
  have hProperties :
      x.RefersTo
        ((sentFields r).flatMap fun f => f.type.references)
        (properties.flatMap fun p => p.value.mentions) :=
    refersTo_mapM (fun _ _ _ => refersTo_propertyTerm) hProperties
  rw [List.flatMap_singleton', List.flatMap_singleton'] at hParents
  -- Skipped fields are not declared, but they are depended on.
  have hSent :
      ((sentFields r).flatMap fun f => f.type.references) ⊆
        r.fields.flatMap fun f => f.type.references :=
    (List.filter_sublist.flatMap _).subset
  apply (hTarget.append (hParams.append
    (hParents.append (hProperties.mono hSent)))).mono
  rw [WireType.dependencies_eq, WireType.references_record]
  intro id hId
  simp only [WireType.parents, List.singleton_append,
    List.mem_cons, List.mem_append] at hId ⊢
  tauto

/-
  A declaration mentions its type and, of what the type
  depends on, what is written.
-/
theorem refersTo_declarationOf
    {t : WireType}
    {d : BaseDeclaration}
    (h : x.declarationOf t = .ok d) :
    x.RefersTo (d.target.id :: t.dependencies) d.mentions := by
  have hId := (target_of_declarationOf h).1
  cases t with
  | record r =>
      rw [← Option.some.inj hId]
      exact refersTo_record h
  | synonym s =>
      rw [← Option.some.inj hId]
      rcases eq_ok_of_bind h with ⟨target, hTarget, h⟩
      rcases eq_ok_of_bind h with ⟨params, hParams, h⟩
      rcases eq_ok_of_bind h with ⟨value, hValue, h⟩
      cases h
      rw [WireType.dependencies_eq, WireType.references_synonym]
      exact (refersTo_refOf hTarget).append
        ((refersTo_params hParams).append
          (refersTo_typeTerm hValue))
  | enum e =>
      rw [← Option.some.inj hId]
      rcases eq_ok_of_bind h with ⟨target, hTarget, h⟩
      cases h
      have hNone : (x.enumAround target.name e.members).mentions =
          [] := by
        unfold enumAround
        split
        · rfl
        · rfl
        · rfl
      unfold BaseDeclaration.mentions
      rw [hNone]
      exact (refersTo_refOf hTarget).mono
        (List.subset_append_left [e.id] _)
  | _ => cases h

------------------------------------------------------------
-- Services
------------------------------------------------------------

/- What a method takes and answers. -/
def bodyNames (e : Endpoint) : List TypeName :=
  let request :=
    match e.request with
    | some t => t.dependencies
    | none => []
  request ++ e.response.dependencies

theorem references_subset_dependencies (t : WireType) :
    t.references ⊆ t.dependencies := by
  rw [WireType.dependencies_eq]
  exact List.subset_append_right _ _

theorem refersTo_methodTerm
    {e : Endpoint}
    {m : MethodTerm}
    (h : x.methodTerm e = .ok m) :
    x.RefersTo (bodyNames e) m.mentions := by
  unfold methodTerm at h
  unfold bodyNames
  rcases eq_ok_of_bind h with ⟨response, hResponse, h⟩
  have hResponse := (refersTo_typeTerm hResponse).mono
    (references_subset_dependencies _)
  cases hRequest : e.request with
  | none =>
      rw [hRequest] at h
      cases h
      exact refersTo_nil.append hResponse
  | some t =>
      rw [hRequest] at h
      rcases eq_ok_of_bind h with ⟨request, hFirst, h⟩
      rcases eq_ok_of_map hFirst with ⟨term, hTerm, rfl⟩
      cases h
      exact ((refersTo_typeTerm hTerm).mono
        (references_subset_dependencies t)).append hResponse

theorem refersTo_serviceTerm
    {v : Service}
    {term : ServiceTerm}
    (h : x.serviceTerm v = .ok term) :
    x.RefersTo (v.endpoints.flatMap bodyNames) term.mentions := by
  rcases eq_ok_of_bind h with ⟨methods, hMethods, h⟩
  cases h
  exact refersTo_mapM (fun _ _ _ => refersTo_methodTerm) hMethods

/- The services mention what their methods take and answer. -/
theorem refersTo_serviceTerms
    {terms : List ServiceTerm}
    (h : x.schema.services.mapM x.serviceTerm = .ok terms) :
    x.RefersTo x.serviceNames
      (terms.flatMap ServiceTerm.mentions) := by
  have hAll := refersTo_mapM
    (fun _ _ _ => refersTo_serviceTerm) h
  unfold serviceNames endpoints
  rw [List.flatMap_assoc]
  exact hAll

end EmitScope

end WireSchema
