import WireSchema.Proofs.Emit.Alike
import WireSchema.Proofs.Schema.Visible

/-
  What is emitted shows what a comment policy lets be seen.

  Types, declarations, services and files are the same for a
  schema without the documentation that the policy of a scope
  hides.

  Key definitions include:
    * `EmitScope.visible`
    * `EmitScope.declarationText_visible`
    * `EmitScope.layOut_visible`
-/

namespace WireSchema

namespace EmitScope

variable {x : EmitScope}

/- The scope over what its comment policy lets be seen. -/
def visible (x : EmitScope) : EmitScope :=
  x.forSchema (x.schema.visible x.options.comments)

@[simp] theorem schema_visible :
    x.visible.schema = x.schema.visible x.options.comments := rfl

@[simp] theorem options_visible : x.visible.options = x.options :=
  rfl

@[simp] theorem name_visible : x.visible.name = x.name := rfl

@[simp] theorem isForward_visible (id : TypeName) :
    x.visible.isForward id = x.isForward id := rfl

theorem markEmitted_visible (id : TypeName) :
    x.visible.markEmitted id = (x.markEmitted id).visible := rfl

theorem ofSchema_visible (s : Schema) (o : EmitOptions) :
    .ofSchema (s.visible o.comments) o =
      (EmitScope.ofSchema s o).visible := by
  have hNames : EmittedNames.ofSchema (s.visible o.comments)
      o.strippedPaths = .ofSchema s o.strippedPaths := by
    unfold EmittedNames.ofSchema
    rw [Schema.names_visible]
  unfold ofSchema visible forSchema
  rw [hNames]

------------------------------------------------------------
-- Comments
------------------------------------------------------------

/- Hidden documentation has no comment anyway. -/
@[simp] theorem typeComment_visible (doc : Doc) (indent : String) :
    x.visible.typeComment (x.options.comments.typeDoc doc) indent =
      x.typeComment doc indent := by
  unfold typeComment EmitOptions.typeComments
  rw [options_visible]
  cases x.options.comments with
  | _ => rfl

@[simp] theorem memberComment_visible (doc : Doc) (indent : String) :
    x.visible.memberComment (x.options.comments.memberDoc doc)
        indent =
      x.memberComment doc indent := by
  unfold memberComment EmitOptions.memberComments
  rw [options_visible]
  cases x.options.comments with
  | _ => rfl

------------------------------------------------------------
-- Types
------------------------------------------------------------

theorem arity_visible (id : TypeName) :
    x.visible.arity id = x.arity id := by
  unfold arity
  rw [schema_visible, Schema.find?_visible]
  cases x.schema.find? id with
  | none => rfl
  | some t =>
      cases t with
      | _ => simp

theorem expressions_visible
    {p : CommentPolicy}
    {ts : List WireType}
    (h : ∀ t ∈ ts,
      x.expression (t.visible p) = x.expression t) :
    x.expressions (ts.map (WireType.visible p)) =
      x.expressions ts := by
  induction ts with
  | nil => rfl
  | cons t rest ih =>
      rw [List.forall_mem_cons] at h
      rw [List.map_cons, expressions, expressions, h.1, ih h.2]

/- No type expression contains documentation. -/
theorem expression_of_visible (p : CommentPolicy) (t : WireType) :
    x.expression (t.visible p) = x.expression t := by
  induction t using WireType.inductionOnParts with
  | hArray elem len hElem =>
      rw [WireType.visible_array, expression, expression, hElem]
  | hMap key value hKey hValue =>
      rw [WireType.visible_map, expression, expression, hValue]
  | hPointer elem hElem =>
      rw [WireType.visible_pointer]
      by_cases hEmpty : ∃ bits, elem = .base .empty bits
      · rcases hEmpty with ⟨bits, rfl⟩
        rw [WireType.visible_base]
      · have hNot : ∀ bits, elem ≠ .base .empty bits :=
          fun bits h => hEmpty ⟨bits, h⟩
        rw [expression, expression, hElem]
        · exact hNot
        · intro bits h
          exact hNot bits (WireType.visible_eq_base_iff.mp h)
  | hUnion members hMembers =>
      rw [WireType.visible_union, expression, expression,
        expressions_visible hMembers]
  | hRecord d => simp [expression, inlineError, WireType.kindName]
  | hSynonym d => simp [expression, inlineError, WireType.kindName]
  | hEnum d => simp [expression, inlineError, WireType.kindName]
  | hBase | hReference | hParam => simp [expression]

@[simp] theorem expression_visible (p : CommentPolicy) (t : WireType) :
    x.visible.expression (t.visible p) = x.expression t := by
  unfold visible
  rw [expression_forSchema, expression_of_visible]

------------------------------------------------------------
-- Declarations
------------------------------------------------------------

theorem paramsText_visible
    (p : CommentPolicy)
    (qs : List (TypeParam WireType)) :
    x.visible.paramsText (qs.map (WireType.visibleParam p)) =
      x.paramsText qs := by
  have hTrivial : ∀ t : WireType,
      isTrivialBound (t.visible p) = isTrivialBound t := by
    intro t
    cases t with
    | _ => simp [isTrivialBound]
  have hParam : ∀ q,
      x.visible.paramText (WireType.visibleParam p q) =
        x.paramText q := by
    intro q
    unfold paramText
    rw [WireType.bound_visibleParam, WireType.name_visibleParam]
    cases q.bound with
    | none => rfl
    | some bound =>
        dsimp only [Option.map_some]
        rw [hTrivial, expression_visible]
  unfold paramsText
  rw [List.isEmpty_map, List.mapM_map]
  simp only [Function.comp_def, hParam]

/- The same fields travel. -/
theorem sent_visible
    (p : CommentPolicy)
    (fields : List (Field WireType)) :
    (fields.map (WireType.visibleField p)).filter
        (fun f => !f.skip) =
      (fields.filter fun f => !f.skip).map
        (WireType.visibleField p) := by
  simp [List.filter_map, Function.comp_def,
    WireType.visibleField_eq]

theorem fieldText_visible (f : Field WireType) :
    x.visible.fieldText
        (WireType.visibleField x.options.comments f) =
      x.fieldText f := by
  rw [WireType.visibleField_eq]
  unfold fieldText fieldType
  dsimp only
  rw [WireType.isPointer_visible, expression_visible,
    memberComment_visible, options_visible]

theorem enumBody_visible (name : String) (members : List EnumMember) :
    x.visible.enumBody name
        (members.map (EnumMember.visible x.options.comments)) =
      x.enumBody name members := by
  have hNative : ∀ m,
      x.visible.nativeMember name
          (EnumMember.visible x.options.comments m) =
        x.nativeMember name m := by
    intro m
    unfold nativeMember EnumMember.visible
    rw [memberComment_visible]
  have hConstant : ∀ m,
      x.visible.constantMember
          (EnumMember.visible x.options.comments m) =
        x.constantMember m := by
    intro m
    unfold constantMember EnumMember.visible
    rw [memberComment_visible]
  unfold enumBody
  simp only [options_visible, List.map_map, Function.comp_def,
    hNative, hConstant]
  rfl

/- A declaration shows only what its policy lets through. -/
theorem declarationText_visible (t : WireType) :
    x.visible.declarationText (t.visible x.options.comments) =
      x.declarationText t := by
  cases t with
  | record d =>
      rw [WireType.visible_record]
      unfold declarationText recordText sentFields
      dsimp only
      rw [paramsText_visible, typeComment_visible, sent_visible,
        List.mapM_map, name_visible]
      simp only [Function.comp_def, fieldText_visible]
  | synonym d =>
      rw [WireType.visible_synonym]
      unfold declarationText synonymText
      dsimp only
      rw [paramsText_visible, typeComment_visible,
        expression_visible, name_visible]
  | enum d =>
      rw [WireType.visible_enum]
      unfold declarationText enumText
      dsimp only
      rw [typeComment_visible, name_visible]
      simp only [enumBody_visible]
  | _ => simp [declarationText, WireType.kindName]

------------------------------------------------------------
-- Services
------------------------------------------------------------

theorem endpointText_visible (e : Endpoint) :
    x.visible.endpointText (e.visible x.options.comments) =
      x.endpointText e := by
  unfold endpointText Endpoint.visible
  dsimp only
  rw [expression_visible, typeComment_visible]
  cases e.request with
  | none => rfl
  | some t =>
      dsimp only [Option.map_some]
      rw [expression_visible]

theorem endpoints_visible :
    x.visible.endpoints =
      x.endpoints.map (Endpoint.visible x.options.comments) := by
  unfold endpoints
  rw [schema_visible, List.map_flatMap]
  exact List.flatMap_map ..

theorem servicesText_visible :
    x.visible.servicesText = x.servicesText := by
  have hService : ∀ v : Service,
      x.visible.serviceText (v.visible x.options.comments) =
        x.serviceText v := by
    intro v
    unfold serviceText Service.visible
    dsimp only
    rw [typeComment_visible, List.mapM_map]
    simp only [Function.comp_def, endpointText_visible]
  have hRoute : ∀ e : Endpoint,
      routeText (e.visible x.options.comments) = routeText e :=
    fun _ => rfl
  have hRoutes : x.visible.routesText = x.routesText := by
    unfold routesText
    rw [endpoints_visible, List.isEmpty_map, List.map_map]
    simp only [Function.comp_def, hRoute]
  unfold servicesText
  rw [hRoutes, schema_visible]
  unfold Schema.visible
  rw [List.mapM_map]
  simp only [Function.comp_def, hService]

------------------------------------------------------------
-- Files
------------------------------------------------------------

theorem importGroups_visible
    (files : FileStems)
    (groups : List ImportGroup)
    (ids : List TypeName) :
    x.visible.importGroups files groups ids =
      x.importGroups files groups ids :=
  importGroups_forSchema files groups ids

theorem foreignNames_visible (group : NamespaceChunks) :
    x.visible.foreignNames group = x.foreignNames group := by
  unfold foreignNames
  dsimp only
  congr 1
  refine List.flatMap_congr fun c _ => ?_
  rw [schema_visible, Schema.find?_visible]
  cases x.schema.find? c.id with
  | none => rfl
  | some t => exact WireType.dependencies_visible t

theorem serviceNames_visible :
    x.visible.serviceNames = x.serviceNames := by
  unfold serviceNames
  rw [endpoints_visible, List.flatMap_map]
  refine List.flatMap_congr fun e _ => ?_
  unfold Endpoint.visible
  dsimp only
  rw [WireType.dependencies_visible]
  cases e.request with
  | none => rfl
  | some t =>
      dsimp only [Option.map_some]
      rw [WireType.dependencies_visible]

/- The files of a scope show only what its policy lets through. -/
theorem layOut_visible (chunks : List Chunk) :
    x.visible.layOut chunks = x.layOut chunks := by
  have hFile : ∀ files, x.visible.namespaceFile files =
      x.namespaceFile files := by
    intro files
    funext group
    simp only [namespaceFile, importLines, importGroups_visible,
      foreignNames_visible, options_visible]
  have hIndex : x.visible.indexFile = x.indexFile := by
    funext files services
    simp only [indexFile, importLines, importGroups_visible,
      serviceNames_visible, options_visible]
  simp only [layOut, servicesText_visible, options_visible, hFile,
    hIndex]

end EmitScope

end WireSchema
