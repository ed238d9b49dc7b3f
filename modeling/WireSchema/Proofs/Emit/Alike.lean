import WireSchema.Emit.Files
import WireSchema.Proofs.Emit.Order

/-
  Schemas that list the same declarations.

  What is emitted for a schema depends on which declaration
  a name has, on which names there are and on the services.
  Where the declarations stand in the list has no part in it.

  Key definitions include:
    * `Schema.Alike`
    * `Schema.emitOrder_congr`
    * `EmitScope.forSchema`: a scope over another schema
-/

namespace WireSchema

/- The same declaration for each name, the same services. -/
structure Schema.Alike (s t : Schema) : Prop where
  find : ∀ id, t.find? id = s.find? id
  services : t.services = s.services

namespace Schema

variable {s t : Schema}
variable {types : List WireType}

------------------------------------------------------------
-- Declarations by Name
------------------------------------------------------------

theorem perm_names (h : types.Perm s.types) :
    ({ s with types } : Schema).names.Perm s.names :=
  h.filterMap WireType.id?

/- Distinct names are found wherever they are declared. -/
theorem alike_of_perm
    (hPerm : types.Perm s.types)
    (hDistinct : s.names.Nodup) :
    s.Alike { s with types } where
  find := by
    intro id
    have hDistinct' :=
      (perm_names hPerm).nodup_iff.mpr hDistinct
    cases hFound : s.find? id with
    | some u =>
        have hu := List.mem_of_find?_eq_some hFound
        exact find?_eq_some hDistinct' (hPerm.mem_iff.mpr hu)
          (by simpa using List.find?_some hFound)
    | none =>
        unfold find? at hFound ⊢
        rw [List.find?_eq_none] at hFound ⊢
        intro u hu
        exact hFound u (hPerm.mem_iff.mp hu)
  services := rfl

/- Of distinct names the last declaration is the only one. -/
theorem findLast?_eq_find?
    (hDistinct : s.names.Nodup)
    (id : TypeName) : s.findLast? id = s.find? id := by
  cases hFound : s.findLast? id with
  | some u =>
      have hDecl := id?_of_findLast? hFound
      exact (find?_eq_some hDistinct hDecl.1 hDecl.2).symm
  | none =>
      unfold findLast? at hFound
      unfold find?
      rw [List.find?_eq_none] at hFound
      symm
      rw [List.find?_eq_none]
      intro u hu
      exact hFound u (List.mem_reverse.mpr hu)

------------------------------------------------------------
-- Names and Orders
------------------------------------------------------------

/- The emitted names depend on the declared names alone. -/
theorem ofSchema_congr
    (h : ∀ id, id ∈ t.names ↔ id ∈ s.names)
    (stripped : List String) :
    EmittedNames.ofSchema t stripped =
      EmittedNames.ofSchema s stripped := by
  unfold EmittedNames.ofSchema
  rw [sortNames_congr h]

theorem roots_congr
    (h : ∀ id, id ∈ t.names ↔ id ∈ s.names)
    (names : EmittedNames) : t.roots names = s.roots names := by
  unfold roots
  rw [sortNames_congr h]

/- A search meets declarations by their names. -/
theorem visit_congr
    (h : ∀ id, t.findLast? id = s.findLast? id)
    (depth : Nat) : t.visit depth = s.visit depth := by
  induction depth with
  | zero => rfl
  | succ depth ih =>
      funext state id
      unfold visit
      rw [h, ih]

/-
  The order of emission stays if the names have the same
  declarations and there are as many of these.
-/
theorem emitOrder_congr
    (hNames : ∀ id, id ∈ t.names ↔ id ∈ s.names)
    (hLast : ∀ id, t.findLast? id = s.findLast? id)
    (hLength : t.types.length = s.types.length)
    (names : EmittedNames) :
    t.emitOrder names = s.emitOrder names := by
  unfold emitOrder
  rw [roots_congr hNames, visit_congr hLast, hLength]

theorem emitOrder_of_perm
    (hPerm : types.Perm s.types)
    (hDistinct : s.names.Nodup)
    (names : EmittedNames) :
    ({ s with types } : Schema).emitOrder names =
      s.emitOrder names := by
  have hNames := perm_names hPerm
  have hDistinct' := hNames.nodup_iff.mpr hDistinct
  apply emitOrder_congr
  · intro id
    exact hNames.mem_iff
  · intro id
    rw [findLast?_eq_find? hDistinct,
      findLast?_eq_find? hDistinct',
      (alike_of_perm hPerm hDistinct).find]
  · exact hPerm.length_eq

end Schema

------------------------------------------------------------
-- Scopes
------------------------------------------------------------

namespace EmitScope

variable {x : EmitScope}
variable {s : Schema}

/- The scope over another schema. -/
def forSchema (x : EmitScope) (s : Schema) : EmitScope :=
  { x with schema := s }

@[simp] theorem schema_forSchema : (x.forSchema s).schema = s := rfl

@[simp] theorem options_forSchema :
    (x.forSchema s).options = x.options := rfl

@[simp] theorem name_forSchema (id : TypeName) :
    (x.forSchema s).name id = x.name id := rfl

@[simp] theorem isForward_forSchema (id : TypeName) :
    (x.forSchema s).isForward id = x.isForward id := rfl

@[simp] theorem typeComment_forSchema (doc : Doc) (indent : String) :
    (x.forSchema s).typeComment doc indent =
      x.typeComment doc indent := rfl

@[simp] theorem memberComment_forSchema (doc : Doc) (indent : String) :
    (x.forSchema s).memberComment doc indent =
      x.memberComment doc indent := rfl

theorem markEmitted_forSchema (id : TypeName) :
    (x.forSchema s).markEmitted id =
      (x.markEmitted id).forSchema s := rfl

theorem arity_forSchema
    (h : x.schema.Alike s)
    (id : TypeName) : (x.forSchema s).arity id = x.arity id := by
  unfold arity
  rw [schema_forSchema, h.find]

------------------------------------------------------------
-- Declarations
------------------------------------------------------------

theorem expressions_forSchema
    {ts : List WireType}
    (h : ∀ t ∈ ts, (x.forSchema s).expression t = x.expression t) :
    (x.forSchema s).expressions ts = x.expressions ts := by
  induction ts with
  | nil =>
      unfold expressions
      rfl
  | cons t rest ih =>
      rw [List.forall_mem_cons] at h
      unfold expressions
      rw [h.1, ih h.2]

/- An expression is made of names alone. -/
@[simp] theorem expression_forSchema (t : WireType) :
    (x.forSchema s).expression t = x.expression t := by
  induction t using WireType.inductionOnParts with
  | hArray elem len hElem =>
      unfold expression
      rw [hElem]
  | hMap key value hKey hValue =>
      unfold expression
      rw [hValue]
  | hPointer elem hElem =>
      by_cases hEmpty : ∃ bits, elem = .base .empty bits
      · rcases hEmpty with ⟨bits, rfl⟩
        unfold expression
        rfl
      · have hNot : ∀ bits, elem ≠ .base .empty bits :=
          fun bits h => hEmpty ⟨bits, h⟩
        rw [expression, expression, hElem]
        · exact hNot
        · exact hNot
  | hUnion members hMembers =>
      unfold expression
      rw [expressions_forSchema hMembers]
  | hRecord | hSynonym | hEnum | hBase | hReference | hParam =>
      unfold expression
      rfl

theorem declarationText_forSchema (t : WireType) :
    (x.forSchema s).declarationText t = x.declarationText t := by
  have hParam : (x.forSchema s).paramText = x.paramText := by
    funext p
    simp only [paramText, expression_forSchema]
  have hField : (x.forSchema s).fieldText = x.fieldText := by
    funext f
    unfold fieldText fieldType
    rw [expression_forSchema]
    rfl
  cases t with
  | record d =>
      have hName : (x.forSchema s).name = x.name := rfl
      simp only [declarationText, recordText, paramsText, hParam,
        hField, hName, typeComment_forSchema]
  | synonym d =>
      simp only [declarationText, synonymText, paramsText,
        hParam, expression_forSchema, name_forSchema,
        typeComment_forSchema]
  | enum d => rfl
  | _ => rfl

------------------------------------------------------------
-- Files
------------------------------------------------------------

theorem servicesText_forSchema (h : x.schema.Alike s) :
    (x.forSchema s).servicesText = x.servicesText := by
  have hEndpoint : (x.forSchema s).endpointText = x.endpointText := by
    funext e
    simp only [endpointText, expression_forSchema,
      typeComment_forSchema]
  have hService : (x.forSchema s).serviceText = x.serviceText := by
    funext v
    simp only [serviceText, hEndpoint, typeComment_forSchema]
  have hEndpoints : (x.forSchema s).endpoints = x.endpoints := by
    unfold endpoints
    rw [schema_forSchema, h.services]
  have hRoutes : (x.forSchema s).routesText = x.routesText := by
    unfold routesText
    rw [hEndpoints]
  unfold servicesText
  rw [hRoutes, hService, schema_forSchema, h.services]

theorem importGroups_forSchema
    (files : FileStems)
    (groups : List ImportGroup)
    (ids : List TypeName) :
    (x.forSchema s).importGroups files groups ids =
      x.importGroups files groups ids := by
  induction ids generalizing groups with
  | nil =>
      unfold importGroups
      rfl
  | cons id rest ih =>
      unfold importGroups
      simp only [name_forSchema, ih]

theorem namespaceFile_forSchema
    (h : x.schema.Alike s)
    (files : FileStems)
    (group : NamespaceChunks) :
    (x.forSchema s).namespaceFile files group =
      x.namespaceFile files group := by
  simp only [namespaceFile, importLines, importGroups_forSchema,
    foreignNames, schema_forSchema, h.find, options_forSchema]

theorem indexFile_forSchema
    (h : x.schema.Alike s)
    (files : FileStems)
    (services : String) :
    (x.forSchema s).indexFile files services =
      x.indexFile files services := by
  simp only [indexFile, importLines, importGroups_forSchema,
    serviceNames, endpoints, schema_forSchema, h.services,
    options_forSchema]

/- The files of a scope do not tell such schemas apart. -/
theorem layOut_forSchema
    (h : x.schema.Alike s)
    (chunks : List Chunk) :
    (x.forSchema s).layOut chunks = x.layOut chunks := by
  have hFile : ∀ files, (x.forSchema s).namespaceFile files =
      x.namespaceFile files := by
    intro files
    funext group
    exact namespaceFile_forSchema h files group
  simp only [layOut, servicesText_forSchema h, options_forSchema, hFile,
    indexFile_forSchema h]

end EmitScope

end WireSchema
