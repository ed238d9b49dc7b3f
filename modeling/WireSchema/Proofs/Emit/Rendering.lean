import WireSchema.Generation.Emission
import WireSchema.Proofs.Emit.Program
import WireSchema.Proofs.Validator.Rendering

/-
  The files of the base types are the text of their program.

  Each piece of a file is the text of a term, and it exists
  whenever that one does.

  Key definitions include:
    * `WireType.IsNothing`, `EmitScope.expression_pointer`
    * `EmitScope.expression_eq`
    * `EmitScope.declarationText_eq`
    * `Schema.baseFiles_eq`
-/

namespace WireSchema

/- The base type of no value but the empty one. -/
def WireType.IsNothing (t : WireType) : Prop :=
  ∃ bits, t = .base .empty bits

namespace EmitScope

variable {x : EmitScope}

------------------------------------------------------------
-- Expressions
------------------------------------------------------------

/- A pointer has null behind its target, unless that is nothing. -/
theorem expression_pointer
    {t : WireType}
    (h : ¬t.IsNothing) :
    x.expression (.pointer t) =
      (x.expression t).map fun text => text ++ " | null" := by
  rw [expression]
  · rfl
  · intro bits hBase
    exact h ⟨bits, hBase⟩

theorem expressions_eq
    {ts : List WireType}
    (h : ∀ t ∈ ts, x.expression t = (x.typeTerm t).map TypeTerm.text) :
    x.expressions ts = (x.typeTerms ts).map TypeTerm.texts := by
  induction ts with
  | nil => rfl
  | cons t rest ih =>
      rw [List.forall_mem_cons] at h
      rw [expressions, typeTerms, h.1, ih h.2]
      simp only [bind_of_map, map_of_bind]
      rfl

theorem expression_eq (t : WireType) :
    x.expression t = (x.typeTerm t).map TypeTerm.text := by
  induction t using WireType.inductionOnParts with
  | hRecord d => rfl
  | hSynonym d => rfl
  | hEnum d => rfl
  | hBase kind bits => rfl
  | hArray elem len hElem =>
      rw [expression, typeTerm, hElem, bind_of_map, map_of_bind]
      rfl
  | hMap key value _ hValue =>
      rw [expression, typeTerm, hValue, bind_of_map, map_of_bind]
      rfl
  | hReference id =>
      rw [expression, typeTerm, name_eq, map_of_bind]
      rfl
  | hPointer elem hElem =>
      by_cases hNothing : elem.IsNothing
      · rcases hNothing with ⟨bits, rfl⟩
        rfl
      · rw [expression_pointer hNothing, typeTerm, hElem,
          map_of_bind]
        · cases x.typeTerm elem with
          | error e => rfl
          | ok inner => rfl
        · intro bits hBase
          exact hNothing ⟨bits, hBase⟩
  | hUnion members hMembers =>
      rw [expression, typeTerm, expressions_eq hMembers,
        bind_of_map, map_of_bind]
      rfl
  | hParam p => rfl

------------------------------------------------------------
-- Declarations
------------------------------------------------------------

theorem paramText_eq (p : TypeParam WireType) :
    x.paramText p = (x.paramTerm p).map ParamTerm.text := by
  unfold paramText paramTerm
  cases p.bound with
  | none => rfl
  | some bound =>
      dsimp only
      split
      · rfl
      · rw [expression_eq, bind_of_map, map_of_bind]
        rfl

theorem paramsText_eq (params : List (TypeParam WireType)) :
    x.paramsText params =
      (params.mapM x.paramTerm).map ParamTerm.listText := by
  unfold paramsText
  rw [mapM_map paramText_eq]
  cases params with
  | nil => rfl
  | cons p rest =>
      rw [List.mapM_cons]
      cases x.paramTerm p with
      | error e => rfl
      | ok first =>
          cases rest.mapM x.paramTerm with
          | error e => rfl
          | ok more => rfl

theorem fieldType_eq (f : Field WireType) :
    x.fieldType f = (x.fieldTerm f).map TypeTerm.text := by
  unfold fieldType fieldTerm
  split
  · split
    · rfl
    · rfl
  · exact expression_eq f.type

theorem fieldText_eq (f : Field WireType) :
    x.fieldText f = (x.propertyTerm f).map PropertyTerm.text := by
  have hNull : ∀ (value : TypeTerm) (isNullable : Bool),
      value.text ++ (if isNullable then " | null" else "") =
        (if isNullable then value.nullable else value).text := by
    intro value isNullable
    cases isNullable with
    | false => exact String.append_empty
    | true => rfl
  unfold fieldText propertyTerm
  rw [fieldType_eq, bind_of_map, map_of_bind]
  simp only [Except.map, PropertyTerm.text, ← hNull,
    String.append_assoc]

theorem recordText_eq (d : RecordDecl WireType) :
    x.recordText d =
      (x.declarationOf (.record d)).map BaseDeclaration.text := by
  have hParents : d.parents.mapM x.name =
      (d.parents.mapM x.refOf).map (List.map SchemaRef.name) :=
    mapM_map name_eq d.parents
  unfold recordText declarationOf
  dsimp only
  rw [name_eq, paramsText_eq, hParents, mapM_map fieldText_eq]
  simp only [bind_of_map, map_of_bind]
  simp [Except.map, BaseDeclaration.text, String.append_assoc]

theorem synonymText_eq (d : SynonymDecl WireType) :
    x.synonymText d =
      (x.declarationOf (.synonym d)).map BaseDeclaration.text := by
  unfold synonymText declarationOf
  dsimp only
  rw [name_eq, paramsText_eq, expression_eq]
  simp only [bind_of_map, map_of_bind]
  simp [Except.map, BaseDeclaration.text, String.append_assoc]

theorem enumText_eq (d : EnumDecl) :
    x.enumText d =
      (x.declarationOf (.enum d)).map BaseDeclaration.text := by
  have hBody : ∀ target : SchemaRef,
      x.typeComment d.doc "" ++ x.enumBody target.name d.members =
        BaseDeclaration.text
          { target
            comment := x.typeComment d.doc ""
            params := []
            body := x.enumAround target.name d.members } := by
    intro target
    unfold enumBody enumAround BaseDeclaration.text
    cases x.options.enumStyle with
    | taggedUnion => simp [String.append_assoc]
    | nativeEnum => simp [String.append_assoc]
    | flatConstants => simp [String.append_assoc]
  unfold enumText declarationOf
  dsimp only
  rw [name_eq, bind_of_map, map_of_bind]
  simp only [hBody]
  rfl

theorem declarationText_eq (t : WireType) :
    x.declarationText t =
      (x.declarationOf t).map BaseDeclaration.text := by
  cases t with
  | record d => exact recordText_eq d
  | synonym d => exact synonymText_eq d
  | enum d => exact enumText_eq d
  | _ => rfl

------------------------------------------------------------
-- Services
------------------------------------------------------------

theorem endpointText_eq (e : Endpoint) :
    x.endpointText e = (x.methodTerm e).map MethodTerm.text := by
  unfold endpointText methodTerm
  rw [expression_eq, bind_of_map, map_of_bind]
  cases e.request with
  | none =>
      simp [Except.map, bind, Except.bind, MethodTerm.text,
        String.append_assoc]
  | some t =>
      simp only [expression_eq, bind_of_map, map_of_bind]
      simp [Except.map, MethodTerm.text, String.append_assoc]
      rfl

theorem serviceText_eq (v : Service) :
    x.serviceText v = (x.serviceTerm v).map ServiceTerm.text := by
  unfold serviceText serviceTerm
  rw [mapM_map endpointText_eq, bind_of_map, map_of_bind]
  rfl

theorem servicesText_eq :
    x.servicesText =
      (x.schema.services.mapM x.serviceTerm).map fun services =>
        String.join (services.map ServiceTerm.text)
          ++ x.routesText := by
  unfold servicesText
  rw [mapM_map serviceText_eq, bind_of_map]
  rfl

------------------------------------------------------------
-- Files
------------------------------------------------------------

theorem importLines_eq
    (files : FileStems)
    (ids : List TypeName)
    (dir : String) :
    x.importLines files ids dir =
      (x.importGroups files [] (sortNames ids)).map fun groups =>
        String.join (groups.map (importLine dir)) :=
  rfl

theorem namespaceFile_eq
    (ds : List BaseDeclaration)
    (space : String) :
    x.namespaceFile (x.stemsOf ds)
        { space
          chunks :=
            (ds.map BaseDeclaration.chunk).filter fun c =>
              c.id.space == space } =
      (x.moduleOf ds space).map
        (BaseModule.file x.options.baseName) := by
  have hOwn :
      (ds.map BaseDeclaration.chunk).filter
          (fun c => c.id.space == space) =
        (ds.filter fun d => d.target.id.space == space).map
          BaseDeclaration.chunk :=
    List.filter_map
  unfold namespaceFile moduleOf
  dsimp only
  rw [hOwn, importLines_eq, bind_of_map, map_of_bind]
  rfl

/- The files of the namespaces are those of the modules. -/
theorem namespaceFiles_eq (ds : List BaseDeclaration) :
    (groupChunks (ds.map BaseDeclaration.chunk)).mapM
        (x.namespaceFile (x.stemsOf ds)) =
      ((sortTexts (spacesOf ds)).mapM (x.moduleOf ds)).map
        (List.map (BaseModule.file x.options.baseName)) := by
  unfold groupChunks
  rw [List.mapM_map, List.map_map]
  exact mapM_map (namespaceFile_eq ds) _

/- A service has a text, so without text there are none. -/
theorem services_eq_nil
    {p : BaseProgram}
    (h : p.servicesText.isEmpty = true) : p.services = [] := by
  unfold BaseProgram.servicesText at h
  cases hServices : p.services with
  | nil => rfl
  | cons v rest =>
      rw [hServices] at h
      simp [ServiceTerm.text, String.join_cons] at h

/- Imports for the services, if there are any, are added. -/
theorem parts_of_importServices
    {files : FileStems}
    {p q : BaseProgram}
    (h : x.importServices files p = .ok q) :
    q = { p with imports := q.imports }
      ∧ (p.services = []
        ∨ x.importGroups files [] (sortNames x.serviceNames) =
          .ok q.imports) := by
  unfold importServices at h
  split at h
  · next hNone =>
      cases h
      exact ⟨rfl, .inl (services_eq_nil hNone)⟩
  · rcases eq_ok_of_bind h with ⟨imports, hImports, h⟩
    cases h
    exact ⟨rfl, .inr hImports⟩

/- The index has the text of the services, if there is any. -/
theorem indexFile_eq
    {files : FileStems}
    {p : BaseProgram}
    (hExports :
      p.exports =
        sortUpTo textUpTo (files.stems.map Prod.snd)) :
    x.indexFile files p.servicesText =
      (x.importServices files p).map
        (BaseProgram.index x.options.baseName) := by
  unfold indexFile importServices
  dsimp only
  rw [importLines_eq, ← hExports]
  split
  · next hNone =>
      dsimp only [Except.map, bind, Except.bind, BaseProgram.index]
      rw [if_pos hNone]
  · next hSome =>
      cases x.importGroups files [] (sortNames x.serviceNames) with
      | error e => rfl
      | ok groups =>
          have hSame :
              ({ p with imports := groups } :
                BaseProgram).servicesText = p.servicesText :=
            rfl
          dsimp only [Except.map, bind, Except.bind,
            BaseProgram.index]
          rw [hSame, if_neg hSome]

/- Files that are one for each namespace. -/
theorem layOut_eq
    (hMany : x.options.singleFile = false)
    (ds : List BaseDeclaration) :
    x.layOut (ds.map BaseDeclaration.chunk) =
      (x.programOf ds).map
        (BaseProgram.files x.options.baseName) := by
  have hStems :
      FileStems.ofNamespaces
          ((ds.map BaseDeclaration.chunk).map fun c => c.id.space)
          x.options.strippedPaths =
        x.stemsOf ds := by
    rw [List.map_map]
    rfl
  unfold layOut programOf
  dsimp only
  rw [servicesText_eq, hMany, hStems]
  cases x.schema.services.mapM x.serviceTerm with
  | error e => rfl
  | ok services =>
      dsimp only [Except.map, bind, Except.bind]
      rw [if_neg Bool.false_ne_true, namespaceFiles_eq]
      cases (sortTexts (spacesOf ds)).mapM (x.moduleOf ds) with
      | error e => rfl
      | ok modules =>
          let p : BaseProgram :=
            { modules
              exports :=
                sortUpTo textUpTo
                  ((x.stemsOf ds).stems.map Prod.snd)
              imports := []
              services
              routes := x.routesText }
          have hIndex := indexFile_eq (x := x) (p := p) rfl
          dsimp only [Except.map]
          change (x.indexFile (x.stemsOf ds) p.servicesText).bind _ =
            (x.importServices (x.stemsOf ds) p).map _
          rw [hIndex]
          cases hQ : x.importServices (x.stemsOf ds) p with
          | error e => rfl
          | ok q =>
              have hModules : q.modules = modules := by
                rw [(parts_of_importServices hQ).1]
              rw [← hModules]
              rfl

/- A declaration declares the type that it is made for. -/
theorem target_of_declarationOf
    {t : WireType}
    {d : BaseDeclaration}
    (h : x.declarationOf t = .ok d) :
    t.id? = some d.target.id
      ∧ x.name d.target.id = .ok d.target.name := by
  cases t with
  | record r =>
      rcases eq_ok_of_bind h with ⟨target, hTarget, h⟩
      rcases eq_ok_of_bind h with ⟨params, -, h⟩
      rcases eq_ok_of_bind h with ⟨parents, -, h⟩
      rcases eq_ok_of_bind h with ⟨properties, -, h⟩
      cases h
      rcases refOf_eq_ok hTarget with ⟨hId, hName⟩
      exact ⟨congrArg some hId.symm, hName⟩
  | synonym s =>
      rcases eq_ok_of_bind h with ⟨target, hTarget, h⟩
      rcases eq_ok_of_bind h with ⟨params, -, h⟩
      rcases eq_ok_of_bind h with ⟨value, -, h⟩
      cases h
      rcases refOf_eq_ok hTarget with ⟨hId, hName⟩
      exact ⟨congrArg some hId.symm, hName⟩
  | enum e =>
      rcases eq_ok_of_bind h with ⟨target, hTarget, h⟩
      cases h
      rcases refOf_eq_ok hTarget with ⟨hId, hName⟩
      exact ⟨congrArg some hId.symm, hName⟩
  | _ => cases h

/- What is written are the texts of the declarations. -/
theorem writeAll_baseEmitter_eq
    (x : EmitScope)
    (ts : List WireType) :
    x.writeAll baseEmitter ts =
      (x.declarationsOf ts).map fun ds =>
        { scope := x.markAll ts
          chunks := ds.map BaseDeclaration.chunk } := by
  induction ts generalizing x with
  | nil => rfl
  | cons t rest ih =>
      unfold writeAll declarationsOf
      cases hId : t.id? with
      | none =>
          rw [x.markAll_of_id?_eq_none hId]
          exact ih x
      | some id =>
          rw [x.markAll_of_id?_eq_some hId]
          dsimp only [baseEmitter]
          rw [declarationText_eq, ih]
          cases hDecl : x.declarationOf t with
          | error e => rfl
          | ok d =>
              have hTarget := (target_of_declarationOf hDecl).1
              rw [hId, Option.some.injEq] at hTarget
              rw [hTarget]
              cases (x.markEmitted d.target.id).declarationsOf
                  rest with
              | error e => rfl
              | ok more => rfl

end EmitScope

namespace Schema

/-
  With a file for each namespace, the files of the base types
  are the text of their program.
-/
theorem baseFiles_eq
    {o : EmitOptions}
    (hMany : o.singleFile = false)
    (s : Schema) :
    s.baseFiles o =
      (s.baseProgram o).map fun p =>
        { files := p.files o.baseName } := by
  unfold baseFiles baseProgram EmitScope.writeSchema
  dsimp only
  have hSchema : (EmitScope.ofSchema s o).schema = s := rfl
  have hOptions : (EmitScope.ofSchema s o).options = o := rfl
  rw [hSchema, EmitScope.writeAll_baseEmitter_eq]
  generalize EmitScope.ofSchema s o = x at hOptions
  cases x.declarationsOf (s.emitOrder x.names) with
  | error e => rfl
  | ok ds =>
      have hSame : (x.markAll (s.emitOrder x.names)).options = o := by
        rw [EmitScope.markAll_eq]
        exact hOptions
      have hFiles := EmitScope.layOut_eq
        (x := x.markAll (s.emitOrder x.names))
        (by rw [hSame]; exact hMany) ds
      dsimp only [Except.map, Except.mapError, bind, Except.bind]
      rw [hFiles, hSame]
      cases (x.markAll (s.emitOrder x.names)).programOf ds with
      | error e => rfl
      | ok p => rfl

end Schema

end WireSchema
