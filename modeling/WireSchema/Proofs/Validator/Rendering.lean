import WireSchema.Proofs.Outcome
import WireSchema.Proofs.Schema.Parts
import WireSchema.Proofs.Validator.Program

/-
  The file of a dialect is the text of its program.

  Each piece of a validator is the text of an expression or of
  a statement, and it exists whenever that one does.

  Key definitions include:
    * `Dialect.schemaFor_eq`
    * `Schema.flavorFile_eq`
-/

namespace WireSchema

------------------------------------------------------------
-- Names
------------------------------------------------------------

namespace EmitScope

variable {x : EmitScope}

theorem name_eq (id : TypeName) :
    x.name id = (x.refOf id).map SchemaRef.name := by
  unfold EmitScope.refOf
  cases x.name id with
  | error e => rfl
  | ok name => rfl

/- A reference has the name that its type is emitted under. -/
theorem refOf_eq_ok
    {id : TypeName}
    {r : SchemaRef}
    (h : x.refOf id = .ok r) :
    r.id = id ∧ x.name r.id = .ok r.name := by
  rcases eq_ok_of_bind h with ⟨name, hName, h⟩
  cases h
  exact ⟨rfl, hName⟩

/- References that are equal if their types are. -/
theorem eq_of_id_eq
    {r q : SchemaRef}
    (hr : x.name r.id = .ok r.name)
    (hq : x.name q.id = .ok q.name)
    (hId : r.id = q.id) : r = q := by
  rcases r with ⟨id, name⟩
  rcases q with ⟨other, otherName⟩
  cases hId
  cases hr.symm.trans hq
  rfl

/- Only what has been written changes with declarations. -/
theorem markAll_eq (x : EmitScope) (ts : List WireType) :
    x.markAll ts = { x with emitted := (x.markAll ts).emitted } := by
  unfold markAll
  induction ts.filterMap WireType.id? generalizing x with
  | nil => rfl
  | cons id rest ih =>
      rw [List.foldl_cons, ih]
      rfl

theorem name_markAll
    (x : EmitScope)
    (ts : List WireType)
    (id : TypeName) :
    (x.markAll ts).name id = x.name id := by
  rw [markAll_eq]
  rfl

end EmitScope

namespace Dialect

variable {x : EmitScope}

------------------------------------------------------------
-- Types
------------------------------------------------------------

theorem arrayChain_eq (d : Dialect) (elem : String) (len : Nat) :
    d.arrayChain elem len =
      { base := d.array elem
        steps :=
          (EmitScope.lengthBounds len).map d.refinement } := by
  unfold arrayChain EmitScope.lengthBounds
  split
  · rfl
  · rfl

theorem constantFor_eq (d : Dialect) (id : TypeName) :
    d.constantFor x id =
      (x.constantTerm id).map (SchemaTerm.text d) := by
  unfold constantFor EmitScope.constantTerm
  cases x.name id with
  | error e => rfl
  | ok name =>
      by_cases hForward : x.isForward id = true
      · simp [Except.map, bind, Except.bind, hForward,
          SchemaTerm.text, SchemaRef.constant]
      · simp [Except.map, bind, Except.bind, hForward,
          SchemaTerm.text, SchemaRef.constant]

theorem schemasFor_eq
    {d : Dialect}
    {ts : List WireType}
    (h : ∀ t ∈ ts,
      d.schemaFor x t = (x.termFor t).map (SchemaTerm.text d)) :
    d.schemasFor x ts =
      (x.termsFor ts).map (SchemaTerm.texts d) := by
  induction ts with
  | nil => rfl
  | cons t rest ih =>
      rw [List.forall_mem_cons] at h
      rw [schemasFor, EmitScope.termsFor, h.1, ih h.2]
      cases x.termFor t with
      | error e => rfl
      | ok part =>
          cases x.termsFor rest with
          | error e => rfl
          | ok parts => rfl

theorem schemaFor_eq (d : Dialect) (t : WireType) :
    d.schemaFor x t = (x.termFor t).map (SchemaTerm.text d) := by
  induction t using WireType.inductionOnParts with
  | hRecord r => rfl
  | hSynonym s => rfl
  | hEnum e => rfl
  | hBase kind bits => rfl
  | hArray elem len hElem =>
      rw [schemaFor, EmitScope.termFor, hElem]
      cases x.termFor elem with
      | error e => rfl
      | ok elem =>
          simp [Except.map, bind, Except.bind, arrayChain_eq,
            SchemaTerm.text]
  | hMap key value hKey hValue =>
      rw [schemaFor, EmitScope.termFor, hKey, hValue]
      split
      · cases x.termFor key with
        | error e => rfl
        | ok key =>
            cases x.termFor value with
            | error e => rfl
            | ok value => rfl
      · cases x.termFor value with
        | error e => rfl
        | ok value => rfl
  | hReference id => exact d.constantFor_eq id
  | hPointer elem hElem =>
      by_cases hEmpty : ∃ bits, elem = .base .empty bits
      · rcases hEmpty with ⟨bits, rfl⟩
        rfl
      · rw [schemaFor, EmitScope.termFor, hElem]
        · cases x.termFor elem with
          | error e => rfl
          | ok elem => rfl
        · intro bits hBase
          exact hEmpty ⟨bits, hBase⟩
        · intro bits hBase
          exact hEmpty ⟨bits, hBase⟩
  | hUnion members hMembers =>
      rw [schemaFor, EmitScope.termFor, schemasFor_eq hMembers]
      cases x.termsFor members with
      | error e => rfl
      | ok parts => rfl
  | hParam p => rfl

/- A schema with refinements put behind it. -/
def refine
    (d : Dialect)
    (more : List Refinement)
    (c : Chain) : String :=
  d.finish
    { c with steps := c.steps ++ more.map d.refinement }

theorem chainFor_eq
    (d : Dialect)
    (t : WireType)
    (more : List Refinement) :
    (d.chainFor x t).map (d.refine more) =
      (x.refinedTerm t more).map (SchemaTerm.text d) := by
  have hOther : ∀ t : WireType,
      (do
          let base ← d.schemaFor x t
          .ok ({ base } : Chain) : Except EmitError Chain).map
        (d.refine more) =
      (do
          let base ← x.termFor t
          .ok (.refined base more) :
            Except EmitError SchemaTerm).map
        (SchemaTerm.text d) := by
    intro t
    rw [schemaFor_eq]
    cases x.termFor t with
    | error e => rfl
    | ok base => simp [Except.map, bind, Except.bind, refine,
        SchemaTerm.text]
  cases t with
  | base kind bits =>
      simp [chainFor, EmitScope.refinedTerm, Except.map, refine,
        baseChain, SchemaTerm.text]
  | array elem len =>
      unfold chainFor EmitScope.refinedTerm
      dsimp only
      rw [schemaFor_eq]
      cases x.termFor elem with
      | error e => rfl
      | ok elem =>
          simp [Except.map, bind, Except.bind, refine,
            arrayChain_eq, SchemaTerm.text]
  | _ => exact hOther _

------------------------------------------------------------
-- Fields
------------------------------------------------------------

theorem parsedChain_eq
    (d : Dialect)
    (t : WireType)
    (more : List Refinement) :
    d.refine more (d.parsedChain x t) =
      (x.parsedTerm t more).text d := by
  unfold parsedChain EmitScope.parsedTerm
  cases x.schema.scalarBehind? t with
  | none => simp [refine, SchemaTerm.text]
  | some scalar => simp [refine, SchemaTerm.text]

theorem parsedLiterals_eq
    (d : Dialect)
    (t : WireType)
    (values : List Literal) :
    d.parsedLiterals x t values =
      (x.parsedLiteralsTerm t values).text d := by
  unfold parsedLiterals EmitScope.parsedLiteralsTerm
  cases x.schema.scalarBehind? t with
  | none => rfl
  | some scalar =>
      by_cases hText : scalar.1 = .string
      · simp [hText, SchemaTerm.text]
      · simp [hText, SchemaTerm.text]

theorem valueSchema_eq
    (d : Dialect)
    (f : Field WireType)
    (effects : FieldEffects) :
    d.valueSchema x f effects =
      (x.valueTerm f effects).map (SchemaTerm.text d) := by
  unfold valueSchema EmitScope.valueTerm
  cases effects.oneOf with
  | some values =>
      by_cases hEncoded : f.stringEncoded = true
      · simp [hEncoded, Except.map, SchemaTerm.text,
          parsedLiterals_eq]
      · simp [hEncoded, Except.map, SchemaTerm.text]
  | none =>
      by_cases hEncoded : f.stringEncoded = true
      · simp only [if_pos hEncoded]
        exact congrArg Except.ok (d.parsedChain_eq ..)
      · simp only [if_neg hEncoded]
        rw [← chainFor_eq]
        rfl

theorem wrapValue_eq
    (d : Dialect)
    (f : Field WireType)
    (value : SchemaTerm) :
    d.wrapValue x f (value.text d) =
      (x.wrapTerm f value).text d := by
  unfold wrapValue EmitScope.wrapTerm
  dsimp only
  split
  · split
    · split
      · rfl
      · rfl
    · split
      · rfl
      · rfl
  · split
    · rfl
    · rfl

theorem fieldEntry_eq
    (d : Dialect)
    (owner : String)
    (f : Field WireType) :
    (d.fieldEntry x owner f).1 =
      (x.entryOf d.name owner f).map (SchemaEntry.text d) := by
  unfold fieldEntry fieldSchema EmitScope.entryOf
  cases x.schema.fieldEffects? owner f d.name with
  | none => rfl
  | some effects =>
      dsimp only
      rw [valueSchema_eq]
      cases x.valueTerm f effects with
      | error e => rfl
      | ok value =>
          simp [Except.map, bind, Except.bind, wrapValue_eq,
            SchemaEntry.text, String.append_assoc]

theorem fieldEntries_eq
    (d : Dialect)
    (owner : String)
    (fields : List (Field WireType)) :
    (d.fieldEntries x owner fields).1 =
      (fields.mapM (x.entryOf d.name owner)).map
        (List.map (SchemaEntry.text d)) := by
  induction fields with
  | nil => rfl
  | cons f rest ih =>
      have hFirst := d.fieldEntry_eq (x := x) owner f
      rw [List.mapM_cons]
      unfold fieldEntries
      cases hEntry : d.fieldEntry x owner f with
      | mk found warnings =>
          rw [hEntry] at hFirst
          dsimp only at hFirst
          rw [hFirst]
          cases x.entryOf d.name owner f with
          | error e => rfl
          | ok entry =>
              dsimp only [Except.map]
              rw [ih]
              cases rest.mapM (x.entryOf d.name owner) with
              | error e => rfl
              | ok entries => rfl

------------------------------------------------------------
-- Declarations
------------------------------------------------------------

theorem constantText_eq
    (d : Dialect)
    (id : TypeName)
    (params : List (TypeParam WireType))
    (doc : Doc)
    (body : SchemaBody) :
    d.constantText x id params doc (body.text d) =
      (x.statement id params doc body).map
        (SchemaStatement.text d) := by
  unfold constantText EmitScope.statement EmitScope.refOf
  cases x.name id with
  | error e => rfl
  | ok name =>
      cases params with
      | nil =>
          cases x.options.baseTypes with
          | true =>
              simp [Except.map, bind, Except.bind,
                SchemaStatement.text, SchemaRef.constant]
          | false =>
              simp [Except.map, bind, Except.bind,
                SchemaStatement.text, SchemaRef.constant]
      | cons first rest =>
          simp [Except.map, bind, Except.bind,
            SchemaStatement.text, SchemaRef.constant]

theorem recordSchema_eq
    (d : Dialect)
    (r : RecordDecl WireType) :
    (d.recordSchema x r).1 =
      (x.statementOf d.name (.record r)).map
        (SchemaStatement.text d) := by
  have hParents : r.parents.mapM x.name =
      (r.parents.mapM x.refOf).map (List.map SchemaRef.name) :=
    mapM_map EmitScope.name_eq r.parents
  unfold recordSchema EmitScope.statementOf
  dsimp only
  rw [hParents]
  cases x.name r.id with
  | error e => rfl
  | ok owner =>
      cases r.parents.mapM x.refOf with
      | error e => rfl
      | ok parents =>
          simp only [bind, Except.bind, Except.map]
          rw [fieldEntries_eq]
          cases (r.fields.filter fun f => !f.skip).mapM
              (x.entryOf d.name owner) with
          | error e => rfl
          | ok entries =>
              have hText := d.constantText_eq (x := x) r.id
                r.params r.doc (.object parents entries)
              have hConstants :
                  (parents.map SchemaRef.name).map schemaConstant =
                    parents.map SchemaRef.constant := by
                rw [List.map_map]
                rfl
              dsimp only [Except.map]
              rw [hConstants]
              exact hText

theorem declaration_eq (d : Dialect) (t : WireType) :
    (d.declaration x t).1 =
      (x.statementOf d.name t).map (SchemaStatement.text d) := by
  cases t with
  | record r => exact d.recordSchema_eq r
  | synonym s =>
      unfold declaration EmitScope.statementOf
      dsimp only
      rw [schemaFor_eq]
      cases x.termFor s.target with
      | error e => rfl
      | ok value =>
          exact d.constantText_eq s.id s.params s.doc (.term value)
  | enum e =>
      exact d.constantText_eq e.id [] e.doc
        (.term (.literals _))
  | _ => rfl

------------------------------------------------------------
-- Endpoints
------------------------------------------------------------

theorem endpointEntry_eq (d : Dialect) (e : Endpoint) :
    d.endpointEntry x e =
      (x.rowOf e).map (EndpointRow.text d) := by
  unfold endpointEntry EmitScope.rowOf
  simp only [schemaFor_eq]
  cases e.request with
  | none =>
      cases x.termFor e.response with
      | error e => rfl
      | ok response => rfl
  | some t =>
      dsimp only
      cases x.termFor t with
      | error e => rfl
      | ok request =>
          cases x.termFor e.response with
          | error e => rfl
          | ok response => rfl

theorem endpointTable_eq (d : Dialect) :
    d.endpointTable x =
      ((x.schema.services.flatMap Service.endpoints).mapM
        x.rowOf).map (endpointsText d) := by
  unfold endpointTable
  dsimp only
  generalize x.schema.services.flatMap Service.endpoints = es
  rw [mapM_map d.endpointEntry_eq]
  cases es with
  | nil => rfl
  | cons e rest =>
      rw [List.mapM_cons]
      cases x.rowOf e with
      | error e => rfl
      | ok row =>
          cases rest.mapM x.rowOf with
          | error e => rfl
          | ok rows => rfl

end Dialect

------------------------------------------------------------
-- Files
------------------------------------------------------------

namespace EmitScope

/- A statement declares the constant of its type. -/
theorem target_of_statementOf
    {x : EmitScope}
    {flavor : String}
    {t : WireType}
    {st : SchemaStatement}
    (h : x.statementOf flavor t = .ok st) :
    t.id? = some st.target.id
      ∧ x.name st.target.id = .ok st.target.name := by
  have hStatement : ∀ id params doc body,
      x.statement id params doc body = .ok st →
      some id = some st.target.id
        ∧ x.name st.target.id = .ok st.target.name := by
    intro id params doc body hOk
    rcases eq_ok_of_bind hOk with ⟨target, hTarget, hOk⟩
    rcases eq_ok_of_bind hTarget with ⟨name, hName, hTarget⟩
    cases hOk
    cases hTarget
    exact ⟨rfl, hName⟩
  cases t with
  | record r =>
      rcases eq_ok_of_bind h with ⟨owner, -, h⟩
      rcases eq_ok_of_bind h with ⟨parents, -, h⟩
      rcases eq_ok_of_bind h with ⟨entries, -, h⟩
      exact hStatement _ _ _ _ h
  | synonym s =>
      rcases eq_ok_of_bind h with ⟨value, -, h⟩
      exact hStatement _ _ _ _ h
  | enum e => exact hStatement _ _ _ _ h
  | _ => cases h

/- What is written are the texts of the statements, in order. -/
theorem writeAll_eq
    (x : EmitScope)
    (d : Dialect)
    (ts : List WireType) :
    (x.writeAll d.declaration ts).map
        (fun w => (w.scope, w.chunks)) =
      (x.statementsOf d.name ts).map fun sts =>
        (x.markAll ts, sts.map (SchemaStatement.chunk d)) := by
  induction ts generalizing x with
  | nil => rfl
  | cons t rest ih =>
      unfold writeAll statementsOf
      cases hId : t.id? with
      | none =>
          rw [x.markAll_of_id?_eq_none hId]
          exact ih x
      | some id =>
          have hText := d.declaration_eq (x := x) t
          have hRest := ih (x.markEmitted id)
          rw [x.markAll_of_id?_eq_some hId]
          dsimp only
          cases hWritten : d.declaration x t with
          | mk found warnings =>
              rw [hWritten] at hText
              dsimp only at hText
              rw [hText]
              cases hStatement : x.statementOf d.name t with
              | error e => rfl
              | ok st =>
                  have hTarget := (target_of_statementOf hStatement).1
                  rw [hId, Option.some.injEq] at hTarget
                  dsimp only [Except.map]
                  refine Eq.trans
                    (b := ((writeAll d.declaration
                        (x.markEmitted id) rest).map
                      fun w => (w.scope, w.chunks)).map
                      fun p => (p.1, { id, text := st.text d } :: p.2))
                    ?_ ?_
                  · cases writeAll d.declaration
                        (x.markEmitted id) rest with
                    | error e => rfl
                    | ok more => rfl
                  · rw [hRest, hTarget]
                    cases statementsOf d.name
                        (x.markEmitted st.target.id) rest with
                    | error e => rfl
                    | ok more => rfl

end EmitScope

namespace Schema

/- The file of a dialect is the text of its flavor's program. -/
theorem flavorFile_eq
    (s : Schema)
    (o : EmitOptions)
    (d : Dialect) :
    (s.flavorFile o d).map Emission.files =
      (s.validatorProgram o d.name).map fun p =>
        [{ path := o.baseName ++ "." ++ d.fileSuffix
           contents := p.text d }] := by
  have hSchema : ∀ x : EmitScope, ∀ ts,
      (x.markAll ts).schema = x.schema := by
    intro x ts
    rw [EmitScope.markAll_eq]
  have hOf : (EmitScope.ofSchema s o).schema = s := rfl
  unfold flavorFile validatorProgram EmitScope.writeSchema
    OutputFlavor.complete
  dsimp only [Dialect.flavor]
  rw [hOf]
  generalize EmitScope.ofSchema s o = x at hOf
  have hAll := x.writeAll_eq d (s.emitOrder x.names)
  cases hStatements :
      x.statementsOf d.name (s.emitOrder x.names) with
  | error e =>
      rw [hStatements] at hAll
      rw [eq_error_of_map hAll]
      rfl
  | ok sts =>
      rw [hStatements] at hAll
      rcases eq_ok_of_map hAll with ⟨w, hWritten, hParts⟩
      rcases Prod.mk.inj hParts with ⟨hScope, hChunks⟩
      rw [hWritten]
      dsimp only [Except.mapError, bind, Except.bind]
      rw [Dialect.endpointTable_eq, hScope, hSchema, hOf, hChunks]
      cases (s.services.flatMap Service.endpoints).mapM
          (x.markAll (s.emitOrder x.names)).rowOf with
      | error e => rfl
      | ok rows => rfl

end Schema

end WireSchema
