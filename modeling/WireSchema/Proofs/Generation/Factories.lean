import WireSchema.Proofs.Generation.Artifacts
import WireSchema.Proofs.Generation.Definitions

/-
  Constants of generic types are factories.

  A factory has to be called with an expression for each of
  its parameters.  Every expression of a program calls the
  constants it mentions in this way.  The parents of an object
  are mentioned by their constants alone, so a generic one is
  never called.

  Key definitions include:
    * `ConstantUse`, `ValidatorProgram.uses`
    * `ValidatorProgram.AppliesFactories`
    * `Schema.flavorFile_appliesFactories_iff`
-/

namespace WireSchema

------------------------------------------------------------
-- Uses of Constants
------------------------------------------------------------

/- A constant where it is mentioned, and its arguments there. -/
structure ConstantUse where
  target : SchemaRef
  args : Nat
  deriving DecidableEq, Repr, Inhabited

/- A constant that is mentioned without a call. -/
def ConstantUse.bare (target : SchemaRef) : ConstantUse :=
  { target, args := 0 }

namespace SchemaTerm

mutual

/- All constants of an expression, deferred or not. -/
def uses : SchemaTerm → List ConstantUse
  | .base _ => []
  | .null => []
  | .param _ => []
  | .literals _ => []
  | .checked .. => []
  | .parsed .. => []
  | .array elem => uses elem
  | .map key value => uses key ++ uses value
  | .union members => usesInAll members
  | .nullable inner => uses inner
  | .optional inner => uses inner
  | .refined inner _ => uses inner
  | .constant target args => [{ target, args }]
  | .deferred inner => uses inner

def usesInAll : List SchemaTerm → List ConstantUse
  | [] => []
  | e :: rest => uses e ++ usesInAll rest

end

end SchemaTerm

namespace SchemaBody

/- The constants in the expressions of a body. -/
def termUses : SchemaBody → List ConstantUse
  | .object _ entries => entries.flatMap fun e => e.value.uses
  | .term value => value.uses

/- Parents are written as their constants. -/
def uses (b : SchemaBody) : List ConstantUse :=
  b.parents.map .bare ++ b.termUses

end SchemaBody

/- The inferred type of a constant mentions the constant. -/
def SchemaStatement.uses (st : SchemaStatement) :
    List ConstantUse :=
  st.body.uses
    ++ if st.params.isEmpty && st.isTyped then
        [.bare st.target]
      else []

def EndpointRow.uses (row : EndpointRow) : List ConstantUse :=
  let request :=
    match row.request with
    | some e => e.uses
    | none => []
  request ++ row.response.uses

namespace ValidatorProgram

/- All mentions of constants in a file. -/
def uses (p : ValidatorProgram) : List ConstantUse :=
  p.statements.flatMap SchemaStatement.uses
    ++ p.rows.flatMap EndpointRow.uses

/-
  A mention of a constant that the file declares, with an
  argument for each parameter of the declaration.
-/
def FitsFactory
    (p : ValidatorProgram)
    (u : ConstantUse) : Prop :=
  u.target ∈ p.statements.map SchemaStatement.target
    ∧ ∀ st ∈ p.statements, st.target = u.target →
      u.args = st.params.length

def AppliesFactories (p : ValidatorProgram) : Prop :=
  ∀ u ∈ p.uses, p.FitsFactory u

end ValidatorProgram

------------------------------------------------------------
-- Expressions
------------------------------------------------------------

/- The parameters of a declaration. -/
def WireType.params : WireType → List (TypeParam WireType)
  | .record d => d.params
  | .synonym d => d.params
  | _ => []

namespace EmitScope

variable {x : EmitScope}

/- A mention that has the name and the arity of its type. -/
structure Fits (x : EmitScope) (u : ConstantUse) : Prop where
  name : x.name u.target.id = .ok u.target.name
  args : u.args = x.arity u.target.id

/- Which constants there are and what they take, no more. -/
theorem fits_markAll {ts : List WireType} {u : ConstantUse} :
    (x.markAll ts).Fits u ↔ x.Fits u := by
  rw [markAll_eq]
  exact ⟨fun h => ⟨h.name, h.args⟩, fun h => ⟨h.name, h.args⟩⟩

theorem fits_constantTerm
    {id : TypeName}
    {e : SchemaTerm}
    (h : x.constantTerm id = .ok e) : ∀ u ∈ e.uses, x.Fits u := by
  rcases eq_ok_of_bind h with ⟨name, hName, h⟩
  have hUses : e.uses = [⟨⟨id, name⟩, x.arity id⟩] := by
    dsimp only at h
    split at h
    · cases h
      rfl
    · cases h
      rfl
  rw [hUses]
  exact List.forall_mem_singleton.mpr ⟨hName, rfl⟩

theorem fits_termsFor
    {ts : List WireType}
    (hEach : ∀ t ∈ ts, ∀ e, x.termFor t = .ok e →
      ∀ u ∈ e.uses, x.Fits u)
    {es : List SchemaTerm}
    (h : x.termsFor ts = .ok es) :
    ∀ u ∈ SchemaTerm.usesInAll es, x.Fits u := by
  induction ts generalizing es with
  | nil =>
      cases h
      exact List.forall_mem_nil _
  | cons t rest ih =>
      rw [List.forall_mem_cons] at hEach
      rw [termsFor] at h
      rcases eq_ok_of_bind h with ⟨e, hFirst, h⟩
      rcases eq_ok_of_bind h with ⟨more, hRest, h⟩
      cases h
      exact List.forall_mem_append.mpr
        ⟨hEach.1 e hFirst, ih hEach.2 hRest⟩

/- Each type's expression calls its constants. -/
theorem fits_termFor
    {t : WireType}
    {e : SchemaTerm}
    (h : x.termFor t = .ok e) : ∀ u ∈ e.uses, x.Fits u := by
  induction t using WireType.inductionOnParts generalizing e with
  | hRecord r => cases h
  | hSynonym s => cases h
  | hEnum d => cases h
  | hBase kind bits =>
      cases h
      exact List.forall_mem_nil _
  | hArray elem len hElem =>
      rw [termFor] at h
      rcases eq_ok_of_bind h with ⟨inner, hInner, h⟩
      have hFits := hElem hInner
      cases h
      exact hFits
  | hMap key value hKey hValue =>
      rw [termFor] at h
      split at h
      · rcases eq_ok_of_bind h with ⟨first, hFirst, h⟩
        rcases eq_ok_of_bind h with ⟨second, hSecond, h⟩
        have hFits := List.forall_mem_append.mpr
          ⟨hKey hFirst, hValue hSecond⟩
        cases h
        exact hFits
      · rcases eq_ok_of_bind h with ⟨first, hFirst, h⟩
        rcases eq_ok_of_bind h with ⟨second, hSecond, h⟩
        have hFits := hValue hSecond
        cases hFirst
        cases h
        exact hFits
  | hReference id => exact fits_constantTerm h
  | hPointer elem hElem =>
      by_cases hEmpty : ∃ bits, elem = .base .empty bits
      · rcases hEmpty with ⟨bits, rfl⟩
        cases h
        exact List.forall_mem_nil _
      · rw [termFor] at h
        · rcases eq_ok_of_bind h with ⟨inner, hInner, h⟩
          have hFits := hElem hInner
          cases h
          exact hFits
        · intro bits hBase
          exact hEmpty ⟨bits, hBase⟩
  | hUnion members hMembers =>
      rw [termFor] at h
      rcases eq_ok_of_bind h with ⟨parts, hParts, h⟩
      cases h
      exact fits_termsFor (fun t ht e => hMembers t ht) hParts
  | hParam p =>
      cases h
      exact List.forall_mem_nil _

theorem fits_refinedTerm
    {t : WireType}
    {more : List Refinement}
    {e : SchemaTerm}
    (h : x.refinedTerm t more = .ok e) :
    ∀ u ∈ e.uses, x.Fits u := by
  have hOther : ∀ t,
      (do
          let base ← x.termFor t
          .ok (SchemaTerm.refined base more) :
            Except EmitError SchemaTerm) = .ok e →
      ∀ u ∈ e.uses, x.Fits u := by
    intro t hOk
    rcases eq_ok_of_bind hOk with ⟨base, hBase, hOk⟩
    have hFits := fits_termFor hBase
    cases hOk
    exact hFits
  cases t with
  | base kind bits =>
      cases h
      exact List.forall_mem_nil _
  | array elem len =>
      rcases eq_ok_of_bind h with ⟨inner, hInner, h⟩
      have hFits := fits_termFor hInner
      cases h
      exact hFits
  | _ => exact hOther _ h

/- What travels as text is of no declared type. -/
theorem uses_parsedTerm (t : WireType) (more : List Refinement) :
    (x.parsedTerm t more).uses = [] := by
  unfold parsedTerm
  split
  · rfl
  · rfl

theorem uses_parsedLiteralsTerm
    (t : WireType)
    (values : List Literal) :
    (x.parsedLiteralsTerm t values).uses = [] := by
  unfold parsedLiteralsTerm
  dsimp only
  split
  · split
    · rfl
    · rfl
  · rfl

theorem fits_valueTerm
    {f : Field WireType}
    {effects : FieldEffects}
    {e : SchemaTerm}
    (h : x.valueTerm f effects = .ok e) :
    ∀ u ∈ e.uses, x.Fits u := by
  have hNone : e.uses = [] → ∀ u ∈ e.uses, x.Fits u := by
    intro hUses
    rw [hUses]
    exact List.forall_mem_nil _
  unfold valueTerm at h
  dsimp only at h
  split at h
  · split at h
    · cases h
      exact hNone (x.uses_parsedLiteralsTerm _ _)
    · cases h
      exact hNone rfl
  · split at h
    · cases h
      exact hNone (x.uses_parsedTerm _ _)
    · exact fits_refinedTerm h

/- Null and absence mention nothing. -/
theorem uses_wrapTerm (f : Field WireType) (e : SchemaTerm) :
    (x.wrapTerm f e).uses = e.uses := by
  unfold wrapTerm
  dsimp only
  split
  · split
    · split
      · rfl
      · rfl
    · split
      · rfl
      · rfl
  · split
    · rfl
    · rfl

theorem fits_entryOf
    {flavor owner : String}
    {f : Field WireType}
    {entry : SchemaEntry}
    (h : x.entryOf flavor owner f = .ok entry) :
    ∀ u ∈ entry.value.uses, x.Fits u := by
  unfold entryOf at h
  dsimp only at h
  split at h
  · cases h
  · rcases eq_ok_of_bind h with ⟨value, hValue, h⟩
    cases h
    dsimp only
    rw [uses_wrapTerm]
    exact fits_valueTerm hValue

theorem fits_rowOf
    {e : Endpoint}
    {row : EndpointRow}
    (h : x.rowOf e = .ok row) : ∀ u ∈ row.uses, x.Fits u := by
  unfold rowOf at h
  cases hRequest : e.request with
  | none =>
      rw [hRequest] at h
      rcases eq_ok_of_bind h with ⟨request, hFirst, h⟩
      rcases eq_ok_of_bind h with ⟨response, hResponse, h⟩
      have hFits := fits_termFor hResponse
      cases hFirst
      cases h
      exact hFits
  | some t =>
      rw [hRequest] at h
      rcases eq_ok_of_bind h with ⟨request, hFirst, h⟩
      rcases eq_ok_of_map hFirst with ⟨first, hTerm, rfl⟩
      rcases eq_ok_of_bind h with ⟨response, hResponse, h⟩
      have hFits := List.forall_mem_append.mpr
        ⟨fits_termFor hTerm, fits_termFor hResponse⟩
      cases h
      exact hFits

------------------------------------------------------------
-- Statements
------------------------------------------------------------

/- What the statement of a declaration takes and mentions. -/
structure Declares
    (x : EmitScope)
    (t : WireType)
    (st : SchemaStatement) : Prop where
  id : t.id? = some st.target.id
  params : st.params = t.params.map TypeParam.name
  terms : ∀ u ∈ st.body.termUses, x.Fits u
  parents : st.body.parents.map SchemaRef.id = t.parents
  names : ∀ r ∈ st.body.parents, x.name r.id = .ok r.name

theorem declares_statementOf
    {flavor : String}
    {t : WireType}
    {st : SchemaStatement}
    (h : x.statementOf flavor t = .ok st) : x.Declares t st := by
  have hKnows := knows_statementOf h
  have hBody : ∀ id params doc body,
      x.statement id params doc body = .ok st →
      st.params = params.map TypeParam.name ∧ st.body = body := by
    intro id params doc body hOk
    rcases eq_ok_of_bind hOk with ⟨target, -, hOk⟩
    cases hOk
    exact ⟨rfl, rfl⟩
  have hParts : st.params = t.params.map TypeParam.name
      ∧ ∀ u ∈ st.body.termUses, x.Fits u := by
    cases t with
    | record r =>
        rcases eq_ok_of_bind h with ⟨owner, -, h⟩
        rcases eq_ok_of_bind h with ⟨parents, -, h⟩
        rcases eq_ok_of_bind h with ⟨entries, hEntries, h⟩
        rcases hBody _ _ _ _ h with ⟨hParams, hObject⟩
        refine ⟨hParams, ?_⟩
        rw [hObject]
        intro u hu
        rcases List.mem_flatMap.mp hu with ⟨entry, hEntry, hu⟩
        rcases exists_of_mem_mapM hEntries hEntry with
          ⟨f, -, hEntryOf⟩
        exact fits_entryOf hEntryOf u hu
    | synonym s =>
        rcases eq_ok_of_bind h with ⟨value, hValue, h⟩
        rcases hBody _ _ _ _ h with ⟨hParams, hTerm⟩
        refine ⟨hParams, ?_⟩
        rw [hTerm]
        exact fits_termFor hValue
    | enum e =>
        rcases hBody _ _ _ _ h with ⟨hParams, hTerm⟩
        refine ⟨hParams, ?_⟩
        rw [hTerm]
        exact List.forall_mem_nil _
    | _ => cases h
  exact
    { id := (target_of_statementOf h).1
      params := hParts.1
      terms := hParts.2
      parents := hKnows.2.1
      names := hKnows.2.2 }

/- What a scope tells is the same when more is written. -/
theorem Declares.of_markEmitted
    {id : TypeName}
    {t : WireType}
    {st : SchemaStatement}
    (h : (x.markEmitted id).Declares t st) : x.Declares t st :=
  { h with
    terms := fun u hu => ⟨(h.terms u hu).name, (h.terms u hu).args⟩
    names := h.names }

/- Each declaration has its statement, and each statement one. -/
theorem declares_statementsOf
    {flavor : String}
    {ts : List WireType}
    {sts : List SchemaStatement}
    (h : statementsOf flavor x ts = .ok sts) :
    (∀ t ∈ ts, t.id?.isSome = true →
        ∃ st ∈ sts, x.Declares t st)
      ∧ ∀ st ∈ sts, ∃ t ∈ ts, x.Declares t st := by
  induction ts generalizing x sts with
  | nil =>
      cases h
      exact ⟨List.forall_mem_nil _, List.forall_mem_nil _⟩
  | cons t rest ih =>
      simp only [List.forall_mem_cons, List.exists_mem_cons_iff]
      cases hId : t.id? with
      | none =>
          rw [statementsOf_of_id?_eq_none hId] at h
          rcases ih h with ⟨hTypes, hStatements⟩
          exact ⟨⟨nofun, hTypes⟩,
            fun st hst => .inr (hStatements st hst)⟩
      | some id =>
          rcases (statementsOf_eq_ok_iff hId).mp h with
            ⟨st, more, rfl, hStatement, hMore⟩
          have hFirst := declares_statementOf hStatement
          rcases ih hMore with ⟨hTypes, hStatements⟩
          refine ⟨⟨?_, ?_⟩, ?_⟩
          · intro _
            exact ⟨st, List.mem_cons_self, hFirst⟩
          · intro u hu hNamed
            rcases hTypes u hu hNamed with ⟨other, hOther, hDecl⟩
            exact ⟨other, List.mem_cons_of_mem _ hOther,
              hDecl.of_markEmitted⟩
          · rw [List.forall_mem_cons]
            refine ⟨.inl hFirst, fun other hOther => .inr ?_⟩
            rcases hStatements other hOther with ⟨u, hu, hDecl⟩
            exact ⟨u, hu, hDecl.of_markEmitted⟩

end EmitScope

------------------------------------------------------------
-- Programs
------------------------------------------------------------

namespace Schema

variable {s : Schema}
variable {o : EmitOptions}
variable {flavor : String}
variable {p : ValidatorProgram}

/- In a schema of distinct names each has its own arity. -/
theorem arity_ofSchema
    {t : WireType}
    {id : TypeName}
    (hDistinct : s.names.Nodup)
    (ht : t ∈ s.types)
    (hId : t.id? = some id) :
    (EmitScope.ofSchema s o).arity id = t.params.length := by
  have hSchema : (EmitScope.ofSchema s o).schema = s := rfl
  unfold EmitScope.arity
  rw [hSchema, find?_eq_some hDistinct ht hId]
  cases t with
  | _ => rfl

/- The statements of a program are those of the declarations. -/
theorem declares_of_validatorProgram
    (hDistinct : s.names.Nodup)
    (h : s.validatorProgram o flavor = .ok p) :
    (∀ t ∈ s.types, t.id?.isSome = true →
        ∃ st ∈ p.statements,
          (EmitScope.ofSchema s o).Declares t st)
      ∧ ∀ st ∈ p.statements,
        ∃ t ∈ s.types, (EmitScope.ofSchema s o).Declares t st := by
  rcases EmitScope.declares_statementsOf
    (parts_of_validatorProgram h).1 with ⟨hTypes, hStatements⟩
  constructor
  · intro t ht hNamed
    exact hTypes t ((mem_emitOrder hDistinct).mpr ⟨ht, hNamed⟩)
      hNamed
  · intro st hst
    rcases hStatements st hst with ⟨t, ht, hDecl⟩
    exact ⟨t, (mem_types_of_mem_emitOrder ht).1, hDecl⟩

/-
  A mention by the name of its type fits its factory if it
  has as many arguments as the type takes.
-/
theorem fitsFactory_iff
    (hDistinct : s.names.Nodup)
    (h : s.validatorProgram o flavor = .ok p)
    {u : ConstantUse}
    (hName : (EmitScope.ofSchema s o).name u.target.id =
      .ok u.target.name) :
    p.FitsFactory u ↔
      u.args = (EmitScope.ofSchema s o).arity u.target.id := by
  rcases EmitScope.targets_of_statementsOf
    (parts_of_validatorProgram h).1 with ⟨hIds, hNames⟩
  have hArity : ∀ st ∈ p.statements,
      (EmitScope.ofSchema s o).arity st.target.id =
        st.params.length := by
    intro st hst
    rcases (declares_of_validatorProgram hDistinct h).2 st hst with
      ⟨t, ht, hDecl⟩
    rw [arity_ofSchema hDistinct ht hDecl.id, hDecl.params,
      List.length_map]
  have hDeclared : ∃ st ∈ p.statements, st.target = u.target := by
    have hMem := mem_names_of_name_eq hName
    rw [← mem_ids_emitOrder, ← hIds] at hMem
    rcases List.mem_map.mp hMem with ⟨st, hst, hSame⟩
    exact ⟨st, hst, EmitScope.eq_of_id_eq (hNames st hst) hName hSame⟩
  constructor
  · rintro ⟨-, hArgs⟩
    rcases hDeclared with ⟨st, hst, hSame⟩
    rw [hArgs st hst hSame, ← hSame, hArity st hst]
  · intro hArgs
    refine ⟨List.mem_map.mpr hDeclared, ?_⟩
    intro st hst hSame
    rw [hArgs, ← hSame, hArity st hst]

/- No record extends a generic declaration. -/
def ParentsPlain (s : Schema) : Prop :=
  ∀ t ∈ s.types, ∀ parent ∈ s.types, ∀ id ∈ t.parents,
    parent.id? = some id → parent.params = []

theorem parentsPlain_iff (hValid : s.validate = []) :
    s.ParentsPlain ↔
      ∀ t ∈ s.types, ∀ id ∈ t.parents,
        (EmitScope.ofSchema s o).arity id = 0 := by
  rcases references_of_validate_eq_nil hValid with
    ⟨hDistinct, hDeps, -⟩
  constructor
  · intro hPlain t ht id hId
    have hNamed : t.id?.isSome = true := by
      cases t with
      | record d => rfl
      | _ => cases hId
    have hName : id ∈ s.names := by
      apply hDeps t ht hNamed
      rw [WireType.dependencies_eq]
      exact List.mem_append_left _ hId
    rcases List.mem_filterMap.mp hName with ⟨parent, hMem, hSame⟩
    rw [arity_ofSchema hDistinct hMem hSame,
      hPlain t ht parent hMem id hId hSame, List.length_nil]
  · intro hArity t ht parent hMem id hId hSame
    have hNone := hArity t ht id hId
    rw [arity_ofSchema hDistinct hMem hSame] at hNone
    exact List.length_eq_zero_iff.mp hNone

/- The mentions of parents fit where these take no parameters. -/
theorem fitsFactory_parents_iff
    (hValid : s.validate = [])
    (h : s.validatorProgram o flavor = .ok p) :
    (∀ st ∈ p.statements, ∀ r ∈ st.body.parents,
        p.FitsFactory (.bare r)) ↔ s.ParentsPlain := by
  have hDistinct := (references_of_validate_eq_nil hValid).1
  rcases declares_of_validatorProgram hDistinct h with
    ⟨hTypes, hDecls⟩
  have hFits : ∀ t st, (EmitScope.ofSchema s o).Declares t st →
      ((∀ r ∈ st.body.parents, p.FitsFactory (.bare r)) ↔
        ∀ id ∈ t.parents,
          (EmitScope.ofSchema s o).arity id = 0) := by
    intro t st hDecl
    rw [← hDecl.parents, List.forall_mem_map]
    refine forall₂_congr fun r hr => ?_
    rw [fitsFactory_iff hDistinct h (hDecl.names r hr)]
    exact eq_comm
  rw [parentsPlain_iff hValid]
  constructor
  · intro hAll t ht id hId
    have hNamed : t.id?.isSome = true := by
      cases t with
      | record d => rfl
      | _ => cases hId
    rcases hTypes t ht hNamed with ⟨st, hst, hDecl⟩
    exact (hFits t st hDecl).mp (hAll st hst) id hId
  · intro hArity st hst
    rcases hDecls st hst with ⟨t, ht, hDecl⟩
    exact (hFits t st hDecl).mpr (hArity t ht)

/- Expressions of statements and rows call their constants. -/
theorem fitsFactory_terms
    (hDistinct : s.names.Nodup)
    (h : s.validatorProgram o flavor = .ok p) :
    (∀ st ∈ p.statements, ∀ u ∈ st.body.termUses,
        p.FitsFactory u)
      ∧ ∀ row ∈ p.rows, ∀ u ∈ row.uses, p.FitsFactory u := by
  have hFits : ∀ u, (EmitScope.ofSchema s o).Fits u →
      p.FitsFactory u := fun u hu =>
    (fitsFactory_iff hDistinct h hu.name).mpr hu.args
  constructor
  · intro st hst u hu
    rcases (declares_of_validatorProgram hDistinct h).2 st hst with
      ⟨t, -, hDecl⟩
    exact hFits u (hDecl.terms u hu)
  · intro row hRow u hu
    rcases (parts_of_validatorProgram h).2 row hRow with
      ⟨e, hRowOf⟩
    exact hFits u (EmitScope.fits_markAll.mp
      (EmitScope.fits_rowOf hRowOf u hu))

/- Inferred types are those of constants without parameters. -/
theorem fitsFactory_typed
    (hDistinct : s.names.Nodup)
    (h : s.validatorProgram o flavor = .ok p)
    {st : SchemaStatement}
    (hst : st ∈ p.statements)
    (hParams : st.params = []) : p.FitsFactory (.bare st.target) := by
  have hName := (EmitScope.targets_of_statementsOf
    (parts_of_validatorProgram h).1).2 st hst
  rcases (declares_of_validatorProgram hDistinct h).2 st hst with
    ⟨t, ht, hDecl⟩
  rw [fitsFactory_iff hDistinct h hName]
  dsimp only [ConstantUse.bare]
  rw [arity_ofSchema hDistinct ht hDecl.id,
    ← List.length_map TypeParam.name, ← hDecl.params, hParams,
    List.length_nil]

/-
  All mentions of a program fit exactly if no record extends a
  generic declaration.
-/
theorem appliesFactories_iff
    (hValid : s.validate = [])
    (h : s.validatorProgram o flavor = .ok p) :
    p.AppliesFactories ↔ s.ParentsPlain := by
  have hDistinct := (references_of_validate_eq_nil hValid).1
  rcases fitsFactory_terms hDistinct h with ⟨hTerms, hRows⟩
  rw [← fitsFactory_parents_iff hValid h]
  constructor
  · intro hAll st hst r hr
    apply hAll
    have hMem : ConstantUse.bare r ∈ st.uses :=
      List.mem_append_left _
        (List.mem_append_left _ (List.mem_map_of_mem hr))
    exact List.mem_append_left _
      (List.mem_flatMap.mpr ⟨st, hst, hMem⟩)
  · intro hParents u hu
    rcases List.mem_append.mp hu with hu | hu
    · rcases List.mem_flatMap.mp hu with ⟨st, hst, hu⟩
      rcases List.mem_append.mp hu with hu | hu
      · rcases List.mem_append.mp hu with hu | hu
        · rcases List.mem_map.mp hu with ⟨r, hr, rfl⟩
          exact hParents st hst r hr
        · exact hTerms st hst u hu
      · split at hu
        · next hTyped =>
            rw [List.mem_singleton.mp hu]
            rw [Bool.and_eq_true, List.isEmpty_iff] at hTyped
            exact fitsFactory_typed hDistinct h hst hTyped.1
        · cases hu
    · rcases List.mem_flatMap.mp hu with ⟨row, hRow, hu⟩
      exact hRows row hRow u hu

end Schema

------------------------------------------------------------
-- Files
------------------------------------------------------------

/- The dialects of the library spell an argument as a call. -/
theorem SchemaTerm.text_constant
    {name : String}
    {d : Dialect}
    (h : Registry.builtin.find? name = some d) :
    ∃ arg, ∀ r args,
      (SchemaTerm.constant r args).text d =
        if args = 0 then r.constant
        else callText r.constant (List.replicate args arg) := by
  have hText : ∀ (d : Dialect) arg,
      (∀ f args, d.applied f args =
        callText f (List.replicate args arg)) →
      ∀ r args,
        (SchemaTerm.constant r args).text d =
          if args = 0 then r.constant
          else callText r.constant (List.replicate args arg) := by
    intro d arg hApplied r args
    rw [SchemaTerm.text]
    cases args with
    | zero => rfl
    | succ n => exact hApplied _ _
  rw [Registry.find?_builtin] at h
  split at h
  · cases h
    exact ⟨"v.unknown()", hText _ _ fun _ _ => rfl⟩
  · split at h
    · cases h
      exact ⟨"z.unknown()", hText _ _ fun _ _ => rfl⟩
    · cases h

namespace Schema

variable {s : Schema}
variable {o : EmitOptions}

/-
  The file of a flavor is the text of a program that has a
  constant for each declaration, with the parameters of the
  declaration.  A constant with arguments is spelled as a
  call.  The expressions of fields and synonyms and the rows
  of the table call each constant with as many arguments as
  it has parameters.  All mentions do exactly if no record
  extends a generic declaration.
-/
theorem flavorFile_appliesFactories_iff
    {name : String}
    {d : Dialect}
    {e : Emission}
    (hValid : s.validate = [])
    (hFlavor : Registry.builtin.find? name = some d)
    (hFile : s.flavorFile o d = .ok e) :
    ∃ p arg, s.validatorProgram o d.name = .ok p
      ∧ e.files =
        [{ path := o.baseName ++ "." ++ d.fileSuffix
           contents := p.text d }]
      ∧ (∀ r args, (SchemaTerm.constant r args).text d =
        if args = 0 then r.constant
        else callText r.constant (List.replicate args arg))
      ∧ (∀ st ∈ p.statements, ∃ t ∈ s.types,
        t.id? = some st.target.id
          ∧ st.params = t.params.map TypeParam.name)
      ∧ (∀ st ∈ p.statements, ∀ u ∈ st.body.termUses,
        p.FitsFactory u)
      ∧ (∀ row ∈ p.rows, ∀ u ∈ row.uses, p.FitsFactory u)
      ∧ (p.AppliesFactories ↔ s.ParentsPlain) := by
  have hDistinct := (references_of_validate_eq_nil hValid).1
  have hText := s.flavorFile_eq o d
  rw [hFile] at hText
  rcases eq_ok_of_map hText.symm with ⟨p, hProgram, hFiles⟩
  rcases SchemaTerm.text_constant hFlavor with ⟨arg, hCalls⟩
  rcases fitsFactory_terms hDistinct hProgram with ⟨hTerms, hRows⟩
  refine ⟨p, arg, hProgram, hFiles.symm, hCalls, ?_, hTerms,
    hRows, appliesFactories_iff hValid hProgram⟩
  intro st hst
  rcases (declares_of_validatorProgram hDistinct hProgram).2 st hst
    with ⟨t, ht, hDecl⟩
  exact ⟨t, ht, hDecl.id, hDecl.params⟩

/- A page of items, and a record that has one as a field. -/
def pageSchema (parents : List TypeName) : Schema :=
  { types :=
      [.record
          { id := { name := "Page", space := "m" }
            params := [{ name := "T" }]
            fields :=
              [{ name := "Items"
                 type := .array (.param { name := "T" }) 0
                 wireName := "Items" }] },
        .record
          { id := { name := "Users", space := "m" }
            params := [{ name := "T" }]
            parents
            fields :=
              [{ name := "Next"
                 type :=
                   .reference { name := "Page", space := "m" }
                 wireName := "Next" }] }] }

/- Its fields have no rules, so nothing keeps it unwritten. -/
theorem succeeds_pageSchema
    {parents : List TypeName}
    (hValid : (pageSchema parents).validate = [])
    (o : EmitOptions)
    (d : Dialect) :
    Succeeds ((pageSchema parents).flavorFile o d) := by
  have hFlat : (pageSchema parents).IsFlat := by
    constructor
    · simp [pageSchema, WireType.IsFlat, WireType.boundWalk,
        WireType.id?]
    · simp [pageSchema, bodies]
  have hRules : fieldRules "" = [] := by decide
  have hNot : ¬(pageSchema parents).HasOverflow := by
    simp [HasOverflow, DeclOverflows, Overflows, pageSchema,
      hRules]
  exact (failsWhen_flavorFile hValid hFlat o d).succeeds_iff.mpr
    hNot

theorem appliesFactories_pageSchema :
    (pageSchema []).validate = []
      ∧ ∃ e p,
        (pageSchema []).flavorFile {} Dialect.valibot = .ok e
          ∧ (pageSchema []).validatorProgram {} "valibot" = .ok p
          ∧ p.AppliesFactories := by
  have hValid : (pageSchema []).validate = [] := by
    decide +kernel
  have hFlavor : Registry.builtin.find? "valibot" =
      some .valibot := rfl
  rcases succeeds_pageSchema hValid {} .valibot with ⟨e, hFile⟩
  rcases flavorFile_appliesFactories_iff hValid hFlavor hFile with
    ⟨p, -, hProgram, -, -, -, -, -, hIff⟩
  refine ⟨hValid, e, p, hFile, hProgram, hIff.mpr ?_⟩
  simp [ParentsPlain, pageSchema, WireType.parents]

/- A generic parent is written without its arguments. -/
theorem extendedPage_not_appliesFactories :
    (pageSchema [{ name := "Page", space := "m" }]).validate = []
      ∧ ((pageSchema [{ name := "Page", space := "m" }]).flavorFile
          {} Dialect.zod).map Emission.files =
        .ok
          [{ path := "types.zod.ts"
             contents :=
               "// Code generated by typebridge. DO NOT EDIT.\n\n"
                 ++ "import \x7b z \x7d from \"zod\";\n\n"
                 ++ "export const PageSchema = "
                 ++ "<T extends z.ZodTypeAny>(T: T) => "
                 ++ "z.object(\x7b\n"
                 ++ "  Items: z.array(T),\n\x7d);\n\n"
                 ++ "export const UsersSchema = "
                 ++ "<T extends z.ZodTypeAny>(T: T) => "
                 ++ "PageSchema.extend(\x7b\n"
                 ++ "  Next: PageSchema(z.unknown()),\n"
                 ++ "\x7d);\n" }]
      ∧ ∃ p,
        (pageSchema [{ name := "Page", space := "m" }]).validatorProgram
            {} "zod" = .ok p
          ∧ ¬p.AppliesFactories := by
  have hValid :
      (pageSchema [{ name := "Page", space := "m" }]).validate =
        [] := by
    decide +kernel
  refine ⟨hValid, by decide +kernel, ?_⟩
  rcases succeeds_pageSchema hValid {} .zod with ⟨e, hFile⟩
  have hText := flavorFile_eq
    (pageSchema [{ name := "Page", space := "m" }]) {} .zod
  rw [hFile] at hText
  rcases eq_ok_of_map hText.symm with ⟨p, hProgram, -⟩
  refine ⟨p, hProgram, ?_⟩
  rw [appliesFactories_iff hValid hProgram]
  simp [ParentsPlain, pageSchema, WireType.parents,
    WireType.params, WireType.id?]

end Schema

end WireSchema
