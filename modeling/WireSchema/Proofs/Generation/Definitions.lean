import WireSchema.Proofs.Emit.Sequence
import WireSchema.Proofs.Generation.Emission
import WireSchema.Proofs.Validator.Rendering
import WireSchema.Validator.Valibot
import WireSchema.Validator.Zod

/-
  Constants stand behind the constants they mention.

  An expression defers every constant that is not known to its
  scope, and a scope knows what has been declared before.  The
  parents of an object are never deferred, so these stand
  before it only if the order of emission puts them there.

  Key definitions include:
    * `EmitScope.Knows`
    * `ValidatorProgram.DefinesFirst`
    * `Schema.flavorFile_definesFirst_iff`
-/

namespace WireSchema

open Relation

namespace EmitScope

variable {x : EmitScope}

------------------------------------------------------------
-- Expressions
------------------------------------------------------------

/- References to constants that a scope knows as declared. -/
def Knows (x : EmitScope) (refs : List SchemaRef) : Prop :=
  ∀ r ∈ refs, r.id ∈ x.emitted ∧ x.name r.id = .ok r.name

theorem knows_nil : x.Knows [] :=
  List.forall_mem_nil _

theorem Knows.append
    {refs more : List SchemaRef}
    (h : x.Knows refs)
    (hMore : x.Knows more) : x.Knows (refs ++ more) :=
  List.forall_mem_append.mpr ⟨h, hMore⟩

theorem knows_constantTerm
    {id : TypeName}
    {e : SchemaTerm}
    (h : x.constantTerm id = .ok e) : x.Knows e.eager := by
  rcases eq_ok_of_bind h with ⟨name, hName, h⟩
  dsimp only at h
  by_cases hForward : x.isForward id = true
  · rw [if_pos hForward] at h
    cases h
    exact knows_nil
  · rw [if_neg hForward] at h
    cases h
    refine List.forall_mem_singleton.mpr ⟨?_, hName⟩
    simpa [isForward] using hForward

theorem knows_termsFor
    {ts : List WireType}
    (hEach : ∀ t ∈ ts, ∀ e, x.termFor t = .ok e →
      x.Knows e.eager)
    {es : List SchemaTerm}
    (h : x.termsFor ts = .ok es) :
    x.Knows (SchemaTerm.eagerInAll es) := by
  induction ts generalizing es with
  | nil =>
      cases h
      exact knows_nil
  | cons t rest ih =>
      rw [List.forall_mem_cons] at hEach
      rw [termsFor] at h
      rcases eq_ok_of_bind h with ⟨e, hFirst, h⟩
      rcases eq_ok_of_bind h with ⟨more, hRest, h⟩
      cases h
      exact (hEach.1 e hFirst).append (ih hEach.2 hRest)

/- The constants that a type's expression does not defer. -/
theorem knows_termFor
    {t : WireType}
    {e : SchemaTerm}
    (h : x.termFor t = .ok e) : x.Knows e.eager := by
  induction t using WireType.inductionOnParts generalizing e with
  | hRecord r => cases h
  | hSynonym s => cases h
  | hEnum d => cases h
  | hBase kind bits =>
      cases h
      exact knows_nil
  | hArray elem len hElem =>
      rw [termFor] at h
      rcases eq_ok_of_bind h with ⟨inner, hInner, h⟩
      have hKnown := hElem hInner
      cases h
      exact hKnown
  | hMap key value hKey hValue =>
      rw [termFor] at h
      split at h
      · rcases eq_ok_of_bind h with ⟨first, hFirst, h⟩
        rcases eq_ok_of_bind h with ⟨second, hSecond, h⟩
        have hKnown := (hKey hFirst).append (hValue hSecond)
        cases h
        exact hKnown
      · rcases eq_ok_of_bind h with ⟨first, hFirst, h⟩
        rcases eq_ok_of_bind h with ⟨second, hSecond, h⟩
        have hKnown := hValue hSecond
        cases hFirst
        cases h
        exact hKnown
  | hReference id => exact knows_constantTerm h
  | hPointer elem hElem =>
      by_cases hEmpty : ∃ bits, elem = .base .empty bits
      · rcases hEmpty with ⟨bits, rfl⟩
        cases h
        exact knows_nil
      · rw [termFor] at h
        · rcases eq_ok_of_bind h with ⟨inner, hInner, h⟩
          have hKnown := hElem hInner
          cases h
          exact hKnown
        · intro bits hBase
          exact hEmpty ⟨bits, hBase⟩
  | hUnion members hMembers =>
      rw [termFor] at h
      rcases eq_ok_of_bind h with ⟨parts, hParts, h⟩
      cases h
      exact knows_termsFor (fun t ht e => hMembers t ht) hParts
  | hParam p =>
      cases h
      exact knows_nil

theorem knows_refinedTerm
    {t : WireType}
    {more : List Refinement}
    {e : SchemaTerm}
    (h : x.refinedTerm t more = .ok e) : x.Knows e.eager := by
  have hOther : ∀ t,
      (do
          let base ← x.termFor t
          .ok (SchemaTerm.refined base more) :
            Except EmitError SchemaTerm) = .ok e →
      x.Knows e.eager := by
    intro t hOk
    rcases eq_ok_of_bind hOk with ⟨base, hBase, hOk⟩
    have hKnown := knows_termFor hBase
    cases hOk
    exact hKnown
  cases t with
  | base kind bits =>
      cases h
      exact knows_nil
  | array elem len =>
      rcases eq_ok_of_bind h with ⟨inner, hInner, h⟩
      have hKnown := knows_termFor hInner
      cases h
      exact hKnown
  | _ => exact hOther _ h

theorem knows_valueTerm
    {f : Field WireType}
    {effects : FieldEffects}
    {e : SchemaTerm}
    (h : x.valueTerm f effects = .ok e) : x.Knows e.eager := by
  unfold valueTerm at h
  dsimp only at h
  split at h
  · split at h
    · cases h
      unfold parsedLiteralsTerm
      dsimp only
      split
      · split
        · exact knows_nil
        · exact knows_nil
      · exact knows_nil
    · cases h
      exact knows_nil
  · split at h
    · cases h
      unfold parsedTerm
      split
      · exact knows_nil
      · exact knows_nil
    · exact knows_refinedTerm h

/- Null and absence mention nothing. -/
theorem eager_wrapTerm (f : Field WireType) (e : SchemaTerm) :
    (x.wrapTerm f e).eager = e.eager := by
  unfold wrapTerm
  dsimp only
  split
  · split
    · split
      · rfl
      · rfl
    · split
      · rfl
      · rfl
  · split
    · rfl
    · rfl

theorem knows_entryOf
    {flavor owner : String}
    {f : Field WireType}
    {entry : SchemaEntry}
    (h : x.entryOf flavor owner f = .ok entry) :
    x.Knows entry.value.eager := by
  unfold entryOf at h
  dsimp only at h
  split at h
  · cases h
  · rcases eq_ok_of_bind h with ⟨value, hValue, h⟩
    cases h
    dsimp only
    rw [eager_wrapTerm]
    exact knows_valueTerm hValue

theorem knows_rowOf
    {e : Endpoint}
    {row : EndpointRow}
    (h : x.rowOf e = .ok row) : x.Knows row.eager := by
  unfold rowOf at h
  cases hRequest : e.request with
  | none =>
      rw [hRequest] at h
      rcases eq_ok_of_bind h with ⟨request, hFirst, h⟩
      rcases eq_ok_of_bind h with ⟨response, hResponse, h⟩
      have hKnown := knows_termFor hResponse
      cases hFirst
      cases h
      exact hKnown
  | some t =>
      rw [hRequest] at h
      rcases eq_ok_of_bind h with ⟨request, hFirst, h⟩
      rcases eq_ok_of_map hFirst with ⟨first, hTerm, rfl⟩
      rcases eq_ok_of_bind h with ⟨response, hResponse, h⟩
      have hKnown :=
        (knows_termFor hTerm).append (knows_termFor hResponse)
      cases h
      exact hKnown

------------------------------------------------------------
-- Statements
------------------------------------------------------------

/- The references that parents are found under. -/
theorem map_id_of_mapM_refOf
    {ids : List TypeName}
    {refs : List SchemaRef}
    (h : ids.mapM x.refOf = .ok refs) :
    refs.map SchemaRef.id = ids
      ∧ ∀ r ∈ refs, x.name r.id = .ok r.name := by
  have hEach := forall₂_of_mapM_eq_ok h
  clear h
  induction hEach with
  | nil => exact ⟨rfl, List.forall_mem_nil _⟩
  | cons hFirst _ ih =>
      rcases eq_ok_of_bind hFirst with ⟨name, hName, hRef⟩
      cases hRef
      exact ⟨congrArg _ ih.1,
        List.forall_mem_cons.mpr ⟨hName, ih.2⟩⟩

theorem knows_entries
    {flavor owner : String}
    {fields : List (Field WireType)}
    {entries : List SchemaEntry}
    (h : fields.mapM (x.entryOf flavor owner) = .ok entries) :
    x.Knows (entries.flatMap fun e => e.value.eager) := by
  have hEach := forall₂_of_mapM_eq_ok h
  clear h
  induction hEach with
  | nil => exact knows_nil
  | cons hFirst _ ih => exact (knows_entryOf hFirst).append ih

/- What a scope knows of the statement of a declaration. -/
theorem knows_statementOf
    {flavor : String}
    {t : WireType}
    {st : SchemaStatement}
    (h : x.statementOf flavor t = .ok st) :
    x.Knows st.body.eager
      ∧ st.body.parents.map SchemaRef.id = t.parents
      ∧ ∀ r ∈ st.body.parents, x.name r.id = .ok r.name := by
  have hBody : ∀ id params doc body,
      x.statement id params doc body = .ok st →
      st.body = body := by
    intro id params doc body hOk
    rcases eq_ok_of_bind hOk with ⟨target, -, hOk⟩
    cases hOk
    rfl
  cases t with
  | record r =>
      rcases eq_ok_of_bind h with ⟨owner, -, h⟩
      rcases eq_ok_of_bind h with ⟨parents, hParents, h⟩
      rcases eq_ok_of_bind h with ⟨entries, hEntries, h⟩
      rw [hBody _ _ _ _ h]
      exact ⟨knows_entries hEntries,
        map_id_of_mapM_refOf hParents⟩
  | synonym s =>
      rcases eq_ok_of_bind h with ⟨value, hValue, h⟩
      rw [hBody _ _ _ _ h]
      exact ⟨knows_termFor hValue, rfl, List.forall_mem_nil _⟩
  | enum e =>
      rw [hBody _ _ _ _ h]
      exact ⟨knows_nil, rfl, List.forall_mem_nil _⟩
  | _ => cases h

theorem mem_emitted_markEmitted {id other : TypeName} :
    other ∈ (x.markEmitted id).emitted ↔
      other = id ∨ other ∈ x.emitted :=
  mem_insertSorted tellsApart_before id other x.emitted

/- The statements of declarations declare their types. -/
theorem targets_of_statementsOf
    {flavor : String}
    {ts : List WireType}
    {sts : List SchemaStatement}
    (h : statementsOf flavor x ts = .ok sts) :
    (sts.map fun st => st.target.id) =
        ts.filterMap WireType.id?
      ∧ ∀ st ∈ sts, x.name st.target.id = .ok st.target.name := by
  induction ts generalizing x sts with
  | nil =>
      cases h
      exact ⟨rfl, List.forall_mem_nil _⟩
  | cons t rest ih =>
      cases hId : t.id? with
      | none =>
          rw [statementsOf_of_id?_eq_none hId] at h
          rw [List.filterMap_cons_none hId]
          exact ih h
      | some id =>
          rcases (statementsOf_eq_ok_iff hId).mp h with
            ⟨st, more, rfl, hStatement, hMore⟩
          rcases ih hMore with ⟨hIds, hNames⟩
          have hTarget := target_of_statementOf hStatement
          refine ⟨?_, List.forall_mem_cons.mpr
            ⟨hTarget.2, hNames⟩⟩
          rw [List.filterMap_cons_some hTarget.1, List.map_cons,
            hIds]

/-
  A statement in its place.  It mentions what was known at
  first or has been declared before it, and its parents are
  those of the declaration in the same place.
-/
theorem statementsOf_split
    {flavor : String}
    {ts : List WireType}
    {before after : List SchemaStatement}
    {st : SchemaStatement}
    (h : statementsOf flavor x ts = .ok (before ++ st :: after)) :
    (∀ r ∈ st.body.eager,
        x.name r.id = .ok r.name
          ∧ (r ∈ before.map SchemaStatement.target
            ∨ r.id ∈ x.emitted))
      ∧ (∀ r ∈ st.body.parents, x.name r.id = .ok r.name)
      ∧ ∃ first t last,
        ts = first ++ t :: last
          ∧ first.filterMap WireType.id? =
            (before.map fun st => st.target.id)
          ∧ t.id? = some st.target.id
          ∧ st.body.parents.map SchemaRef.id = t.parents := by
  induction ts generalizing x before with
  | nil =>
      have hEmpty := Except.ok.inj h
      simp at hEmpty
  | cons t rest ih =>
      cases hId : t.id? with
      | none =>
          rw [statementsOf_of_id?_eq_none hId] at h
          rcases ih h with ⟨hEager, hParents, first, u, last, hPlace⟩
          refine ⟨hEager, hParents, t :: first, u, last, ?_⟩
          rw [List.filterMap_cons_none hId, hPlace.1]
          exact ⟨rfl, hPlace.2⟩
      | some id =>
          rcases (statementsOf_eq_ok_iff hId).mp h with
            ⟨here, more, hSplit, hStatement, hMore⟩
          have hTarget := target_of_statementOf hStatement
          cases before with
          | nil =>
              cases hSplit
              rcases knows_statementOf hStatement with
                ⟨hEager, hIds, hNames⟩
              refine ⟨?_, hNames, [], t, rest, rfl, rfl,
                hTarget.1, hIds⟩
              intro r hr
              exact ⟨(hEager r hr).2, .inr (hEager r hr).1⟩
          | cons first before =>
              cases hSplit
              rcases ih hMore with
                ⟨hEager, hParents, front, u, last, hPlace⟩
              refine ⟨?_, hParents, t :: front, u, last, ?_⟩
              · intro r hr
                rcases hEager r hr with ⟨hName, hKnown⟩
                refine ⟨hName, ?_⟩
                rw [mem_emitted_markEmitted] at hKnown
                rcases hKnown with hBefore | hSame | hOld
                · exact .inl (List.mem_cons_of_mem _ hBefore)
                · left
                  rw [hTarget.1] at hId
                  cases hId
                  rw [eq_of_id_eq hName hTarget.2 hSame]
                  exact List.mem_cons_self
                · exact .inr hOld
              · rw [List.filterMap_cons_some hTarget.1,
                  hPlace.1, List.map_cons, hPlace.2.1]
                exact ⟨rfl, rfl, hPlace.2.2⟩

theorem mem_emitted_markAll
    {ts : List WireType}
    {id : TypeName} :
    id ∈ (x.markAll ts).emitted ↔
      id ∈ ts.filterMap WireType.id? ∨ id ∈ x.emitted := by
  unfold markAll
  induction ts.filterMap WireType.id? generalizing x with
  | nil => simp
  | cons first rest ih =>
      rw [List.foldl_cons, ih, mem_emitted_markEmitted,
        List.mem_cons]
      tauto

/- Declarations one after the other, the first ones first. -/
theorem statementsOf_append
    {flavor : String}
    {first rest : List WireType}
    {sts : List SchemaStatement}
    (h : statementsOf flavor x (first ++ rest) = .ok sts) :
    ∃ before more,
      sts = before ++ more
        ∧ statementsOf flavor x first = .ok before
        ∧ statementsOf flavor (x.markAll first) rest =
          .ok more := by
  induction first generalizing x sts with
  | nil => exact ⟨[], sts, rfl, rfl, h⟩
  | cons t others ih =>
      rw [List.cons_append] at h
      cases hId : t.id? with
      | none =>
          rw [statementsOf_of_id?_eq_none hId] at h ⊢
          rw [x.markAll_of_id?_eq_none hId]
          exact ih h
      | some id =>
          rcases (statementsOf_eq_ok_iff hId).mp h with
            ⟨st, rest, rfl, hStatement, hMore⟩
          rcases ih hMore with ⟨before, last, rfl, hBefore, hLast⟩
          rw [x.markAll_of_id?_eq_some hId]
          refine ⟨st :: before, last, rfl, ?_, hLast⟩
          rw [statementsOf_eq_ok_iff hId]
          exact ⟨st, before, rfl, hStatement, hBefore⟩

end EmitScope

------------------------------------------------------------
-- Files
------------------------------------------------------------

/-
  Whatever an expression, a parent or a row of endpoints
  mentions without deferring it is declared before it.
-/
def ValidatorProgram.DefinesFirst (p : ValidatorProgram) :
    Prop :=
  (∀ before st after, p.statements = before ++ st :: after →
      st.body.parents ++ st.body.eager ⊆
        before.map SchemaStatement.target)
    ∧ ∀ row ∈ p.rows,
      row.eager ⊆ p.statements.map SchemaStatement.target

/- In a list of declarations parents come first. -/
def ParentsFirst (ts : List WireType) : Prop :=
  ∀ before t after, ts = before ++ t :: after →
    t.parents ⊆ before.filterMap WireType.id?

namespace Schema

variable {s : Schema}
variable {o : EmitOptions}

/- The parts of a program: its statements and its rows. -/
theorem parts_of_validatorProgram
    {flavor : String}
    {p : ValidatorProgram}
    (h : s.validatorProgram o flavor = .ok p) :
    EmitScope.statementsOf flavor (.ofSchema s o)
        (s.emitOrder (EmitScope.ofSchema s o).names) =
          .ok p.statements
      ∧ ∀ row ∈ p.rows, ∃ e,
        ((EmitScope.ofSchema s o).markAll
          (s.emitOrder (EmitScope.ofSchema s o).names)).rowOf e =
            .ok row := by
  rcases eq_ok_of_bind h with ⟨sts, hStatements, h⟩
  rcases eq_ok_of_bind h with ⟨rows, hRows, h⟩
  cases h
  refine ⟨eq_ok_of_mapError hStatements, ?_⟩
  intro row hRow
  rcases exists_of_mem_mapM (eq_ok_of_mapError hRows) hRow with
    ⟨e, -, hRowOf⟩
  exact ⟨e, hRowOf⟩

/- A program defines all that its expressions mention. -/
theorem eager_defined
    {flavor : String}
    {p : ValidatorProgram}
    (h : s.validatorProgram o flavor = .ok p) :
    (∀ before st after, p.statements = before ++ st :: after →
        st.body.eager ⊆ before.map SchemaStatement.target)
      ∧ ∀ row ∈ p.rows,
        row.eager ⊆ p.statements.map SchemaStatement.target := by
  rcases parts_of_validatorProgram h with ⟨hStatements, hRows⟩
  refine ⟨?statements, ?rows⟩
  case statements =>
    intro before st after hSplit r hr
    rw [hSplit] at hStatements
    have hPlace := EmitScope.statementsOf_split hStatements
    rcases (hPlace.1 r hr).2 with hBefore | hKnown
    · exact hBefore
    · cases hKnown
  case rows =>
    intro row hRow r hr
    rcases hRows row hRow with ⟨e, hRowOf⟩
    rcases EmitScope.knows_rowOf hRowOf r hr with
      ⟨hKnown, hName⟩
    rcases EmitScope.targets_of_statementsOf hStatements with
      ⟨hIds, hNames⟩
    rw [EmitScope.mem_emitted_markAll, ← hIds] at hKnown
    rw [EmitScope.name_markAll] at hName
    rcases hKnown with hDeclared | hNone
    · rcases List.mem_map.mp hDeclared with ⟨st, hst, hSame⟩
      rw [← EmitScope.eq_of_id_eq (hNames st hst) hName hSame]
      exact List.mem_map_of_mem hst
    · cases hNone

/-
  The parents of a statement are those of a declaration in the
  order of emission, and what precedes one of the two precedes
  the other.
-/
theorem parents_of_statement
    {flavor : String}
    {p : ValidatorProgram}
    (h : s.validatorProgram o flavor = .ok p)
    {before after : List SchemaStatement}
    {st : SchemaStatement}
    (hSplit : p.statements = before ++ st :: after) :
    ∃ first t last,
      s.emitOrder (EmitScope.ofSchema s o).names =
          first ++ t :: last
        ∧ t.id? = some st.target.id
        ∧ ∀ r ∈ st.body.parents,
          r.id ∈ t.parents ∧ r.id ∈ s.names
            ∧ (r ∈ before.map SchemaStatement.target ↔
              r.id ∈ first.filterMap WireType.id?) := by
  have hStatements := (parts_of_validatorProgram h).1
  have hNames := (EmitScope.targets_of_statementsOf hStatements).2
  rw [hSplit] at hStatements hNames
  rcases EmitScope.statementsOf_split hStatements with
    ⟨-, hParents, first, t, last, hOrder, hBefore, hId, hSame⟩
  refine ⟨first, t, last, hOrder, hId, ?_⟩
  intro r hr
  have hName := hParents r hr
  refine ⟨?_, mem_names_of_name_eq hName, ?_⟩
  · rw [← hSame]
    exact List.mem_map_of_mem hr
  · rw [hBefore]
    constructor
    · intro hMem
      rcases List.mem_map.mp hMem with ⟨q, hq, rfl⟩
      exact List.mem_map_of_mem hq
    · intro hMem
      rcases List.mem_map.mp hMem with ⟨q, hq, hSameId⟩
      have hDeclared :=
        hNames q (List.mem_append_left _ hq)
      rw [← EmitScope.eq_of_id_eq hDeclared hName hSameId]
      exact List.mem_map_of_mem hq

/- Parents come first among the declarations of a program. -/
theorem parentsFirst_of_definesFirst
    {flavor : String}
    {p : ValidatorProgram}
    (h : s.validatorProgram o flavor = .ok p)
    (hDefines : p.DefinesFirst) :
    ParentsFirst
      (s.emitOrder (EmitScope.ofSchema s o).names) := by
  intro first t last hOrder parent hParent
  have hStatements := (parts_of_validatorProgram h).1
  rw [hOrder] at hStatements
  rcases EmitScope.statementsOf_append hStatements with
    ⟨before, more, hSplit, hBefore, hMore⟩
  have hMem : t ∈ s.emitOrder (EmitScope.ofSchema s o).names := by
    rw [hOrder]
    exact List.mem_append_right first List.mem_cons_self
  have hSome := (mem_types_of_mem_emitOrder hMem).2
  rcases Option.isSome_iff_exists.mp hSome with ⟨id, hId⟩
  rcases (EmitScope.statementsOf_eq_ok_iff hId).mp hMore with
    ⟨st, after, rfl, hStatement, -⟩
  have hParents := (EmitScope.knows_statementOf hStatement).2.1
  rw [← hParents] at hParent
  rcases List.mem_map.mp hParent with ⟨r, hr, rfl⟩
  have hMem := hDefines.1 before st after hSplit
    (List.mem_append_left _ hr)
  rcases List.mem_map.mp hMem with ⟨q, hq, rfl⟩
  rw [← (EmitScope.targets_of_statementsOf hBefore).1]
  exact List.mem_map_of_mem hq

/-
  The file of a dialect is the text of a program.  Each of its
  expressions and each row of its table mentions, unless it is
  deferred, only what is declared before.  A parent is declared
  before its record or depends on it in turn.  All is declared
  before it is mentioned exactly when the order of emission
  puts no record before one of its parents.
-/
theorem flavorFile_definesFirst_iff
    {d : Dialect}
    {e : Emission}
    (hFile : s.flavorFile o d = .ok e) :
    ∃ p, s.validatorProgram o d.name = .ok p
      ∧ e.files =
        [{ path := o.baseName ++ "." ++ d.fileSuffix
           contents := p.text d }]
      ∧ (∀ before st after,
        p.statements = before ++ st :: after →
          st.body.eager ⊆ before.map SchemaStatement.target
            ∧ ∀ r ∈ st.body.parents,
              r ∈ before.map SchemaStatement.target
                ∨ TransGen s.Needs r.id st.target.id)
      ∧ (∀ row ∈ p.rows,
        row.eager ⊆ p.statements.map SchemaStatement.target)
      ∧ (p.DefinesFirst ↔
        ParentsFirst
          (s.emitOrder (EmitScope.ofSchema s o).names)) := by
  have hText := s.flavorFile_eq o d
  rw [hFile] at hText
  rcases eq_ok_of_map hText.symm with ⟨p, hProgram, hFiles⟩
  rcases eager_defined hProgram with ⟨hEager, hRows⟩
  refine ⟨p, hProgram, hFiles.symm, ?placed, hRows, ?exactly⟩
  case placed =>
    intro before st after hSplit
    refine ⟨hEager before st after hSplit, ?_⟩
    intro r hr
    rcases parents_of_statement hProgram hSplit with
      ⟨first, t, last, hOrder, hId, hParents⟩
    rcases hParents r hr with ⟨hParent, hName, hIff⟩
    have hDep : r.id ∈ t.dependencies := by
      rw [WireType.dependencies_eq]
      exact List.mem_append_left _ hParent
    have hOrdered := s.inOrder_emitOrder _ first t last _ hOrder
      hId r.id hDep hName
    exact hOrdered.imp_left hIff.mpr
  case exactly =>
    constructor
    · exact parentsFirst_of_definesFirst hProgram
    · intro hFirst
      refine ⟨?_, hRows⟩
      intro before st after hSplit
      rw [List.append_subset]
      refine ⟨?_, hEager before st after hSplit⟩
      intro r hr
      rcases parents_of_statement hProgram hSplit with
        ⟨first, t, last, hOrder, -, hParents⟩
      rcases hParents r hr with ⟨hParent, -, hIff⟩
      exact hIff.mpr (hFirst first t last hOrder hParent)

theorem definesFirst_userSchema :
    (userSchema "").validate = []
      ∧ ∃ p,
        (userSchema "").validatorProgram {} "valibot" = .ok p
          ∧ p.DefinesFirst := by
  have hValid : (userSchema "").validate = [] := by
    decide +kernel
  have hNot : ¬(userSchema "").HasOverflow := by
    rw [hasOverflow_userSchema_iff]
    decide +kernel
  have hWrites := failsWhen_flavorFile hValid
    (userSchema_isFlat "") {} .valibot
  rcases hWrites.succeeds_iff.mpr hNot with ⟨e, hFile⟩
  rcases flavorFile_definesFirst_iff hFile with
    ⟨p, hProgram, -, -, -, hIff⟩
  refine ⟨hValid, p, hProgram, hIff.mpr ?_⟩
  have hOrder :
      (userSchema "").emitOrder
          (EmitScope.ofSchema (userSchema "") {}).names =
        (userSchema "").types := by
    rfl
  rw [hOrder]
  intro before t after hSplit
  rcases before with _ | ⟨first, _ | ⟨second, more⟩⟩
  · cases hSplit
    exact List.nil_subset _
  · cases hSplit
    simp [WireType.parents, WireType.id?]
  · simp [userSchema] at hSplit

/- A record with a field of a type that extends the record. -/
def mixedCycle : Schema :=
  { types :=
      [.record
          { id := { name := "A", space := "m" }
            fields :=
              [{ name := "B"
                 type :=
                   .pointer
                     (.reference { name := "B", space := "m" })
                 wireName := "b" }] },
        .record
          { id := { name := "B", space := "m" }
            parents := [{ name := "A", space := "m" }] }] }

/- The constant of a child may stand before its parent's. -/
theorem mixedCycle_not_definesFirst :
    mixedCycle.validate = []
      ∧ (mixedCycle.flavorFile { baseTypes := false } Dialect.zod).map
          Emission.files =
        .ok
          [{ path := "types.zod.ts"
             contents :=
               "// Code generated by typebridge. DO NOT EDIT.\n\n"
                 ++ "import \x7b z \x7d from \"zod\";\n\n"
                 ++ "export const BSchema = "
                 ++ "ASchema.extend(\x7b\x7d);\n"
                 ++ "export type B = z.infer<typeof BSchema>;\n\n"
                 ++ "export const ASchema = z.object(\x7b\n"
                 ++ "  b: BSchema.nullable(),\n\x7d);\n"
                 ++ "export type A = z.infer<typeof ASchema>;\n" }]
      ∧ ∃ p,
        mixedCycle.validatorProgram { baseTypes := false } "zod" =
            .ok p
          ∧ ¬p.DefinesFirst := by
  refine ⟨by decide +kernel, by decide +kernel, ?_⟩
  have hOk : (mixedCycle.validatorProgram { baseTypes := false }
      "zod").toBool = true := by
    decide +kernel
  cases hProgram : mixedCycle.validatorProgram
      { baseTypes := false } "zod" with
  | error f =>
      rw [hProgram] at hOk
      cases hOk
  | ok p =>
      refine ⟨p, rfl, ?_⟩
      intro hDefines
      have hFirst := parentsFirst_of_definesFirst hProgram hDefines
      have hOrder :
          mixedCycle.emitOrder (EmitScope.ofSchema mixedCycle
              { baseTypes := false }).names =
            mixedCycle.types.reverse := by
        rfl
      have hParents := hFirst [] _ _ hOrder
      have hParent := hParents List.mem_cons_self
      cases hParent

end Schema

end WireSchema
