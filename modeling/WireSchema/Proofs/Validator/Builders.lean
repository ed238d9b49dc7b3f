import WireSchema.Proofs.Rules.Fold
import WireSchema.Proofs.Schema.Synonyms
import WireSchema.Proofs.Validator.Rendering
import WireSchema.Validator.Zod

/-
  What refinements are called on.

  In the dialect of method calls a refinement stands behind
  the expression that a field has without rules.  The call is
  for a builder: a base schema, one for parsed texts, an array,
  or a constant whose own expression is a builder.  Schemas
  that are deferred or may be null take no such calls.

  Key definitions include:
    * `ValidatorProgram.Builds`
    * `WireType.IsBuilder`
    * `EmitScope.IsRefinedValue`
    * `EmitScope.exists_entry_of_record`
-/

namespace WireSchema

------------------------------------------------------------
-- Builders
------------------------------------------------------------

/-
  An expression that builds a schema for values of a shape, so
  that refinements of these values may be called on it.
-/
inductive ValidatorProgram.Builds (p : ValidatorProgram) :
    Shape → SchemaTerm → Prop
  | base (kind : BaseKind) :
      p.Builds (.ofKind kind) (.base kind)
  | parsed (kind : BaseKind) (more : List Refinement) :
      p.Builds (.ofKind kind) (.parsed kind more)
  | array (elem : SchemaTerm) : p.Builds .array (.array elem)
  | refined
      {shape : Shape}
      {inner : SchemaTerm}
      (h : p.Builds shape inner)
      (more : List Refinement) :
      p.Builds shape (.refined inner more)
  | constant
      {shape : Shape}
      {st : SchemaStatement}
      {value : SchemaTerm}
      (hMem : st ∈ p.statements)
      (hBody : st.body = .term value)
      (h : p.Builds shape value)
      (arity : Nat) :
      p.Builds shape (.constant st.target arity)

namespace ValidatorProgram

variable {p : ValidatorProgram}
variable {shape : Shape}

theorem not_builds_deferred (e : SchemaTerm) :
    ¬p.Builds shape (.deferred e) :=
  nofun

theorem not_builds_nullable (e : SchemaTerm) :
    ¬p.Builds shape (.nullable e) :=
  nofun

theorem builds_refined_iff
    {inner : SchemaTerm}
    {more : List Refinement} :
    p.Builds shape (.refined inner more) ↔
      p.Builds shape inner := by
  constructor
  · rintro ⟨⟩
    assumption
  · intro h
    exact h.refined more

end ValidatorProgram

------------------------------------------------------------
-- Types
------------------------------------------------------------

/- A type whose expression is a builder in every scope. -/
def WireType.IsBuilder : WireType → Prop
  | .base .. => True
  | .array .. => True
  | _ => False

theorem WireType.IsBuilder.target_eq
    {t : WireType}
    (h : t.IsBuilder) : t.target = t := by
  cases t with
  | pointer elem => cases h
  | _ => rfl

theorem WireType.IsBuilder.isLast
    {s : Schema}
    {t : WireType}
    (h : t.IsBuilder) : s.IsLast t := by
  rintro id d rfl
  cases h

/- Only such types have a shape whose values are refined. -/
theorem WireType.isBuilder_of_ownShape
    {t : WireType}
    (h : t.ownShape = .text ∨ t.ownShape = .array
      ∨ ∃ integer, t.ownShape = .number integer) :
    t.IsBuilder := by
  cases t with
  | base kind bits => trivial
  | array elem len => trivial
  | _ =>
      rcases h with h | h | ⟨integer, h⟩
      · cases h
      · cases h
      · cases h

namespace EmitScope

variable {x : EmitScope}
variable {t : WireType}
variable {e : SchemaTerm}
variable {p : ValidatorProgram}

theorem builds_refinedTerm
    {more : List Refinement}
    (ht : t.IsBuilder)
    (h : x.refinedTerm t more = .ok e) :
    p.Builds t.ownShape e := by
  cases t with
  | base kind bits =>
      cases h
      exact (ValidatorProgram.Builds.base kind).refined _
  | array elem len =>
      rcases eq_ok_of_bind h with ⟨inner, -, h⟩
      cases h
      exact (ValidatorProgram.Builds.array inner).refined _
  | _ => cases ht

theorem builds_termFor
    (ht : t.IsBuilder)
    (h : x.termFor t = .ok e) : p.Builds t.ownShape e := by
  cases t with
  | base kind bits =>
      cases h
      exact (ValidatorProgram.Builds.base kind).refined _
  | array elem len =>
      rw [termFor] at h
      rcases eq_ok_of_bind h with ⟨inner, -, h⟩
      cases h
      exact (ValidatorProgram.Builds.array inner).refined _
  | _ => cases ht

/- A constant that has been declared is mentioned as it is. -/
theorem constantTerm_eq
    {id : TypeName}
    (h : x.constantTerm id = .ok e) :
    ∃ name, x.name id = .ok name
      ∧ (id ∈ x.emitted
          ∧ e = .constant { id, name } (x.arity id)
        ∨ id ∉ x.emitted
          ∧ e =
            .deferred (.constant { id, name } (x.arity id))) := by
  rcases eq_ok_of_bind h with ⟨name, hName, h⟩
  refine ⟨name, hName, ?_⟩
  by_cases hDeclared : id ∈ x.emitted
  · left
    simp [isForward, hDeclared] at h
    exact ⟨hDeclared, h.symm⟩
  · right
    simp [isForward, hDeclared] at h
    exact ⟨hDeclared, h.symm⟩

/- The only other builders are constants declared before. -/
theorem isBuilder_of_builds
    {shape : Shape}
    (h : x.termFor t = .ok e)
    (hBuilds : p.Builds shape e) :
    t.IsBuilder
      ∨ ∃ id name, t = .reference id ∧ id ∈ x.emitted
        ∧ e = .constant { id, name } (x.arity id) := by
  cases t with
  | base kind bits => exact .inl trivial
  | array elem len => exact .inl trivial
  | reference id =>
      right
      rcases constantTerm_eq h with
        ⟨name, -, ⟨hDeclared, rfl⟩ | ⟨-, rfl⟩⟩
      · exact ⟨id, name, rfl, hDeclared, rfl⟩
      · exact absurd hBuilds (p.not_builds_deferred _)
  | map key value =>
      rw [termFor] at h
      split at h
      · rcases eq_ok_of_bind h with ⟨first, -, h⟩
        rcases eq_ok_of_bind h with ⟨second, -, h⟩
        cases h
        cases hBuilds
      · rcases eq_ok_of_bind h with ⟨first, -, h⟩
        rcases eq_ok_of_bind h with ⟨second, -, h⟩
        cases h
        cases hBuilds
  | pointer elem =>
      by_cases hEmpty : ∃ bits, elem = .base .empty bits
      · rcases hEmpty with ⟨bits, rfl⟩
        cases h
        cases hBuilds
      · rw [termFor] at h
        · rcases eq_ok_of_bind h with ⟨inner, -, h⟩
          cases h
          exact absurd hBuilds (p.not_builds_nullable _)
        · intro bits hBase
          exact hEmpty ⟨bits, hBase⟩
  | union members =>
      rw [termFor] at h
      rcases eq_ok_of_bind h with ⟨parts, -, h⟩
      cases h
      cases hBuilds
  | param name =>
      cases h
      cases hBuilds
  | _ => cases h

end EmitScope

------------------------------------------------------------
-- Calls
------------------------------------------------------------

namespace EmitScope

variable {x : EmitScope}

/- Refinements are called on what stands there without them. -/
theorem text_refinedTerm
    (t : WireType)
    (more : List Refinement) :
    (x.refinedTerm t more).map (SchemaTerm.text .zod) =
      (x.refinedTerm t []).map fun base =>
        base.text .zod
          ++ String.join (more.map Zod.refinement) := by
  have hOwn : ∀ inner own,
      (SchemaTerm.refined inner (own ++ more)).text .zod =
        (SchemaTerm.refined inner (own ++ [])).text .zod
          ++ String.join (more.map Zod.refinement) := by
    intro inner own
    simp only [SchemaTerm.text, Dialect.zod, Zod.finish,
      List.map_append, String.join_append, List.append_nil,
      String.append_assoc]
  have hOther : ∀ t : WireType,
      (do
          let base ← x.termFor t
          .ok (.refined base more) :
            Except EmitError SchemaTerm).map
        (SchemaTerm.text .zod) =
      (do
          let base ← x.termFor t
          .ok (.refined base []) :
            Except EmitError SchemaTerm).map
        fun base =>
          base.text .zod
            ++ String.join (more.map Zod.refinement) := by
    intro t
    cases x.termFor t with
    | error e => rfl
    | ok base => exact congrArg Except.ok (hOwn base [])
  cases t with
  | base kind bits => exact congrArg Except.ok (hOwn ..)
  | array elem len =>
      unfold refinedTerm
      dsimp only
      cases x.termFor elem with
      | error e => rfl
      | ok elem => exact congrArg Except.ok (hOwn ..)
  | _ => exact hOther _

theorem text_parsedTerm
    (t : WireType)
    (more : List Refinement) :
    (x.parsedTerm t more).text .zod =
      (x.parsedTerm t []).text .zod
        ++ String.join (more.map Zod.refinement) := by
  unfold parsedTerm
  split
  · simp only [SchemaTerm.text, Dialect.zod, Zod.finish,
      List.map_append, String.join_append, List.append_nil,
      String.append_assoc]
  · simp only [SchemaTerm.text, Dialect.zod, Zod.finish,
      List.map_nil, String.join_nil, String.append_empty]

theorem text_valueTerm
    (f : Field WireType)
    {effects : FieldEffects}
    (hOneOf : effects.oneOf = none) :
    (x.valueTerm f effects).map (SchemaTerm.text .zod) =
      (x.valueTerm f {}).map fun base =>
        base.text .zod
          ++ String.join
            (effects.refinements.map Zod.refinement) := by
  unfold valueTerm
  rw [hOneOf]
  dsimp only
  split
  · exact congrArg Except.ok (text_parsedTerm ..)
  · exact text_refinedTerm ..

------------------------------------------------------------
-- Entries
------------------------------------------------------------

/-
  The expression for the values of a field.  Listed values
  take the place of all refinements; otherwise the calls stand
  behind the expression that the field has without rules.
-/
structure IsRefinedValue
    (x : EmitScope)
    (f : Field WireType)
    (value : SchemaTerm) : Prop where
  listed : ∀ values, x.schema.literalsOf? f = some values →
    x.valueTerm f { oneOf := some values } = .ok value
  refined : x.schema.literalsOf? f = none →
    ∃ base, x.valueTerm f {} = .ok base
      ∧ value.text .zod =
        base.text .zod
          ++ String.join
            ((x.schema.refinementsOf f).map Zod.refinement)

theorem isRefinedValue_of_entryOf
    {flavor owner : String}
    {f : Field WireType}
    {entry : SchemaEntry}
    (h : x.entryOf flavor owner f = .ok entry) :
    ∃ value, entry.value = x.wrapTerm f value
      ∧ x.IsRefinedValue f value := by
  unfold entryOf at h
  dsimp only at h
  split at h
  · cases h
  · next effects hEffects =>
      have hSame := (Schema.fieldEffects?_eq_some_iff.mp hEffects).2
      rcases eq_ok_of_bind h with ⟨value, hValue, h⟩
      cases h
      refine ⟨value, rfl, ?listed, ?refined⟩
      case listed =>
        intro values hListed
        have hOneOf : effects.oneOf = some values := by
          rw [hSame, hListed]
        unfold valueTerm at hValue ⊢
        rw [hOneOf] at hValue
        exact hValue
      case refined =>
        intro hNone
        have hOneOf : effects.oneOf = none := by
          rw [hSame, hNone]
        have hText := x.text_valueTerm f hOneOf
        rw [hValue, hSame] at hText
        rcases eq_ok_of_map hText.symm with ⟨base, hBase, hCalls⟩
        exact ⟨base, hBase, hCalls.symm⟩

/- Every field that is sent has its entry. -/
theorem exists_entry_of_record
    {flavor : String}
    {r : RecordDecl WireType}
    {st : SchemaStatement}
    (h : x.statementOf flavor (.record r) = .ok st)
    {f : Field WireType}
    (hField : f ∈ r.fields)
    (hSent : f.skip = false) :
    ∃ parents entries, st.body = .object parents entries
      ∧ ∃ entry ∈ entries, ∃ value,
        entry.value = x.wrapTerm f value
          ∧ x.IsRefinedValue f value := by
  rcases eq_ok_of_bind h with ⟨owner, -, h⟩
  rcases eq_ok_of_bind h with ⟨parents, -, h⟩
  rcases eq_ok_of_bind h with ⟨entries, hEntries, h⟩
  rcases eq_ok_of_bind h with ⟨target, -, h⟩
  cases h
  have hMem : f ∈ r.fields.filter fun f => !f.skip := by
    simp [hField, hSent]
  rcases exists_mem_of_mapM hEntries hMem with
    ⟨entry, hEntry, hOf⟩
  exact ⟨parents, entries, rfl, entry, hEntry,
    isRefinedValue_of_entryOf hOf⟩

------------------------------------------------------------
-- Statements
------------------------------------------------------------

theorem body_of_synonym
    {flavor : String}
    {d : SynonymDecl WireType}
    {st : SchemaStatement}
    (h : x.statementOf flavor (.synonym d) = .ok st) :
    ∃ value, x.termFor d.target = .ok value
      ∧ st.body = .term value := by
  rcases eq_ok_of_bind h with ⟨value, hValue, h⟩
  rcases eq_ok_of_bind h with ⟨target, -, h⟩
  cases h
  exact ⟨value, hValue, rfl⟩

/- Of the constants only those of synonyms are builders. -/
theorem synonym_of_builds
    {flavor : String}
    {p : ValidatorProgram}
    {shape : Shape}
    {t : WireType}
    {st : SchemaStatement}
    {value : SchemaTerm}
    (h : x.statementOf flavor t = .ok st)
    (hBody : st.body = .term value)
    (hBuilds : p.Builds shape value) :
    ∃ d, t = .synonym d ∧ x.termFor d.target = .ok value := by
  cases t with
  | record r =>
      rcases eq_ok_of_bind h with ⟨owner, -, h⟩
      rcases eq_ok_of_bind h with ⟨parents, -, h⟩
      rcases eq_ok_of_bind h with ⟨entries, -, h⟩
      rcases eq_ok_of_bind h with ⟨target, -, h⟩
      cases h
      cases hBody
  | synonym d =>
      rcases body_of_synonym h with ⟨own, hOwn, hSame⟩
      rw [hSame] at hBody
      cases hBody
      exact ⟨d, rfl, hOwn⟩
  | enum e =>
      rcases eq_ok_of_bind h with ⟨target, -, h⟩
      cases h
      cases hBody
      cases hBuilds
  | _ => cases h

/- A statement is that of a declaration behind the others. -/
theorem declaration_of_statement
    {flavor : String}
    {ts : List WireType}
    {sts : List SchemaStatement}
    {st : SchemaStatement}
    (h : statementsOf flavor x ts = .ok sts)
    (hMem : st ∈ sts) :
    ∃ first t last, ts = first ++ t :: last
      ∧ (x.markAll first).statementOf flavor t = .ok st := by
  induction ts generalizing x sts with
  | nil =>
      cases h
      cases hMem
  | cons t rest ih =>
      cases hId : t.id? with
      | none =>
          rw [statementsOf_of_id?_eq_none hId] at h
          rcases ih h hMem with ⟨first, u, last, hSplit, hOf⟩
          refine ⟨t :: first, u, last, ?_, ?_⟩
          · rw [hSplit, List.cons_append]
          · rwa [x.markAll_of_id?_eq_none hId]
      | some id =>
          rcases (statementsOf_eq_ok_iff hId).mp h with
            ⟨here, more, rfl, hHere, hMore⟩
          rcases List.mem_cons.mp hMem with rfl | hMem
          · exact ⟨[], t, rest, rfl, hHere⟩
          · rcases ih hMore hMem with ⟨first, u, last, hSplit, hOf⟩
            refine ⟨t :: first, u, last, ?_, ?_⟩
            · rw [hSplit, List.cons_append]
            · rwa [x.markAll_of_id?_eq_some hId]

end EmitScope

end WireSchema
