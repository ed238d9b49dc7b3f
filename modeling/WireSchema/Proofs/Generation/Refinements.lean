import WireSchema.Proofs.Generation.Definitions
import WireSchema.Proofs.Rules.Fold
import WireSchema.Proofs.Validation.Encoding
import WireSchema.Proofs.Validator.Builders

/-
  Where the refinements of fields land.

  Whether a rule applies to a field is decided by the shape of
  its type, which is looked up behind synonyms and pointers.
  The refinement is then called on the expression for the type
  itself.  The two agree unless a synonym is mentioned before
  it is declared, or one on the way is of a pointer.

  Key definitions include:
    * `OpenSynonym`
    * `Schema.RefinesAt`, `Schema.RulesLand`
    * `Schema.refinements_land_iff`
-/

namespace WireSchema

open Relation

------------------------------------------------------------
-- Open Synonyms
------------------------------------------------------------

/-
  A synonym of a base type or an array, or of another open
  synonym that stands before it.  There is no pointer between
  them.
-/
inductive OpenSynonym (order : List WireType) : TypeName → Prop
  | own
      {first last : List WireType}
      {d : SynonymDecl WireType}
      (hPlace : order = first ++ .synonym d :: last)
      (hTarget : d.target.IsBuilder) :
      OpenSynonym order d.id
  | through
      {first last : List WireType}
      {d : SynonymDecl WireType}
      {id : TypeName}
      (hPlace : order = first ++ .synonym d :: last)
      (hTarget : d.target = .reference id)
      (hBefore : id ∈ first.filterMap WireType.id?)
      (h : OpenSynonym order id) :
      OpenSynonym order d.id

namespace Schema

variable {s : Schema}
variable {o : EmitOptions}
variable {flavor : String}
variable {p : ValidatorProgram}
variable {first last : List WireType}

/- The declarations in the order of emission. -/
def orderFor (s : Schema) (o : EmitOptions) : List WireType :=
  s.emitOrder (EmitScope.ofSchema s o).names

/- The scope behind the first declarations. -/
def scopeBehind
    (s : Schema)
    (o : EmitOptions)
    (first : List WireType) : EmitScope :=
  (EmitScope.ofSchema s o).markAll first

theorem schema_scopeBehind :
    (s.scopeBehind o first).schema = s := by
  unfold scopeBehind
  rw [EmitScope.markAll_eq]
  rfl

theorem mem_emitted_scopeBehind {id : TypeName} :
    id ∈ (s.scopeBehind o first).emitted ↔
      id ∈ first.filterMap WireType.id? := by
  unfold scopeBehind
  rw [EmitScope.mem_emitted_markAll]
  simp [EmitScope.ofSchema]

/- All scopes have the same names. -/
theorem name_scopeBehind (id : TypeName) :
    (s.scopeBehind o first).name id =
      (EmitScope.ofSchema s o).name id :=
  EmitScope.name_markAll ..

/- Each declaration has its statement. -/
theorem statement_of_declaration
    (h : s.validatorProgram o flavor = .ok p)
    {t : WireType}
    {id : TypeName}
    (hPlace : s.orderFor o = first ++ t :: last)
    (hId : t.id? = some id) :
    ∃ st ∈ p.statements,
      (s.scopeBehind o first).statementOf flavor t = .ok st := by
  have hStatements := (parts_of_validatorProgram h).1
  rw [show s.emitOrder _ = _ from hPlace] at hStatements
  rcases EmitScope.statementsOf_append hStatements with
    ⟨before, more, hSplit, -, hMore⟩
  rcases (EmitScope.statementsOf_eq_ok_iff hId).mp hMore with
    ⟨st, after, rfl, hStatement, -⟩
  refine ⟨st, ?_, hStatement⟩
  rw [hSplit]
  exact List.mem_append_right _ List.mem_cons_self

/- The statement of a synonym holds the expression for its type. -/
theorem constant_of_synonym
    (h : s.validatorProgram o flavor = .ok p)
    {d : SynonymDecl WireType}
    {name : String}
    (hPlace : s.orderFor o = first ++ .synonym d :: last)
    (hName : (EmitScope.ofSchema s o).name d.id = .ok name) :
    ∃ st ∈ p.statements, st.target = { id := d.id, name }
      ∧ ∃ value, st.body = .term value
        ∧ (s.scopeBehind o first).termFor d.target =
          .ok value := by
  rcases statement_of_declaration h hPlace rfl with
    ⟨st, hMem, hStatement⟩
  rcases EmitScope.target_of_statementOf hStatement with
    ⟨hId, hTarget⟩
  rcases EmitScope.body_of_synonym hStatement with
    ⟨value, hValue, hBody⟩
  refine ⟨st, hMem, ?_, value, hBody, hValue⟩
  rw [name_scopeBehind] at hTarget
  exact EmitScope.eq_of_id_eq hTarget hName
    (Option.some.inj hId).symm

end Schema

/-
  An open synonym leads to a type of some shape, and its
  constant builds schemas for values of this shape.
-/
theorem OpenSynonym.builds
    {s : Schema}
    {o : EmitOptions}
    {flavor : String}
    {p : ValidatorProgram}
    {id : TypeName}
    (hDistinct : s.names.Nodup)
    (hProgram : s.validatorProgram o flavor = .ok p)
    (h : OpenSynonym (s.orderFor o) id) :
    ∃ n u, s.LeadsTo n (.reference id) u ∧ s.IsLast u
      ∧ ∀ name arity,
        (EmitScope.ofSchema s o).name id = .ok name →
        p.Builds u.ownShape (.constant { id, name } arity) := by
  have hFound : ∀ first last d,
      s.orderFor o = first ++ WireType.synonym d :: last →
      s.find? d.id = some (.synonym d) := by
    intro first last d hPlace
    have hMem : WireType.synonym d ∈ s.orderFor o := by
      rw [hPlace]
      exact List.mem_append_right _ List.mem_cons_self
    exact Schema.find?_eq_some hDistinct
      (Schema.mem_types_of_mem_emitOrder hMem).1 rfl
  induction h with
  | @own first last d hPlace hTarget =>
      refine ⟨1, d.target, ?_, hTarget.isLast, ?_⟩
      · have hHere := Schema.LeadsTo.here (s := s) d.target
        rw [hTarget.target_eq] at hHere
        exact .through rfl (hFound _ _ _ hPlace) hHere
      · intro name arity hName
        rcases Schema.constant_of_synonym hProgram hPlace hName
          with ⟨st, hMem, hSame, value, hBody, hValue⟩
        rw [← hSame]
        exact .constant hMem hBody
          (EmitScope.builds_termFor hTarget hValue) arity
  | @through first last d id hPlace hTarget hBefore h ih =>
      rcases ih with ⟨n, u, hLeads, hLast, hBuilds⟩
      refine ⟨n + 1, u, ?_, hLast, ?_⟩
      · refine .through rfl (hFound _ _ _ hPlace) ?_
        rwa [hTarget]
      · intro name arity hName
        rcases Schema.constant_of_synonym hProgram hPlace hName
          with ⟨st, hMem, hSame, value, hBody, hValue⟩
        rw [hTarget] at hValue
        rcases EmitScope.constantTerm_eq hValue with
          ⟨other, hOther, ⟨-, rfl⟩ | ⟨hForward, -⟩⟩
        · rw [Schema.name_scopeBehind] at hOther
          rw [← hSame]
          exact .constant hMem hBody (hBuilds _ _ hOther) arity
        · exact absurd (Schema.mem_emitted_scopeBehind.mpr hBefore)
            hForward

namespace Schema

variable {s : Schema}
variable {o : EmitOptions}
variable {flavor : String}
variable {p : ValidatorProgram}
variable {first last : List WireType}

/- A constant that builds schemas is that of an open synonym. -/
theorem openSynonym_of_builds
    (hProgram : s.validatorProgram o flavor = .ok p)
    {shape : Shape}
    {e : SchemaTerm}
    (h : p.Builds shape e) :
    ∀ target arity, e = .constant target arity →
      OpenSynonym (s.orderFor o) target.id := by
  induction h with
  | @constant shape st value hMem hBody hValue arity ih =>
      intro target other hSame
      cases hSame
      rcases EmitScope.declaration_of_statement
        (parts_of_validatorProgram hProgram).1 hMem with
        ⟨first, t, last, hPlace, hStatement⟩
      rcases EmitScope.synonym_of_builds hStatement hBody hValue
        with ⟨d, rfl, hTerm⟩
      have hId := (EmitScope.target_of_statementOf hStatement).1
      rw [← (Option.some.inj hId : d.id = st.target.id)]
      rcases EmitScope.isBuilder_of_builds hTerm hValue with
        hOwn | ⟨id, name, hName, hDeclared, hConstant⟩
      · exact .own hPlace hOwn
      · exact .through hPlace hName
          (mem_emitted_scopeBehind.mp hDeclared)
          (ih _ _ hConstant)
  | _ => exact nofun

------------------------------------------------------------
-- Fields
------------------------------------------------------------

/-
  A field of a record behind the first declarations that is
  sent with refinements from its rules.
-/
structure RefinesAt
    (s : Schema)
    (o : EmitOptions)
    (first : List WireType)
    (r : RecordDecl WireType)
    (f : Field WireType) : Prop where
  place : ∃ last, s.orderFor o = first ++ .record r :: last
  field : f ∈ r.fields
  sent : f.skip = false
  unlisted : s.literalsOf? f = none
  refined : s.refinementsOf f ≠ []

/- Refinements are called on builders for values of their shape. -/
def RulesLand
    (s : Schema)
    (o : EmitOptions)
    (p : ValidatorProgram) : Prop :=
  ∀ first r f, s.RefinesAt o first r f →
    ∃ base, (s.scopeBehind o first).valueTerm f {} = .ok base
      ∧ p.Builds (s.shapeOf f.type) base

/-
  A type of refined values that is a name is that of an open
  synonym, and mentioned behind the declaration of this.
-/
def MentionsOpen (s : Schema) (o : EmitOptions) : Prop :=
  ∀ first r f id, s.RefinesAt o first r f →
    f.stringEncoded = false →
    f.type.target = .reference id →
    id ∈ first.filterMap WireType.id?
      ∧ OpenSynonym (s.orderFor o) id

variable {r : RecordDecl WireType}
variable {f : Field WireType}

/- Each field that is sent has its entry in the program. -/
theorem entry_of_field
    (hProgram : s.validatorProgram o flavor = .ok p)
    (hPlace : s.orderFor o = first ++ .record r :: last)
    (hField : f ∈ r.fields)
    (hSent : f.skip = false) :
    ∃ st ∈ p.statements, st.target.id = r.id
      ∧ ∃ parents entries, st.body = .object parents entries
        ∧ ∃ entry ∈ entries, ∃ value,
          entry.value = (s.scopeBehind o first).wrapTerm f value
            ∧ (s.scopeBehind o first).IsRefinedValue f value := by
  rcases statement_of_declaration hProgram hPlace rfl with
    ⟨st, hMem, hStatement⟩
  have hId := (EmitScope.target_of_statementOf hStatement).1
  exact ⟨st, hMem, (Option.some.inj hId).symm,
    EmitScope.exists_entry_of_record hStatement hField hSent⟩

theorem RefinesAt.base
    (hProgram : s.validatorProgram o flavor = .ok p)
    (h : s.RefinesAt o first r f) :
    ∃ base, (s.scopeBehind o first).valueTerm f {} = .ok base := by
  rcases h.place with ⟨last, hPlace⟩
  rcases entry_of_field hProgram hPlace h.field h.sent with
    ⟨-, -, -, -, -, -, -, -, value, -, hValue⟩
  have hNone :
      (s.scopeBehind o first).schema.literalsOf? f = none := by
    rw [schema_scopeBehind, h.unlisted]
  rcases hValue.refined hNone with ⟨base, hBase, -⟩
  exact ⟨base, hBase⟩

/- What is parsed from a text is built for its scalar. -/
theorem RefinesAt.builds_of_encoded
    (hValid : s.validate = [])
    (h : s.RefinesAt o first r f)
    (hEncoded : f.stringEncoded = true)
    {base : SchemaTerm}
    (hBase : (s.scopeBehind o first).valueTerm f {} = .ok base) :
    p.Builds (s.shapeOf f.type) base := by
  rcases h.place with ⟨last, hPlace⟩
  have hOrdered : .record r ∈ s.orderFor o := by
    rw [hPlace]
    exact List.mem_append_right _ List.mem_cons_self
  have hTaken := takesEncoding_of_validate_eq_nil hValid
    (mem_types_of_mem_emitOrder hOrdered).1 h.field hEncoded
  rcases hTaken.finds with hScalar | hEnum
  · rcases Option.isSome_iff_exists.mp hScalar with
      ⟨⟨kind, bits⟩, hFound⟩
    have hTarget : s.scalarBehind? f.type.target =
        some (kind, bits) := by
      rw [scalarBehind?_target, hFound]
    unfold EmitScope.valueTerm EmitScope.parsedTerm at hBase
    simp only [hEncoded, if_true, schema_scopeBehind, hTarget]
      at hBase
    cases hBase
    rw [shapeOf_of_scalarBehind? hFound]
    exact .parsed kind _
  · -- an enumeration is not refined
    have hNone := refinementsOf_of_other hEnum.shapeOf_eq_other
    exact absurd hNone h.refined

/- What does not travel as text is refined as its type is. -/
theorem valueTerm_of_plain
    {x : EmitScope}
    (hPlain : f.stringEncoded = false) :
    x.valueTerm f {} = x.refinedTerm f.type.target [] := by
  unfold EmitScope.valueTerm
  simp only [hPlain, Bool.false_eq_true, if_false]

/- What is no name is built by its own expression. -/
theorem RefinesAt.builds_of_direct
    (h : s.RefinesAt o first r f)
    (hPlain : f.stringEncoded = false)
    (hDirect : ∀ id, f.type.target ≠ .reference id)
    {base : SchemaTerm}
    (hBase : (s.scopeBehind o first).valueTerm f {} = .ok base) :
    p.Builds (s.shapeOf f.type) base := by
  have hShape := shapeOf_of_refinementsOf h.refined
  rw [shapeOf_of_direct hDirect] at hShape ⊢
  rw [valueTerm_of_plain hPlain] at hBase
  exact EmitScope.builds_refinedTerm
    (WireType.isBuilder_of_ownShape hShape) hBase

/- A name is built by an open synonym that stands before it. -/
theorem RefinesAt.builds_iff_of_reference
    (hDistinct : s.names.Nodup)
    (hProgram : s.validatorProgram o flavor = .ok p)
    (h : s.RefinesAt o first r f)
    (hPlain : f.stringEncoded = false)
    {id : TypeName}
    (hName : f.type.target = .reference id)
    {base : SchemaTerm}
    (hBase : (s.scopeBehind o first).valueTerm f {} = .ok base) :
    p.Builds (s.shapeOf f.type) base ↔
      id ∈ first.filterMap WireType.id?
        ∧ OpenSynonym (s.orderFor o) id := by
  rw [valueTerm_of_plain hPlain, hName] at hBase
  rcases eq_ok_of_bind hBase with ⟨inner, hInner, hBase⟩
  cases hBase
  rw [ValidatorProgram.builds_refined_iff]
  rcases EmitScope.constantTerm_eq hInner with
    ⟨name, hEmitted, ⟨hBefore, rfl⟩ | ⟨hForward, rfl⟩⟩
  · rw [mem_emitted_scopeBehind] at hBefore
    rw [name_scopeBehind] at hEmitted
    constructor
    · intro hBuilds
      exact ⟨hBefore,
        openSynonym_of_builds hProgram hBuilds _ _ rfl⟩
    · rintro ⟨-, hOpen⟩
      rcases hOpen.builds hDistinct hProgram with
        ⟨n, u, hLeads, hLast, hBuilds⟩
      rw [← hName] at hLeads
      rcases shapeOf_of_leadsTo hLeads.of_target hLast with
        hOther | hOwn
      · exact absurd (refinementsOf_of_other hOther) h.refined
      · rw [hOwn]
        exact hBuilds name _ hEmitted
  · rw [mem_emitted_scopeBehind] at hForward
    apply iff_of_false
    · exact p.not_builds_deferred _
    · exact fun hBoth => hForward hBoth.1

theorem rulesLand_iff
    (hValid : s.validate = [])
    (hProgram : s.validatorProgram o flavor = .ok p) :
    s.RulesLand o p ↔ s.MentionsOpen o := by
  have hDistinct := (references_of_validate_eq_nil hValid).1
  constructor
  · intro hLand first r f id hRefines hPlain hName
    rcases hLand first r f hRefines with ⟨base, hBase, hBuilds⟩
    exact (hRefines.builds_iff_of_reference hDistinct hProgram
      hPlain hName hBase).mp hBuilds
  · intro hOpen first r f hRefines
    rcases hRefines.base hProgram with ⟨base, hBase⟩
    refine ⟨base, hBase, ?_⟩
    by_cases hEncoded : f.stringEncoded = true
    · exact hRefines.builds_of_encoded hValid hEncoded hBase
    · have hPlain := Bool.eq_false_of_not_eq_true hEncoded
      by_cases hName : ∃ id, f.type.target = .reference id
      · rcases hName with ⟨id, hName⟩
        exact (hRefines.builds_iff_of_reference hDistinct hProgram
          hPlain hName hBase).mpr
          (hOpen first r f id hRefines hPlain hName)
      · exact hRefines.builds_of_direct hPlain
          (fun id hId => hName ⟨id, hId⟩) hBase

/- What a refined field names is declared, or is on a cycle. -/
theorem RefinesAt.inOrder
    (hValid : s.validate = [])
    (h : s.RefinesAt o first r f)
    {id : TypeName}
    (hName : f.type.target = .reference id) :
    id ∈ first.filterMap WireType.id?
      ∨ TransGen s.Needs id r.id := by
  rcases h.place with ⟨last, hPlace⟩
  have hOrdered : .record r ∈ s.orderFor o := by
    rw [hPlace]
    exact List.mem_append_right _ List.mem_cons_self
  have hType := (mem_types_of_mem_emitOrder hOrdered).1
  have hField : id ∈ f.type.references := by
    apply WireType.mem_references_of_target
    rw [hName]
    rfl
  have hDep : id ∈ (WireType.record r).dependencies := by
    rw [WireType.dependencies_eq, WireType.references_record]
    exact List.mem_append_right _
      (List.mem_append_right _
        (List.mem_flatMap.mpr ⟨f, h.field, hField⟩))
  have hDeclared :=
    (references_of_validate_eq_nil hValid).2.1 _ hType rfl hDep
  exact s.inOrder_emitOrder _ first (.record r) last r.id hPlace
    rfl id hDep hDeclared

/-
  In the file of the dialect of method calls, the refinements
  of a field's rules are called one behind the other on the
  expression that the field has without rules, in front of
  null and absence; listed values leave no refinements.  All
  calls are on builders for values of the field's shape, which
  schemas that are deferred or may be null are not, exactly if
  every name of a refined type is that of an open synonym
  declared before.  A name that is not declared before depends
  on the record in turn.
-/
theorem refinements_land_iff
    (hValid : s.validate = [])
    {e : Emission}
    (hFile : s.flavorFile o Dialect.zod = .ok e) :
    ∃ p, s.validatorProgram o "zod" = .ok p
      ∧ e.files =
        [{ path := o.baseName ++ "." ++ "zod.ts"
           contents := p.text .zod }]
      ∧ (∀ first last r f,
        s.orderFor o = first ++ .record r :: last →
        f ∈ r.fields →
        f.skip = false →
        ∃ st ∈ p.statements, st.target.id = r.id
          ∧ ∃ parents entries, st.body = .object parents entries
            ∧ ∃ entry ∈ entries, ∃ value,
              entry.value =
                  (s.scopeBehind o first).wrapTerm f value
                ∧ (s.scopeBehind o first).IsRefinedValue f value)
      ∧ (s.RulesLand o p ↔ s.MentionsOpen o)
      ∧ ∀ first r f id, s.RefinesAt o first r f →
        f.type.target = .reference id →
        id ∈ first.filterMap WireType.id?
          ∨ TransGen s.Needs id r.id := by
  have hText := s.flavorFile_eq o .zod
  rw [hFile] at hText
  rcases eq_ok_of_map hText.symm with ⟨p, hProgram, hFiles⟩
  refine ⟨p, hProgram, hFiles.symm, ?entries,
    rulesLand_iff hValid hProgram, ?ordered⟩
  case entries =>
    intro first last r f hPlace hField hSent
    exact entry_of_field hProgram hPlace hField hSent
  case ordered =>
    intro first r f id hRefines hName
    exact hRefines.inOrder hValid hName

/- A field of a declared type with rules. -/
def namedField (name wireName rules : String) : Field WireType :=
  { name
    type := .reference { name, space := "m" }
    wireName
    rules }

def childrenDecl (target : WireType) : SynonymDecl WireType :=
  { id := { name := "C", space := "m" }, target }

def labelDecl (target : WireType) : SynonymDecl WireType :=
  { id := { name := "L", space := "m" }, target }

/- A node with children and a label, both of declared types. -/
def nodeDecl : RecordDecl WireType :=
  { id := { name := "N", space := "m" }
    fields :=
      [namedField "C" "children" "min=1",
       namedField "L" "label" "min=3"] }

def treeSchema (children label : WireType) : Schema :=
  { types :=
      [.synonym (childrenDecl children),
       .synonym (labelDecl label), .record nodeDecl] }

/- The synonyms are of an array and of a text. -/
def openTree : Schema :=
  treeSchema (.array (.base .string 0) 0) (.base .string 0)

/- The children are nodes again, and the label may be null. -/
def closedTree : Schema :=
  treeSchema
    (.array (.reference { name := "N", space := "m" }) 0)
    (.pointer (.base .string 0))

theorem isFlat_treeSchema
    {children label : WireType}
    (hChildren : children.IsExpression)
    (hLabel : label.IsExpression) :
    (treeSchema children label).IsFlat := by
  constructor
  · simp only [treeSchema, List.forall_mem_cons]
    refine ⟨hChildren, hLabel, ?_, List.forall_mem_nil _⟩
    simp [WireType.IsFlat, WireType.id?, nodeDecl, namedField]
  · exact List.forall_mem_nil _

theorem succeeds_treeSchema
    {children label : WireType}
    (hChildren : children.IsExpression)
    (hLabel : label.IsExpression)
    (hValid : (treeSchema children label).validate = []) :
    Succeeds ((treeSchema children label).flavorFile {} Dialect.zod) := by
  have hFlat := isFlat_treeSchema hChildren hLabel
  have hOne : fieldRules "min=1" =
      [{ name := "min", param := some "1" }] := by
    decide
  have hThree : fieldRules "min=3" =
      [{ name := "min", param := some "3" }] := by
    decide
  have hMin : ∀ param shape,
      ¬Rule.Overflows { name := "min", param } shape := by
    intro param shape hOver
    have hOther : "min" ≠ "gt" := by decide
    exact hOther hOver.name
  have hNot : ¬(treeSchema children label).HasOverflow := by
    simp [HasOverflow, DeclOverflows, Overflows, treeSchema,
      nodeDecl, namedField, hOne, hThree, hMin]
  exact (failsWhen_flavorFile hValid hFlat {} .zod).succeeds_iff.mpr
    hNot

/- Names of open synonyms in front of the record are refined. -/
theorem refinements_land_openTree :
    openTree.validate = []
      ∧ ∃ e p, openTree.flavorFile {} Dialect.zod = .ok e
        ∧ openTree.validatorProgram {} "zod" = .ok p
        ∧ openTree.RulesLand {} p := by
  have hValid : openTree.validate = [] := by decide +kernel
  have hWrites : Succeeds (openTree.flavorFile {} Dialect.zod) :=
    succeeds_treeSchema (by simp) (by simp) hValid
  rcases hWrites with ⟨e, hFile⟩
  rcases refinements_land_iff hValid hFile with
    ⟨p, hProgram, -, -, hIff, -⟩
  refine ⟨hValid, e, p, hFile, hProgram, hIff.mpr ?_⟩
  have hOrder : openTree.orderFor {} = openTree.types := by rfl
  intro first r f id hRefines hPlain hName
  rcases hRefines.place with ⟨last, hPlace⟩
  rw [hOrder] at hPlace
  rcases first with _ | ⟨a, _ | ⟨b, _ | ⟨c, more⟩⟩⟩
  · cases hPlace
  · cases hPlace
  · cases hPlace
    rcases List.mem_cons.mp hRefines.field with rfl | hRest
    · cases hName
      exact ⟨by decide, @OpenSynonym.own _ [] _ _ hOrder trivial⟩
    · cases List.mem_singleton.mp hRest
      cases hName
      exact ⟨by decide, @OpenSynonym.own _ [_] _ _ hOrder trivial⟩
  · simp [openTree, treeSchema] at hPlace

/- The entry of a refined field that is never null or absent. -/
theorem RefinesAt.text_of_entry
    (hProgram : s.validatorProgram o flavor = .ok p)
    (h : s.RefinesAt o first r f)
    (hNull : f.type.isPointer = false)
    (hAbsent : f.optional = false)
    (text : String)
    (hText : ((s.scopeBehind o first).valueTerm f {}).map
      (SchemaTerm.text .zod) = .ok text) :
    ∃ st ∈ p.statements, st.target.id = r.id
      ∧ ∃ parents entries, st.body = .object parents entries
        ∧ ∃ entry ∈ entries,
          entry.value.text .zod =
            text ++ String.join
              ((s.refinementsOf f).map Zod.refinement) := by
  rcases h.place with ⟨last, hPlace⟩
  rcases entry_of_field hProgram hPlace h.field h.sent with
    ⟨st, hMem, hId, parents, entries, hBody, entry, hEntry, value,
      hWrapped, hValue⟩
  refine ⟨st, hMem, hId, parents, entries, hBody, entry, hEntry, ?_⟩
  have hNone :
      (s.scopeBehind o first).schema.literalsOf? f = none := by
    rw [schema_scopeBehind, h.unlisted]
  rcases hValue.refined hNone with ⟨base, hBase, hCalls⟩
  rw [schema_scopeBehind] at hCalls
  rw [hBase] at hText
  rw [hWrapped, ← Except.ok.inj hText]
  unfold EmitScope.wrapTerm
  simp [hNull, hAbsent, hCalls]

/- The cycle puts the children behind the node. -/
theorem orderFor_closedTree :
    closedTree.orderFor {} =
      [.synonym (labelDecl (.pointer (.base .string 0)))]
        ++ .record nodeDecl
        :: [.synonym (childrenDecl
          (.array (.reference { name := "N", space := "m" }) 0))] := by
  rfl

theorem refinesAt_closedTree
    {f : Field WireType}
    (hField : f ∈ nodeDecl.fields) :
    closedTree.RefinesAt {}
      [.synonym (labelDecl (.pointer (.base .string 0)))]
      nodeDecl f := by
  have hEach : ∀ f ∈ nodeDecl.fields, f.skip = false
      ∧ closedTree.literalsOf? f = none
      ∧ closedTree.refinementsOf f ≠ [] := by
    decide +kernel
  rcases hEach f hField with ⟨hSent, hUnlisted, hRefined⟩
  exact ⟨⟨_, orderFor_closedTree⟩, hField, hSent, hUnlisted,
    hRefined⟩

/-
  A name that has to be deferred, and a synonym of a pointer,
  are refined all the same.
-/
theorem closedTree_not_rulesLand :
    closedTree.validate = []
      ∧ ∃ e p, closedTree.flavorFile {} Dialect.zod = .ok e
        ∧ closedTree.validatorProgram {} "zod" = .ok p
        ∧ ¬closedTree.RulesLand {} p
        ∧ (∃ st ∈ p.statements, ∃ parents entries,
          st.body = .object parents entries
            ∧ ∃ entry ∈ entries, entry.value.text .zod =
              "z.lazy(() => CSchema).min(1)")
        ∧ (∃ st ∈ p.statements, ∃ parents entries,
          st.body = .object parents entries
            ∧ ∃ entry ∈ entries, entry.value.text .zod =
              "LSchema.min(3)")
        ∧ ∃ st ∈ p.statements, st.text .zod =
          "export const LSchema = z.string().nullable();\n" := by
  have hValid : closedTree.validate = [] := by decide +kernel
  have hWrites : Succeeds (closedTree.flavorFile {} Dialect.zod) :=
    succeeds_treeSchema (by simp) (by simp) hValid
  rcases hWrites with ⟨e, hFile⟩
  have hText := closedTree.flavorFile_eq {} .zod
  rw [hFile] at hText
  rcases eq_ok_of_map hText.symm with ⟨p, hProgram, -⟩
  have hChildren := refinesAt_closedTree
    (f := namedField "C" "children" "min=1") List.mem_cons_self
  have hLabel := refinesAt_closedTree
    (f := namedField "L" "label" "min=3")
    (List.mem_cons_of_mem _ List.mem_cons_self)
  refine ⟨hValid, e, p, hFile, hProgram, ?lands, ?deferred,
    ?nullable, ?label⟩
  case lands =>
    rw [rulesLand_iff hValid hProgram]
    intro hOpen
    have hBefore := (hOpen _ _ _ _ hChildren rfl rfl).1
    revert hBefore
    decide
  case deferred =>
    rcases hChildren.text_of_entry hProgram rfl rfl
      "z.lazy(() => CSchema)" (by decide +kernel) with
      ⟨st, hMem, -, parents, entries, hBody, entry, hEntry, hText⟩
    have hCalls : closedTree.refinementsOf
        (namedField "C" "children" "min=1") = [.minLength 1] := by
      decide +kernel
    refine ⟨st, hMem, parents, entries, hBody, entry, hEntry, ?_⟩
    rw [hText, hCalls]
    decide
  case nullable =>
    rcases hLabel.text_of_entry hProgram rfl rfl
      "LSchema" (by decide +kernel) with
      ⟨st, hMem, -, parents, entries, hBody, entry, hEntry, hText⟩
    have hCalls : closedTree.refinementsOf
        (namedField "L" "label" "min=3") = [.minLength 3] := by
      decide +kernel
    refine ⟨st, hMem, parents, entries, hBody, entry, hEntry, ?_⟩
    rw [hText, hCalls]
    decide
  case label =>
    let label := labelDecl (.pointer (.base .string 0))
    have hPlace : closedTree.orderFor {} =
        [] ++ .synonym label :: _ := orderFor_closedTree
    rcases statement_of_declaration hProgram hPlace rfl with
      ⟨st, hMem, hStatement⟩
    have hText : ((closedTree.scopeBehind {} []).statementOf "zod"
        (.synonym label)).map (SchemaStatement.text .zod) =
          .ok "export const LSchema = z.string().nullable();\n" := by
      decide +kernel
    rw [show (closedTree.scopeBehind {} []).statementOf "zod" _ =
      .ok st from hStatement] at hText
    exact ⟨st, hMem, Except.ok.inj hText⟩

end Schema

end WireSchema
