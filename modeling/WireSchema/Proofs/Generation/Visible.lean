import WireSchema.Generation.Emission
import WireSchema.Proofs.Emit.Visible
import WireSchema.Proofs.Outcome
import WireSchema.Validator.Basic

/-
  Documentation reaches emitted code as comments only.

  A validator follows names through synonyms and reads rules,
  kinds and members, and it prints documentation as comments
  only.  Two schemas of which a comment policy shows the same
  are emitted alike under that policy.  Without comments they
  may differ in all of their documentation, and with comments
  on declarations in that of their fields and members; in their
  places in sources they may always differ.

  Key definitions include:
    * `Dialect.declaration_visible`
    * `EmitScope.HidesDocs`, `OutputFlavor.HidesDocs`
    * `Schema.emit_visible`
    * `Schema.emit_eq_of_visible_eq`
-/

namespace WireSchema

------------------------------------------------------------
-- What Is Behind a Name
------------------------------------------------------------

namespace Schema

variable {p : CommentPolicy}
variable {s : Schema}

theorem shapeOf_visible (t : WireType) :
    (s.visible p).shapeOf (t.visible p) = s.shapeOf t := by
  have hSteps : ∀ steps t,
      (s.visible p).shapeWithin steps (t.visible p) =
        s.shapeWithin steps t := by
    intro steps
    induction steps with
    | zero => exact fun _ => rfl
    | succ steps ih =>
        intro t
        unfold shapeWithin
        rw [WireType.target_visible]
        cases t.target with
        | reference id =>
            rw [WireType.visible_reference]
            dsimp only
            rw [find?_visible]
            cases s.find? id with
            | none => rfl
            | some decl =>
                cases decl with
                | synonym d =>
                    rw [Option.map_some, WireType.visible_synonym]
                    exact ih d.target
                | _ => simp
        | _ => simp
  exact hSteps _ t

theorem scalarBehind?_visible (t : WireType) :
    (s.visible p).scalarBehind? (t.visible p) =
      s.scalarBehind? t := by
  have hSteps : ∀ steps t,
      (s.visible p).baseWithin? steps (t.visible p) =
        s.baseWithin? steps t := by
    intro steps
    induction steps with
    | zero => exact fun _ => rfl
    | succ steps ih =>
        intro t
        unfold baseWithin?
        rw [WireType.target_visible]
        cases t.target with
        | reference id =>
            rw [WireType.visible_reference]
            dsimp only
            rw [find?_visible]
            cases s.find? id with
            | none => rfl
            | some decl =>
                cases decl with
                | synonym d =>
                    rw [Option.map_some, WireType.visible_synonym]
                    exact ih d.target
                | _ => simp
        | _ => simp
  unfold scalarBehind? baseBehind?
  rw [hSteps]

theorem isTextEnum_visible (id : TypeName) :
    (s.visible p).isTextEnum id = s.isTextEnum id := by
  unfold isTextEnum
  rw [find?_visible]
  cases s.find? id with
  | none => rfl
  | some decl =>
      cases decl with
      | enum d =>
          rw [Option.map_some, WireType.visible_enum]
          simp [List.all_map, Function.comp_def,
            EnumMember.visible]
      | _ => simp

end Schema

namespace Dialect

variable {d : Dialect}
variable {x : EmitScope}

------------------------------------------------------------
-- Types
------------------------------------------------------------

theorem constantFor_visible (id : TypeName) :
    d.constantFor x.visible id = d.constantFor x id := by
  simp only [constantFor, EmitScope.name_visible,
    EmitScope.arity_visible, EmitScope.isForward_visible]

theorem hasTextEnumKeys_visible (key : WireType) :
    hasTextEnumKeys x.visible (key.visible x.options.comments) =
      hasTextEnumKeys x key := by
  unfold hasTextEnumKeys
  rw [WireType.target_visible]
  cases key.target with
  | reference id =>
      rw [WireType.visible_reference]
      exact Schema.isTextEnum_visible id
  | _ => simp

theorem schemasFor_visible
    {ts : List WireType}
    (h : ∀ t ∈ ts,
      d.schemaFor x.visible (t.visible x.options.comments) =
        d.schemaFor x t) :
    d.schemasFor x.visible
        (ts.map (WireType.visible x.options.comments)) =
      d.schemasFor x ts := by
  induction ts with
  | nil => rfl
  | cons t rest ih =>
      rw [List.forall_mem_cons] at h
      rw [List.map_cons, schemasFor, schemasFor, h.1, ih h.2]

/- No schema of a type contains documentation. -/
theorem schemaFor_visible (t : WireType) :
    d.schemaFor x.visible (t.visible x.options.comments) =
      d.schemaFor x t := by
  induction t using WireType.inductionOnParts with
  | hArray elem len hElem =>
      rw [WireType.visible_array, schemaFor, schemaFor, hElem]
  | hMap key value hKey hValue =>
      rw [WireType.visible_map, schemaFor, schemaFor, hKey, hValue,
        hasTextEnumKeys_visible]
  | hReference id =>
      rw [WireType.visible_reference, schemaFor, schemaFor]
      exact constantFor_visible id
  | hPointer elem hElem =>
      rw [WireType.visible_pointer]
      by_cases hEmpty : ∃ bits, elem = .base .empty bits
      · rcases hEmpty with ⟨bits, rfl⟩
        rw [WireType.visible_base]
        rfl
      · have hNot : ∀ bits, elem ≠ .base .empty bits :=
          fun bits hBase => hEmpty ⟨bits, hBase⟩
        rw [schemaFor, schemaFor, hElem]
        · exact hNot
        · intro bits h
          exact hNot bits (WireType.visible_eq_base_iff.mp h)
  | hUnion members hMembers =>
      rw [WireType.visible_union, schemaFor, schemaFor,
        schemasFor_visible hMembers]
  | hRecord r => simp [schemaFor, inlineError, WireType.kindName]
  | hSynonym y => simp [schemaFor, inlineError, WireType.kindName]
  | hEnum e => simp [schemaFor, inlineError, WireType.kindName]
  | hBase | hParam => simp [schemaFor]

theorem chainFor_visible (t : WireType) :
    d.chainFor x.visible (t.visible x.options.comments) =
      d.chainFor x t := by
  have hOther : ∀ t : WireType,
      (do
          let base ←
            d.schemaFor x.visible (t.visible x.options.comments)
          .ok ({ base } : Chain) : Except EmitError Chain) =
        (do
          let base ← d.schemaFor x t
          .ok ({ base } : Chain)) := by
    intro t
    rw [schemaFor_visible]
  cases t with
  | base kind bits =>
      rw [WireType.visible_base]
      rfl
  | array elem len =>
      rw [WireType.visible_array]
      unfold chainFor
      dsimp only
      rw [schemaFor_visible]
  | _ => exact hOther _

------------------------------------------------------------
-- Fields
------------------------------------------------------------

theorem valueSchema_visible
    (f : Field WireType)
    (effects : FieldEffects) :
    d.valueSchema x.visible
        (WireType.visibleField x.options.comments f) effects =
      d.valueSchema x f effects := by
  rw [WireType.visibleField_eq]
  unfold valueSchema
  simp only [parsedLiterals, parsedChain, WireType.target_visible,
    EmitScope.schema_visible, Schema.scalarBehind?_visible,
    chainFor_visible]

theorem fieldEntry_visible
    (owner : String)
    (f : Field WireType) :
    d.fieldEntry x.visible owner
        (WireType.visibleField x.options.comments f) =
      d.fieldEntry x owner f := by
  have hEffects :
      (x.schema.visible x.options.comments).fieldEffects? owner
          (WireType.visibleField x.options.comments f) d.name =
        x.schema.fieldEffects? owner f d.name := by
    rw [WireType.visibleField_eq]
    unfold Schema.fieldEffects?
    dsimp only
    rw [Schema.shapeOf_visible]
  have hWrap : d.wrapValue x.visible
        (WireType.visibleField x.options.comments f) =
      d.wrapValue x f := by
    rw [WireType.visibleField_eq]
    funext value
    unfold wrapValue
    dsimp only
    rw [WireType.isPointer_visible, EmitScope.options_visible]
  unfold fieldEntry fieldSchema
  rw [EmitScope.schema_visible, hEffects, hWrap]
  simp only [valueSchema_visible]
  rw [WireType.visibleField_eq]
  simp only [EmitScope.memberComment_visible]

theorem fieldEntries_visible
    (owner : String)
    (fields : List (Field WireType)) :
    d.fieldEntries x.visible owner
        (fields.map (WireType.visibleField x.options.comments)) =
      d.fieldEntries x owner fields := by
  induction fields with
  | nil => rfl
  | cons f rest ih =>
      rw [List.map_cons]
      unfold fieldEntries
      rw [fieldEntry_visible, ih]

------------------------------------------------------------
-- Declarations
------------------------------------------------------------

theorem constantText_visible
    (id : TypeName)
    (qs : List (TypeParam WireType))
    (doc : Doc)
    (body : String) :
    d.constantText x.visible id
        (qs.map (WireType.visibleParam x.options.comments))
        (x.options.comments.typeDoc doc) body =
      d.constantText x id qs doc body := by
  unfold constantText
  dsimp only
  rw [EmitScope.typeComment_visible, EmitScope.name_visible,
    EmitScope.options_visible, List.isEmpty_map, List.map_map]
  simp only [Function.comp_def, WireType.name_visibleParam]

/- A validator shows only what its policy lets through. -/
theorem declaration_visible (t : WireType) :
    d.declaration x.visible (t.visible x.options.comments) =
      d.declaration x t := by
  cases t with
  | record r =>
      rw [WireType.visible_record]
      unfold declaration recordSchema
      dsimp only
      rw [EmitScope.name_visible]
      split
      · rfl
      · next owner parents _ =>
          rw [EmitScope.sent_visible, fieldEntries_visible]
          simp only [constantText_visible]
  | synonym y =>
      rw [WireType.visible_synonym]
      unfold declaration
      dsimp only
      rw [schemaFor_visible]
      simp only [constantText_visible]
  | enum e =>
      rw [WireType.visible_enum]
      unfold declaration
      dsimp only
      rw [List.map_map]
      exact congrArg (·, []) (constantText_visible e.id [] e.doc _)
  | _ => simp [declaration, WireType.kindName]

/- The table of endpoints has no comments. -/
theorem endpointTable_visible :
    d.endpointTable x.visible = d.endpointTable x := by
  have hEntry : ∀ e : Endpoint,
      d.endpointEntry x.visible (e.visible x.options.comments) =
        d.endpointEntry x e := by
    intro e
    unfold endpointEntry Endpoint.visible
    dsimp only
    rw [schemaFor_visible]
    cases e.request with
    | none => rfl
    | some t =>
        dsimp only [Option.map_some]
        rw [schemaFor_visible]
  have hEndpoints : x.visible.schema.services.flatMap
        Service.endpoints =
      (x.schema.services.flatMap Service.endpoints).map
        (Endpoint.visible x.options.comments) :=
    EmitScope.endpoints_visible
  unfold endpointTable
  dsimp only
  rw [hEndpoints, List.isEmpty_map, List.mapM_map]
  simp only [Function.comp_def, hEntry]

end Dialect

/- What has been written, with a scope over what is seen. -/
def Written.visible (w : Written) : Written :=
  { w with scope := w.scope.visible }

namespace EmitScope

variable {x : EmitScope}
variable {emitter : Emitter}

------------------------------------------------------------
-- Declarations in Order
------------------------------------------------------------

/- An emitter that only shows what a policy lets through. -/
def HidesDocs (emitter : Emitter) : Prop :=
  ∀ x : EmitScope, ∀ t,
    emitter x.visible (t.visible x.options.comments) = emitter x t

theorem hidesDocs_baseEmitter : HidesDocs baseEmitter := by
  intro x t
  unfold baseEmitter
  rw [declarationText_visible]

theorem hidesDocs_declaration (d : Dialect) :
    HidesDocs d.declaration :=
  fun _ t => Dialect.declaration_visible t

theorem writeAll_visible
    (hHides : HidesDocs emitter)
    (ts : List WireType) :
    writeAll emitter x.visible
        (ts.map (WireType.visible x.options.comments)) =
      (writeAll emitter x ts).map Written.visible := by
  induction ts generalizing x with
  | nil => rfl
  | cons t rest ih =>
      rw [List.map_cons]
      unfold writeAll
      rw [hHides x t, WireType.id?_visible]
      cases t.id? with
      | none => exact ih
      | some id =>
          dsimp only
          rcases emitter x t with ⟨e | text, warnings⟩
          · rfl
          · have hMore := ih (x := x.markEmitted id)
            dsimp only
            rw [markEmitted_visible]
            change
              (writeAll emitter (x.markEmitted id).visible
                (rest.map (WireType.visible
                  (x.markEmitted id).options.comments)) >>= _) =
                _
            rw [hMore]
            cases writeAll emitter (x.markEmitted id) rest with
            | error e => rfl
            | ok more => rfl

theorem writeSchema_visible (hHides : HidesDocs emitter) :
    x.visible.writeSchema emitter =
      (x.writeSchema emitter).map Written.visible := by
  have hNames : x.visible.names = x.names := rfl
  unfold writeSchema
  rw [schema_visible, hNames, Schema.emitOrder_visible,
    writeAll_visible hHides]

end EmitScope

------------------------------------------------------------
-- Flavors
------------------------------------------------------------

/- A flavor that only shows what a policy lets through. -/
structure OutputFlavor.HidesDocs (f : OutputFlavor) : Prop where
  preamble : ∀ x : EmitScope, f.preamble x.visible = f.preamble x
  declaration : EmitScope.HidesDocs f.declaration
  services : ∀ x : EmitScope, f.services x.visible = f.services x

theorem Dialect.hidesDocs_flavor (d : Dialect) :
    d.flavor.HidesDocs :=
  { preamble := fun _ => rfl
    declaration := EmitScope.hidesDocs_declaration d
    services := fun _ =>
      congrArg (Prod.mk · []) endpointTable_visible }

/- Then so does what completes its file. -/
theorem OutputFlavor.HidesDocs.complete
    {f : OutputFlavor}
    (h : f.HidesDocs)
    (o : EmitOptions)
    (front : String)
    (w : Written) :
    f.complete o front w.visible = f.complete o front w := by
  unfold OutputFlavor.complete Written.visible
  dsimp only
  rw [h.services]

------------------------------------------------------------
-- Files
------------------------------------------------------------

namespace Schema

variable {s t : Schema}
variable {c : Config}

theorem baseFiles_visible (o : EmitOptions) :
    (s.visible o.comments).baseFiles o = s.baseFiles o := by
  unfold baseFiles
  rw [EmitScope.ofSchema_visible,
    EmitScope.writeSchema_visible EmitScope.hidesDocs_baseEmitter]
  cases (EmitScope.ofSchema s o).writeSchema
      EmitScope.baseEmitter with
  | error e => rfl
  | ok w =>
      have hFiles := w.scope.layOut_visible w.chunks
      change
        (w.scope.visible.layOut w.chunks).mapError _ >>= _ =
          (w.scope.layOut w.chunks).mapError _ >>= _
      rw [hFiles]
      rfl

theorem flavorFile_visible
    {f : OutputFlavor}
    (hHides : f.HidesDocs)
    (o : EmitOptions) :
    (s.visible o.comments).flavorFile o f = s.flavorFile o f := by
  unfold flavorFile
  dsimp only
  rw [EmitScope.ofSchema_visible, hHides.preamble,
    EmitScope.writeSchema_visible hHides.declaration]
  cases f.preamble (EmitScope.ofSchema s o) with
  | error e => rfl
  | ok front =>
      cases (EmitScope.ofSchema s o).writeSchema f.declaration with
      | error e => rfl
      | ok w => exact hHides.complete o front w

/-
  What a policy hides plays no part in what is emitted if no
  flavor that is asked for shows it.
-/
theorem emit_visible
    {r : Registry OutputFlavor}
    (hHides : ∀ name ∈ c.flavors, ∀ f, r.find? name = some f →
      f.HidesDocs) :
    (s.visible c.comments).emit c r = s.emit c r := by
  apply emit_congr (baseFiles_visible c.emitOptions)
  intro name hName f hFound
  exact flavorFile_visible (hHides name hName f hFound) _

/-
  Schemas of which the comment policy of a configuration shows
  the same are emitted alike: the same files with the same
  contents and the same warnings, or the same failure.
-/
theorem emit_eq_of_visible_eq
    (c : Config)
    (r : Registry Dialect)
    (hSame : s.visible c.comments = t.visible c.comments) :
    s.emit c r = t.emit c r := by
  have hHides : ∀ name ∈ c.flavors, ∀ f,
      r.flavors.find? name = some f → f.HidesDocs := by
    intro name _ f hFound
    rcases Registry.find?_flavors_eq_some_iff.mp hFound with
      ⟨d, -, rfl⟩
    exact d.hidesDocs_flavor
  rw [← emit_visible (s := s) hHides, hSame, emit_visible hHides]

/-
  A record with a field and an enumeration of one member, in a
  service, with a text for what is declared and one for what
  is inside.
-/
def notedSchema (decl inner : String) (line : Nat) : Schema :=
  let item : TypeName := { name := "Item", space := "m" }
  let color : TypeName := { name := "Color", space := "m" }
  let place := { file := "m.go", line, column := 6 }
  { types :=
      [.record
          { id := item
            doc := { summary := decl }
            source := some place
            fields :=
              [{ name := "Color"
                 type := .pointer (.reference color)
                 wireName := "color"
                 doc := { body := inner } }] },
        .enum
          { id := color
            doc := { deprecated := some decl }
            members :=
              [{ name := "Red"
                 value := .text "red"
                 doc := { summary := inner } }] }]
    services :=
      [{ name := "Items"
         doc := { summary := decl }
         endpoints :=
           [{ name := "Get"
              fullName := "Items.Get"
              verb := "POST"
              path := "/Items/Get"
              response := .reference item
              doc := { body := decl } }] }] }

/- The texts may differ as far as they are not written. -/
theorem emit_notedSchema_eq :
    (notedSchema "An item." "red" 3).visible .none =
        (notedSchema "" "*/ alert(1)" 4).visible .none
      ∧ (notedSchema "An item." "red" 3).emit
            { flavors := ["zod", "valibot"], comments := .none
              enumStyle := .nativeEnum } .builtin =
          (notedSchema "" "*/ alert(1)" 4).emit
            { flavors := ["zod", "valibot"], comments := .none
              enumStyle := .nativeEnum } .builtin
      ∧ (notedSchema "An item." "red" 3).visible .typesOnly =
        (notedSchema "An item." "*/ alert(1)" 4).visible .typesOnly
      ∧ (notedSchema "An item." "red" 3).emit
            { flavors := ["zod", "valibot"], comments := .typesOnly }
            .builtin =
          (notedSchema "An item." "*/ alert(1)" 4).emit
            { flavors := ["zod", "valibot"], comments := .typesOnly }
            .builtin := by
  have hNone : (notedSchema "An item." "red" 3).visible .none =
      (notedSchema "" "*/ alert(1)" 4).visible .none := rfl
  have hTypes : (notedSchema "An item." "red" 3).visible .typesOnly =
      (notedSchema "An item." "*/ alert(1)" 4).visible .typesOnly :=
    rfl
  exact ⟨hNone, emit_eq_of_visible_eq _ _ hNone, hTypes,
    emit_eq_of_visible_eq _ _ hTypes⟩

end Schema

end WireSchema
