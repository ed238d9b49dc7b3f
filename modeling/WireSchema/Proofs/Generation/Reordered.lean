import WireSchema.Generation.Emission
import WireSchema.Proofs.Emit.Alike
import WireSchema.Proofs.Outcome
import WireSchema.Validator.Basic

/-
  Emission does not depend on where declarations stand.

  If the declarations of a schema have distinct names, their
  order in the schema plays no part: the emitted names, the
  order of emission, each declaration and the layout of the
  files only ask which declaration has which name.  A validator
  follows names through synonyms, but it too only looks
  declarations up by their names.  So it is with every flavor
  whose parts do not tell such schemas apart.

  Key definitions include:
    * `Dialect.declaration_forSchema`
    * `EmitScope.Ignores`, `OutputFlavor.Ignores`
    * `Schema.emit_of_perm_of_ignores`
    * `Schema.emit_of_perm`
-/

namespace WireSchema

------------------------------------------------------------
-- What Is Behind a Name
------------------------------------------------------------

namespace Schema

variable {s t : Schema}

theorem shapeOf_congr
    (h : s.Alike t)
    (type : WireType) : t.shapeOf type = s.shapeOf type := by
  have hSteps : ∀ steps, t.shapeWithin steps =
      s.shapeWithin steps := by
    intro steps
    induction steps with
    | zero => rfl
    | succ steps ih =>
        funext type
        unfold shapeWithin
        simp only [h.find, ih]
  unfold shapeOf
  rw [hSteps]

theorem baseBehind?_congr
    (h : s.Alike t)
    (type : WireType) :
    t.baseBehind? type = s.baseBehind? type := by
  have hSteps : ∀ steps, t.baseWithin? steps =
      s.baseWithin? steps := by
    intro steps
    induction steps with
    | zero => rfl
    | succ steps ih =>
        funext type
        unfold baseWithin?
        simp only [h.find, ih]
  unfold baseBehind?
  rw [hSteps]

theorem scalarBehind?_congr
    (h : s.Alike t)
    (type : WireType) :
    t.scalarBehind? type = s.scalarBehind? type := by
  unfold scalarBehind?
  rw [baseBehind?_congr h]

theorem isTextEnum_congr
    (h : s.Alike t)
    (id : TypeName) : t.isTextEnum id = s.isTextEnum id := by
  unfold isTextEnum
  rw [h.find]

theorem fieldEffects?_congr
    (h : s.Alike t)
    (owner : String)
    (f : Field WireType)
    (flavor : String) :
    t.fieldEffects? owner f flavor =
      s.fieldEffects? owner f flavor := by
  unfold fieldEffects?
  rw [shapeOf_congr h]

end Schema

namespace Dialect

variable {d : Dialect}
variable {x : EmitScope}
variable {s : Schema}

------------------------------------------------------------
-- Types
------------------------------------------------------------

theorem constantFor_forSchema
    (h : x.schema.Alike s)
    (id : TypeName) :
    d.constantFor (x.forSchema s) id = d.constantFor x id := by
  simp only [constantFor, EmitScope.name_forSchema,
    EmitScope.arity_forSchema h, EmitScope.isForward_forSchema]

theorem hasTextEnumKeys_forSchema
    (h : x.schema.Alike s)
    (key : WireType) :
    hasTextEnumKeys (x.forSchema s) key = hasTextEnumKeys x key := by
  unfold hasTextEnumKeys
  simp only [EmitScope.schema_forSchema, Schema.isTextEnum_congr h]

theorem schemasFor_forSchema
    {ts : List WireType}
    (h : ∀ t ∈ ts,
      d.schemaFor (x.forSchema s) t = d.schemaFor x t) :
    d.schemasFor (x.forSchema s) ts = d.schemasFor x ts := by
  induction ts with
  | nil =>
      unfold schemasFor
      rfl
  | cons t rest ih =>
      rw [List.forall_mem_cons] at h
      unfold schemasFor
      rw [h.1, ih h.2]

theorem schemaFor_forSchema
    (h : x.schema.Alike s)
    (t : WireType) :
    d.schemaFor (x.forSchema s) t = d.schemaFor x t := by
  induction t using WireType.inductionOnParts with
  | hArray elem len hElem =>
      unfold schemaFor
      rw [hElem]
  | hMap key value hKey hValue =>
      unfold schemaFor
      rw [hKey, hValue, hasTextEnumKeys_forSchema h]
  | hReference id =>
      unfold schemaFor
      exact constantFor_forSchema h id
  | hPointer elem hElem =>
      by_cases hEmpty : ∃ bits, elem = .base .empty bits
      · rcases hEmpty with ⟨bits, rfl⟩
        unfold schemaFor
        rfl
      · have hNot : ∀ bits, elem ≠ .base .empty bits :=
          fun bits hBase => hEmpty ⟨bits, hBase⟩
        rw [schemaFor, schemaFor, hElem]
        · exact hNot
        · exact hNot
  | hUnion members hMembers =>
      unfold schemaFor
      rw [schemasFor_forSchema hMembers]
  | hRecord | hSynonym | hEnum | hBase | hParam =>
      unfold schemaFor
      rfl

theorem chainFor_forSchema
    (h : x.schema.Alike s)
    (t : WireType) :
    d.chainFor (x.forSchema s) t = d.chainFor x t := by
  unfold chainFor
  simp only [schemaFor_forSchema h]

------------------------------------------------------------
-- Fields
------------------------------------------------------------

theorem valueSchema_forSchema
    (h : x.schema.Alike s)
    (f : Field WireType)
    (effects : FieldEffects) :
    d.valueSchema (x.forSchema s) f effects =
      d.valueSchema x f effects := by
  simp only [valueSchema, parsedLiterals, parsedChain,
    EmitScope.schema_forSchema, Schema.scalarBehind?_congr h,
    chainFor_forSchema h]

theorem fieldEntries_forSchema
    (h : x.schema.Alike s)
    (owner : String)
    (fields : List (Field WireType)) :
    d.fieldEntries (x.forSchema s) owner fields =
      d.fieldEntries x owner fields := by
  have hWrap : d.wrapValue (x.forSchema s) = d.wrapValue x := rfl
  have hField : ∀ f, d.fieldEntry (x.forSchema s) owner f =
      d.fieldEntry x owner f := by
    intro f
    simp only [fieldEntry, fieldSchema, EmitScope.schema_forSchema,
      Schema.fieldEffects?_congr h, valueSchema_forSchema h, hWrap,
      EmitScope.memberComment_forSchema]
  induction fields with
  | nil => rfl
  | cons f rest ih =>
      unfold fieldEntries
      rw [hField, ih]

------------------------------------------------------------
-- Declarations
------------------------------------------------------------

theorem declaration_forSchema
    (h : x.schema.Alike s)
    (t : WireType) :
    d.declaration (x.forSchema s) t = d.declaration x t := by
  have hConstant : d.constantText (x.forSchema s) =
      d.constantText x := rfl
  have hName : (x.forSchema s).name = x.name := rfl
  cases t with
  | record r =>
      simp only [declaration, recordSchema, hName, hConstant,
        fieldEntries_forSchema h]
  | synonym y =>
      simp only [declaration, hConstant, schemaFor_forSchema h]
  | _ => rfl

/- The table of endpoints does not tell such schemas apart. -/
theorem endpointTable_forSchema (h : x.schema.Alike s) :
    d.endpointTable (x.forSchema s) = d.endpointTable x := by
  have hEntry : d.endpointEntry (x.forSchema s) =
      d.endpointEntry x := by
    funext e
    unfold endpointEntry
    simp only [schemaFor_forSchema h]
  unfold endpointTable
  rw [hEntry, EmitScope.schema_forSchema, h.services]

end Dialect

/- What has been written, with a scope over another schema. -/
def Written.forSchema (w : Written) (s : Schema) : Written :=
  { w with scope := w.scope.forSchema s }

namespace EmitScope

variable {x : EmitScope}
variable {s : Schema}
variable {emitter : Emitter}

------------------------------------------------------------
-- Declarations in Order
------------------------------------------------------------

/- An emitter that does not tell like schemas apart. -/
def Ignores (s : Schema) (emitter : Emitter) : Prop :=
  ∀ x : EmitScope, x.schema.Alike s →
    ∀ t, emitter (x.forSchema s) t = emitter x t

theorem ignores_baseEmitter : Ignores s baseEmitter := by
  intro x _ t
  unfold baseEmitter
  rw [declarationText_forSchema]

theorem ignores_declaration (d : Dialect) :
    Ignores s d.declaration :=
  fun _ h t => Dialect.declaration_forSchema h t

/- What is written belongs to one schema. -/
theorem schema_of_writeAll
    {ts : List WireType}
    {w : Written}
    (h : writeAll emitter x ts = .ok w) :
    w.scope.schema = x.schema := by
  induction ts generalizing x w with
  | nil =>
      cases h
      rfl
  | cons t rest ih =>
      unfold writeAll at h
      split at h
      · exact ih h
      · next id hId =>
          split at h
          · cases h
          · rcases eq_ok_of_bind h with ⟨more, hMore, h⟩
            cases h
            have hScope :
                more.scope.schema = (x.markEmitted id).schema :=
              ih hMore
            exact hScope

theorem writeAll_forSchema
    (hIgnores : Ignores s emitter)
    (hAlike : x.schema.Alike s)
    (ts : List WireType) :
    writeAll emitter (x.forSchema s) ts =
      (writeAll emitter x ts).map fun w => w.forSchema s := by
  induction ts generalizing x with
  | nil => rfl
  | cons t rest ih =>
      unfold writeAll
      rw [hIgnores x hAlike t]
      cases t.id? with
      | none => exact ih hAlike
      | some id =>
          dsimp only
          rcases emitter x t with ⟨e | text, warnings⟩
          · rfl
          · have hMore := ih (x := x.markEmitted id) hAlike
            dsimp only
            rw [markEmitted_forSchema, hMore]
            cases writeAll emitter (x.markEmitted id) rest with
            | error e => rfl
            | ok more => rfl

end EmitScope

------------------------------------------------------------
-- Flavors
------------------------------------------------------------

/- A flavor that does not tell like schemas apart. -/
structure OutputFlavor.Ignores
    (f : OutputFlavor)
    (s : Schema) : Prop where
  preamble :
    ∀ x : EmitScope, x.schema.Alike s →
      f.preamble (x.forSchema s) = f.preamble x
  declaration : EmitScope.Ignores s f.declaration
  services :
    ∀ x : EmitScope, x.schema.Alike s →
      f.services (x.forSchema s) = f.services x

theorem Dialect.ignores_flavor (d : Dialect) (s : Schema) :
    d.flavor.Ignores s :=
  { preamble := fun _ _ => rfl
    declaration := EmitScope.ignores_declaration d
    services := fun _ hAlike =>
      congrArg (Prod.mk · []) (endpointTable_forSchema hAlike) }

/- Then what completes its file does not either. -/
theorem OutputFlavor.Ignores.complete
    {f : OutputFlavor}
    {s : Schema}
    {w : Written}
    (h : f.Ignores s)
    (hAlike : w.scope.schema.Alike s)
    (o : EmitOptions)
    (front : String) :
    f.complete o front (w.forSchema s) = f.complete o front w := by
  have hServices := h.services w.scope hAlike
  unfold OutputFlavor.complete Written.forSchema
  dsimp only
  rw [hServices]

------------------------------------------------------------
-- Files
------------------------------------------------------------

namespace Schema

variable {s : Schema}
variable {types : List WireType}
variable {c : Config}

theorem ofSchema_of_perm
    (hPerm : types.Perm s.types)
    (o : EmitOptions) :
    EmitScope.ofSchema { s with types } o =
      (EmitScope.ofSchema s o).forSchema { s with types } := by
  have hNames := perm_names hPerm
  unfold EmitScope.ofSchema EmitScope.forSchema
  rw [ofSchema_congr fun id => hNames.mem_iff]

/- The same is written for a schema in another order. -/
theorem writeSchema_of_perm
    (hPerm : types.Perm s.types)
    (hDistinct : s.names.Nodup)
    (o : EmitOptions)
    {emitter : EmitScope.Emitter}
    (hIgnores : EmitScope.Ignores { s with types } emitter) :
    (EmitScope.ofSchema { s with types } o).writeSchema emitter =
      ((EmitScope.ofSchema s o).writeSchema emitter).map
        fun w => w.forSchema { s with types } := by
  have hAlike := alike_of_perm hPerm hDistinct
  rw [ofSchema_of_perm hPerm]
  unfold EmitScope.writeSchema
  rw [EmitScope.schema_forSchema, emitOrder_of_perm hPerm hDistinct,
    EmitScope.writeAll_forSchema hIgnores hAlike]
  rfl

theorem baseFiles_of_perm
    (hPerm : types.Perm s.types)
    (hDistinct : s.names.Nodup)
    (o : EmitOptions) :
    ({ s with types } : Schema).baseFiles o = s.baseFiles o := by
  unfold baseFiles
  rw [writeSchema_of_perm hPerm hDistinct o
    EmitScope.ignores_baseEmitter]
  cases hWritten :
      (EmitScope.ofSchema s o).writeSchema
        EmitScope.baseEmitter with
  | error e => rfl
  | ok w =>
      have hSame := EmitScope.schema_of_writeAll hWritten
      have hAlike : w.scope.schema.Alike { s with types } := by
        rw [hSame]
        exact alike_of_perm hPerm hDistinct
      have hFiles := EmitScope.layOut_forSchema hAlike w.chunks
      change
        ((w.scope.forSchema { s with types }).layOut
            w.chunks).mapError _ >>= _ =
          (w.scope.layOut w.chunks).mapError _ >>= _
      rw [hFiles]
      rfl

theorem flavorFile_of_perm
    {f : OutputFlavor}
    (hPerm : types.Perm s.types)
    (hDistinct : s.names.Nodup)
    (o : EmitOptions)
    (hIgnores : f.Ignores { s with types }) :
    ({ s with types } : Schema).flavorFile o f =
      s.flavorFile o f := by
  have hAlike := alike_of_perm hPerm hDistinct
  unfold flavorFile
  dsimp only
  rw [writeSchema_of_perm hPerm hDistinct o hIgnores.declaration,
    ofSchema_of_perm hPerm,
    hIgnores.preamble (EmitScope.ofSchema s o) hAlike]
  cases f.preamble (EmitScope.ofSchema s o) with
  | error e => rfl
  | ok front =>
      cases hWritten :
          (EmitScope.ofSchema s o).writeSchema f.declaration with
      | error e => rfl
      | ok w =>
          have hSame := EmitScope.schema_of_writeAll hWritten
          have hLike : w.scope.schema.Alike { s with types } := by
            rw [hSame]
            exact hAlike
          exact hIgnores.complete hLike o front

/-
  Emission does not depend on the order of declarations if
  none of the flavors that are asked for does.
-/
theorem emit_of_perm_of_ignores
    {r : Registry OutputFlavor}
    (hPerm : types.Perm s.types)
    (hDistinct : s.names.Nodup)
    (hIgnores : ∀ name ∈ c.flavors, ∀ f, r.find? name = some f →
      f.Ignores { s with types }) :
    ({ s with types } : Schema).emit c r = s.emit c r := by
  apply emit_congr (baseFiles_of_perm hPerm hDistinct _)
  intro name hName f hFound
  exact flavorFile_of_perm hPerm hDistinct _
    (hIgnores name hName f hFound)

/-
  Schemas that list the same distinctly named declarations in
  another order are emitted alike: the same files with the
  same contents and the same warnings, each in the same
  order, or the same failure.
-/
theorem emit_of_perm
    (hPerm : types.Perm s.types)
    (hDistinct : s.names.Nodup)
    (c : Config)
    (r : Registry Dialect) :
    ({ s with types } : Schema).emit c r = s.emit c r := by
  apply emit_of_perm_of_ignores hPerm hDistinct
  intro name _ f hFound
  rcases Registry.find?_flavors_eq_some_iff.mp hFound with
    ⟨d, -, rfl⟩
  exact d.ignores_flavor _

/-
  Two records of one simple name that refer to each other, and
  a synonym that refers to both.
-/
def invoiceSchema : Schema :=
  let billing : TypeName := { name := "Invoice", space := "billing" }
  let legacy : TypeName := { name := "Invoice", space := "legacy" }
  { types :=
      [.record
          { id := billing
            fields :=
              [{ name := "Old"
                 type := .pointer (.reference legacy)
                 wireName := "old"
                 rules := "excluded_if" }] },
        .record { id := legacy, parents := [billing] },
        .synonym
          { id := { name := "Pair", space := "billing" }
            target :=
              .map (.reference billing) (.reference legacy) }] }

/- It is emitted alike when its types are listed backwards. -/
theorem emit_invoiceSchema_reverse :
    invoiceSchema.types.reverse.Perm invoiceSchema.types
      ∧ invoiceSchema.names.Nodup
      ∧ ({ invoiceSchema with
            types := invoiceSchema.types.reverse } : Schema).emit
          { flavors := ["zod", "valibot"], singleFile := false }
          .builtin =
        invoiceSchema.emit
          { flavors := ["zod", "valibot"], singleFile := false }
          .builtin := by
  have hPerm := List.reverse_perm invoiceSchema.types
  have hDistinct : invoiceSchema.names.Nodup := by decide
  exact ⟨hPerm, hDistinct, emit_of_perm hPerm hDistinct _ _⟩

end Schema

end WireSchema
