import WireSchema.Generation.Emission
import WireSchema.Proofs.Emit.Files
import WireSchema.Proofs.Emit.Names
import WireSchema.Proofs.Emit.Order
import WireSchema.Proofs.Validation.Checks
import WireSchema.Proofs.Validator.Outcome

/-
  Valid schemas can be emitted, unless a length overflows.

  A scope is ready if it can write every declaration and all
  services of its schema.  The scope of a flat schema without
  violations is ready, and it stays so while declarations are
  written.  Then only a flavor can fail, and a dialect only
  with the rules of a field.

  Key definitions include:
    * `EmitScope.IsReady`
    * `Schema.HasOverflow`
    * `OutputFlavor.FailsOn`
    * `Schema.succeeds_emit_iff`
    * `Schema.emit_succeeds_iff`
-/

namespace WireSchema

------------------------------------------------------------
-- Faults
------------------------------------------------------------

def EmissionFault.IsOverflow (e : EmissionFault) : Prop :=
  e.cause = .overflow

def EmitFailure.IsOverflow (f : EmitFailure) : Prop :=
  ∃ e, f = .emission e ∧ e.IsOverflow

/- A schema with a declaration that overflows. -/
def Schema.HasOverflow (s : Schema) : Prop :=
  ∃ t ∈ s.types, s.DeclOverflows t

theorem Schema.isSome_id?_of_declOverflows
    {s : Schema}
    {t : WireType}
    (h : s.DeclOverflows t) : t.id?.isSome = true := by
  cases t with
  | record d => rfl
  | _ => exact h.elim

------------------------------------------------------------
-- Scopes
------------------------------------------------------------

namespace EmitScope

variable {s : Schema}
variable {x : EmitScope}
variable {o : EmitOptions}

/- A scope of a schema that can write all that is in it. -/
structure IsReady (s : Schema) (x : EmitScope) : Prop where
  schema : x.schema = s
  declares :
    ∀ t ∈ x.schema.types, t.id?.isSome = true → x.names.Declares t
  serves : x.Serves

theorem covers_iff_ofSchema {ids : List TypeName} :
    (ofSchema s o).names.Covers ids ↔ ids ⊆ s.names :=
  forall₂_congr fun _ _ => EmittedNames.isSome_find?_iff

/- A flat schema without violations can be written. -/
theorem isReady_ofSchema
    (hValid : s.validate = [])
    (hFlat : s.IsFlat) : (ofSchema s o).IsReady s := by
  rcases Schema.references_of_validate_eq_nil hValid with
    ⟨-, hDeclared, hSent⟩
  refine ⟨rfl, ?declares, ?serves⟩
  case declares =>
    intro t ht hSome
    rcases Option.isSome_iff_exists.mp hSome with ⟨id, hId⟩
    apply EmittedNames.declares_of_isFlat hId (hFlat.declared t ht)
    rw [covers_iff_ofSchema, List.cons_subset]
    exact ⟨Schema.mem_names_of_id? ht hId, hDeclared t ht hSome⟩
  case serves =>
    intro e he b hb
    rcases List.mem_flatMap.mp he with ⟨v, hv, he⟩
    refine ⟨hFlat.sent v hv e he b hb, ?_⟩
    rw [covers_iff_ofSchema]
    exact hSent v hv e he b hb

/- What has been written has no part in it. -/
theorem IsReady.markEmitted
    (h : x.IsReady s)
    (id : TypeName) : (x.markEmitted id).IsReady s :=
  ⟨h.schema, h.declares, h.serves⟩

------------------------------------------------------------
-- Declarations in Order
------------------------------------------------------------

/-
  An emitter that fails on a declaration exactly when some
  condition holds of it, wherever it stands in the order.
-/
def Fails
    (s : Schema)
    (P : WireType → Prop)
    (emitter : Emitter) : Prop :=
  ∀ x : EmitScope, x.IsReady s → ∀ t, x.names.Declares t →
    FailsWhen WireSchema.IsOverflow (P t) (emitter x t).1

/- The scope behind all declarations is ready as well. -/
theorem IsReady.of_writeAll
    {emitter : Emitter}
    {ts : List WireType}
    {w : Written}
    (h : x.IsReady s)
    (hOk : writeAll emitter x ts = .ok w) :
    w.scope.IsReady s := by
  induction ts generalizing x w with
  | nil =>
      cases hOk
      exact h
  | cons t rest ih =>
      unfold writeAll at hOk
      split at hOk
      · exact ih h hOk
      · next id hId =>
          split at hOk
          · cases hOk
          · next text warnings hText =>
              rcases eq_ok_of_bind hOk with ⟨more, hMore, hOk⟩
              cases hOk
              have hScope : more.scope.IsReady s :=
                ih (h.markEmitted id) hMore
              exact hScope

/- Declarations one after the other; the first fault ends. -/
theorem failsWhen_writeAll
    {emitter : Emitter}
    {P : WireType → Prop}
    {ts : List WireType}
    (hFails : Fails s P emitter)
    (hReady : x.IsReady s)
    (hTypes : ∀ t ∈ ts, t ∈ s.types ∧ t.id?.isSome = true) :
    FailsWhen (fun e => WireSchema.IsOverflow e.2)
      (∃ t ∈ ts, P t) (writeAll emitter x ts) := by
  induction ts generalizing x with
  | nil =>
      unfold writeAll
      apply FailsWhen.of_succeeds
      · exact succeeds_ok _
      · simp
  | cons t rest ih =>
      rw [List.forall_mem_cons] at hTypes
      rcases hTypes with ⟨⟨ht, hSome⟩, hRest⟩
      rcases Option.isSome_iff_exists.mp hSome with ⟨id, hId⟩
      rw [← hReady.schema] at ht
      have hFirst :=
        hFails x hReady t (hReady.declares t ht hSome)
      unfold writeAll
      rw [hId]
      dsimp only
      split
      · next e warnings hText =>
          rw [hText] at hFirst
          exact ⟨hFirst.1, t, List.mem_cons_self, hFirst.2⟩
      · next text warnings hText =>
          rw [hText] at hFirst
          have hNot : ¬P t := hFirst
          have hMore := ih (hReady.markEmitted id) hRest
          refine (FailsWhen.bind (Q := False) hMore ?_).congr ?_
          · intro more _
            exact not_false
          · simp [hNot]

/- All declarations of a schema, each behind what it needs. -/
theorem failsWhen_writeSchema
    {emitter : Emitter}
    {P : WireType → Prop}
    (hFails : Fails s P emitter)
    (hReady : x.IsReady s) :
    FailsWhen (fun e => WireSchema.IsOverflow e.2)
      (∃ t ∈ s.emitOrder x.names, P t)
      (x.writeSchema emitter) := by
  unfold writeSchema
  rw [hReady.schema]
  apply failsWhen_writeAll hFails hReady
  intro t ht
  exact Schema.mem_types_of_mem_emitOrder ht

/- Base types never fail. -/
theorem fails_baseEmitter :
    Fails s (fun _ => False) baseEmitter := by
  intro y _ t hDeclares
  apply FailsWhen.of_succeeds
  · exact succeeds_declarationText hDeclares
  · exact not_false

/- Validators fail on the declarations that overflow. -/
theorem fails_declaration (d : Dialect) :
    Fails s s.DeclOverflows d.declaration := by
  intro y hReady t hDeclares
  have hDeclaration := d.failsWhen_declaration hDeclares
  rwa [hReady.schema] at hDeclaration

end EmitScope

------------------------------------------------------------
-- Files
------------------------------------------------------------

namespace Schema

variable {s : Schema}

/- A name that a type is emitted under is that of a type. -/
theorem mem_names_of_name_eq
    {o : EmitOptions}
    {id : TypeName}
    {name : String}
    (h : (EmitScope.ofSchema s o).name id = .ok name) :
    id ∈ s.names := by
  have hFound := EmitScope.name_eq_ok_iff.mp h
  apply EmittedNames.isSome_find?_iff.mp
  exact Option.isSome_of_eq_some hFound

/- The base types of a valid schema can be written. -/
theorem succeeds_baseFiles
    (hValid : s.validate = [])
    (hFlat : s.IsFlat)
    (o : EmitOptions) : Succeeds (s.baseFiles o) := by
  have hReady : (EmitScope.ofSchema s o).IsReady s :=
    EmitScope.isReady_ofSchema hValid hFlat
  have hWrites := EmitScope.failsWhen_writeSchema
    EmitScope.fails_baseEmitter hReady
  have hWritten : Succeeds
      ((EmitScope.ofSchema s o).writeSchema
        EmitScope.baseEmitter) := by
    rw [hWrites.succeeds_iff]
    simp
  unfold baseFiles
  dsimp only
  apply (hWritten.mapError _).bind
  intro w hOk
  have hScope := hReady.of_writeAll (eq_ok_of_mapError hOk)
  apply ((EmitScope.succeeds_layOut hScope.declares hScope.serves
    w.chunks).mapError _).bind
  intro files _
  exact succeeds_ok _

/- The order of emission holds what is declared, all of it. -/
theorem exists_mem_emitOrder_iff
    {names : EmittedNames}
    {P : WireType → Prop}
    (hDistinct : s.names.Nodup) :
    (∃ t ∈ s.emitOrder names, P t) ↔
      ∃ t ∈ s.types, t.id?.isSome = true ∧ P t := by
  constructor
  · rintro ⟨t, ht, hHolds⟩
    have hType := mem_types_of_mem_emitOrder ht
    exact ⟨t, hType.1, hType.2, hHolds⟩
  · rintro ⟨t, ht, hSome, hHolds⟩
    exact ⟨t, (mem_emitOrder hDistinct).mpr ⟨ht, hSome⟩, hHolds⟩

theorem hasOverflow_iff :
    s.HasOverflow ↔
      ∃ t ∈ s.types, t.id?.isSome = true ∧ s.DeclOverflows t := by
  constructor
  · rintro ⟨t, ht, hOver⟩
    exact ⟨t, ht, isSome_id?_of_declOverflows hOver, hOver⟩
  · rintro ⟨t, ht, -, hOver⟩
    exact ⟨t, ht, hOver⟩

end Schema

namespace OutputFlavor

variable {f : OutputFlavor}
variable {s : Schema}

/-
  A flavor that can write all parts of a file of a schema but
  the declarations of which some condition holds.
-/
structure FailsOn
    (f : OutputFlavor)
    (s : Schema)
    (P : WireType → Prop) : Prop where
  preamble :
    ∀ x : EmitScope, x.IsReady s → Succeeds (f.preamble x)
  declaration : EmitScope.Fails s P f.declaration
  services :
    ∀ x : EmitScope, x.IsReady s → Succeeds (f.services x).1

/- A file of a valid schema fails with its declarations. -/
theorem FailsOn.flavorFile
    {P : WireType → Prop}
    (h : f.FailsOn s P)
    (hValid : s.validate = [])
    (hFlat : s.IsFlat)
    (o : EmitOptions) :
    FailsWhen EmissionFault.IsOverflow
      (∃ t ∈ s.types, t.id?.isSome = true ∧ P t)
      (s.flavorFile o f) := by
  have hReady : (EmitScope.ofSchema s o).IsReady s :=
    EmitScope.isReady_ofSchema hValid hFlat
  have hDistinct :=
    (Schema.references_of_validate_eq_nil hValid).1
  have hWrites :=
    (EmitScope.failsWhen_writeSchema h.declaration hReady).congr
      (Schema.exists_mem_emitOrder_iff hDistinct)
  have hWritten :
      FailsWhen EmissionFault.IsOverflow
        (∃ t ∈ s.types, t.id?.isSome = true ∧ P t)
        (((EmitScope.ofSchema s o).writeSchema
            f.declaration).mapError
          fun e => EmissionFault.mk f.name e.1.qualified e.2) :=
    hWrites.mapError fun _ h => h
  rcases h.preamble _ hReady with ⟨front, hFront⟩
  unfold Schema.flavorFile
  dsimp only
  rw [hFront]
  refine (FailsWhen.bind (Q := False) hWritten ?_).congr ?_
  · intro w hOk
    have hScope := hReady.of_writeAll (eq_ok_of_mapError hOk)
    apply FailsWhen.of_succeeds
    · apply ((h.services _ hScope).mapError _).bind
      intro services _
      exact succeeds_ok _
    · exact not_false
  · simp

end OutputFlavor

/- A dialect fails on the declarations that overflow. -/
theorem Dialect.failsOn_flavor (d : Dialect) (s : Schema) :
    d.flavor.FailsOn s s.DeclOverflows :=
  { preamble := fun _ _ => succeeds_ok _
    declaration := EmitScope.fails_declaration d
    services := fun _ hReady =>
      d.succeeds_endpointTable hReady.serves }

/- The validators of a valid schema fail on overflow only. -/
theorem Schema.failsWhen_flavorFile
    {s : Schema}
    (hValid : s.validate = [])
    (hFlat : s.IsFlat)
    (o : EmitOptions)
    (d : Dialect) :
    FailsWhen EmissionFault.IsOverflow s.HasOverflow
      (s.flavorFile o d) :=
  ((d.failsOn_flavor s).flavorFile hValid hFlat o).congr
    hasOverflow_iff.symm

------------------------------------------------------------
-- Configurations
------------------------------------------------------------

namespace Schema

variable {s : Schema}
variable {c : Config}

theorem failsWhen_flavorFiles
    {Fault : EmitFailure → Prop}
    {P : String → Prop}
    {o : EmitOptions}
    {r : Registry OutputFlavor}
    {names : List String}
    (hNames : ∀ name ∈ names,
      FailsWhen Fault (P name) (s.namedFlavorFile o r name)) :
    FailsWhen Fault (∃ name ∈ names, P name)
      (s.flavorFiles o r names) := by
  induction names with
  | nil =>
      unfold flavorFiles
      apply FailsWhen.of_succeeds
      · exact succeeds_ok _
      · simp
  | cons name rest ih =>
      rw [List.forall_mem_cons] at hNames
      unfold flavorFiles
      refine (hNames.1.bind
        (Q := (∃ name ∈ rest, P name) ∨ False) ?_).congr ?_
      · intro one _
        apply (ih hNames.2).bind
        intro more _
        exact not_false
      · simp

/- The base types are written, so only flavors can fail. -/
theorem failsWhen_emit_of_flavors
    {Fault : EmitFailure → Prop}
    {P : String → Prop}
    {r : Registry OutputFlavor}
    (hValid : s.validate = [])
    (hFlat : s.IsFlat)
    (hNames : ∀ name ∈ c.flavors,
      FailsWhen Fault (P name)
        (s.namedFlavorFile c.emitOptions r name)) :
    FailsWhen Fault (∃ name ∈ c.flavors, P name)
      (s.emit c r) := by
  have hBase := succeeds_baseFiles hValid hFlat c.emitOptions
  have hWhole : ∀ base : Emission,
      FailsWhen Fault (∃ name ∈ c.flavors, P name)
        (do
          let flavors ← s.flavorFiles c.emitOptions r c.flavors
          .ok (base.append flavors)) := by
    intro base
    refine ((failsWhen_flavorFiles hNames).bind
      (Q := False) ?_).congr ?_
    · intro flavors _
      exact not_false
    · simp
  unfold emit
  dsimp only
  split
  · rcases hBase with ⟨base, hBase⟩
    rw [hBase]
    exact hWhole base
  · exact hWhole {}

/-
  A flat schema without violations is emitted with whatever
  flavors there are if each of them can write its file.
-/
theorem succeeds_emit_iff
    {r : Registry OutputFlavor}
    (hValid : s.validate = [])
    (hFlat : s.IsFlat) :
    Succeeds (s.emit c r) ↔
      ∀ name ∈ c.flavors, ∃ f, r.find? name = some f
        ∧ Succeeds (s.flavorFile c.emitOptions f) := by
  have hEach : ∀ name ∈ c.flavors,
      FailsWhen (fun _ => True)
        (¬∃ f, r.find? name = some f
          ∧ Succeeds (s.flavorFile c.emitOptions f))
        (s.namedFlavorFile c.emitOptions r name) := by
    intro name _
    unfold namedFlavorFile
    cases r.find? name with
    | none => exact ⟨trivial, nofun⟩
    | some f =>
        dsimp only
        cases hFile : s.flavorFile c.emitOptions f with
        | error e =>
            refine ⟨trivial, ?_⟩
            rintro ⟨_, ⟨⟩, e', hOk⟩
            rw [hFile] at hOk
            cases hOk
        | ok e => exact not_not_intro ⟨f, rfl, e, hFile⟩
  have hEmit := failsWhen_emit_of_flavors hValid hFlat hEach
  rw [hEmit.succeeds_iff]
  push Not
  rfl

/- A configuration fails if it has a flavor that overflows. -/
theorem failsWhen_emit
    {r : Registry Dialect}
    (hValid : s.validate = [])
    (hFlat : s.IsFlat)
    (hFlavors : ∀ name ∈ c.flavors, r.contains name = true) :
    FailsWhen EmitFailure.IsOverflow
      (c.flavors ≠ [] ∧ s.HasOverflow) (s.emit c r) := by
  have hEach : ∀ name ∈ c.flavors,
      FailsWhen EmitFailure.IsOverflow s.HasOverflow
        (s.namedFlavorFile c.emitOptions r name) := by
    intro name hName
    rcases Option.isSome_iff_exists.mp (hFlavors name hName) with
      ⟨d, hFound⟩
    unfold namedFlavorFile
    rw [Registry.find?_flavors, hFound]
    exact (failsWhen_flavorFile hValid hFlat _ d).mapError
      fun e h => ⟨e, rfl, h⟩
  refine (failsWhen_emit_of_flavors hValid hFlat hEach).congr ?_
  constructor
  · rintro ⟨name, hName, hOver⟩
    exact ⟨List.ne_nil_of_mem hName, hOver⟩
  · rintro ⟨hSome, hOver⟩
    rcases List.exists_mem_of_ne_nil _ hSome with ⟨name, hName⟩
    exact ⟨name, hName, hOver⟩

theorem emit_ne_ok_of_hasOverflow
    {r : Registry Dialect}
    (hValid : s.validate = [])
    (hFlat : s.IsFlat)
    (hFlavors : ∀ name ∈ c.flavors, r.contains name = true)
    (hSome : c.flavors ≠ [])
    (hOver : s.HasOverflow)
    (e : Emission) : s.emit c r ≠ .ok e := by
  intro hOk
  have hEmit := failsWhen_emit hValid hFlat hFlavors
  exact hEmit.succeeds_iff.mp ⟨e, hOk⟩ ⟨hSome, hOver⟩

/-
  A flat schema without violations is emitted by every
  configuration with registered flavors, unless there is a
  flavor and a field asks for a length that is no word.  No
  other fault can occur.  The base types are always written,
  in one file and in one for each namespace, and so is every
  dialect if nothing overflows.
-/
theorem emit_succeeds_iff
    {r : Registry Dialect}
    (hValid : s.validate = [])
    (hFlat : s.IsFlat)
    (hFlavors : ∀ name ∈ c.flavors, r.contains name = true) :
    ((∃ e, s.emit c r = .ok e) ↔
        c.flavors = [] ∨ ¬s.HasOverflow)
      ∧ (∀ f, s.emit c r = .error f → f.IsOverflow)
      ∧ (∀ o, ∃ e, s.baseFiles o = .ok e)
      ∧ ∀ o (d : Dialect),
        ((∃ e, s.flavorFile o d = .ok e) ↔ ¬s.HasOverflow)
          ∧ ∀ f, s.flavorFile o d = .error f →
            f.IsOverflow := by
  have hEmit := failsWhen_emit hValid hFlat hFlavors
  refine ⟨?_, fun f => hEmit.fault,
    succeeds_baseFiles hValid hFlat, ?_⟩
  · have hOk := hEmit.succeeds_iff
    rwa [not_and_or, not_not] at hOk
  · intro o d
    have hFlavor := failsWhen_flavorFile hValid hFlat o d
    exact ⟨hFlavor.succeeds_iff, fun f => hFlavor.fault⟩

------------------------------------------------------------
-- A Field with Rules
------------------------------------------------------------

/- A record that extends another one, with rules. -/
def userSchema (rules : String) : Schema :=
  { types :=
      [.record
          { id := { name := "Base", space := "m" }
            fields :=
              [{ name := "ID"
                 type := .base .int 64
                 wireName := "id" }] },
        .record
          { id := { name := "User", space := "m" }
            fields :=
              [{ name := "Name"
                 type := .base .string 0
                 wireName := "name"
                 rules }]
            parents := [{ name := "Base", space := "m" }] }]
    services :=
      [{ name := "Users"
         endpoints :=
           [{ name := "Get"
              fullName := "Users.Get"
              verb := "POST"
              path := "/Users/Get"
              response :=
                .reference
                  { name := "User", space := "m" } }] }] }

theorem userSchema_isFlat (rules : String) :
    (userSchema rules).IsFlat := by
  constructor
  · simp [userSchema, WireType.IsFlat, WireType.id?]
  · simp [userSchema, bodies]

/- The rules are all that can overflow in it. -/
theorem hasOverflow_userSchema_iff {rules : String} :
    (userSchema rules).HasOverflow ↔
      ∃ r ∈ fieldRules rules, r.effect .text = .overflow := by
  have hBase : fieldRules "" = [] := by decide
  have hShape : (userSchema rules).shapeOf (.base .string 0) =
      .text := by
    rfl
  simp only [Rule.effect_eq_overflow_iff]
  simp [HasOverflow, DeclOverflows, Overflows, userSchema, hBase]
  rfl

/- A bound that no word holds leaves a valid schema unwritten. -/
theorem not_emit_userSchema :
    (userSchema "gt=18446744073709551615").validate = []
      ∧ (userSchema "gt=18446744073709551615").IsFlat
      ∧ Registry.builtin.contains "zod" = true
      ∧ ∀ e,
        (userSchema "gt=18446744073709551615").emit
          { flavors := ["zod"] } .builtin ≠ .ok e := by
  have hValid :
      (userSchema "gt=18446744073709551615").validate = [] := by
    decide +kernel
  have hFlat := userSchema_isFlat "gt=18446744073709551615"
  have hZod : Registry.builtin.contains "zod" = true := by
    decide +kernel
  have hOver :
      (userSchema "gt=18446744073709551615").HasOverflow := by
    rw [hasOverflow_userSchema_iff]
    decide +kernel
  have hFlavors :
      ∀ name ∈ ["zod"], Registry.builtin.contains name = true := by
    simpa using hZod
  exact ⟨hValid, hFlat, hZod,
    emit_ne_ok_of_hasOverflow hValid hFlat hFlavors (by simp) hOver⟩

theorem emit_succeeds_userSchema :
    (userSchema "required,gt=3").validate = []
      ∧ ∃ e,
        (userSchema "required,gt=3").emit
          { flavors := ["valibot", "zod"], singleFile := false }
          .builtin = .ok e := by
  have hValid : (userSchema "required,gt=3").validate = [] := by
    decide +kernel
  have hFlavors : ∀ name ∈ ["valibot", "zod"],
      Registry.builtin.contains name = true := by
    decide +kernel
  have hNot : ¬(userSchema "required,gt=3").HasOverflow := by
    rw [hasOverflow_userSchema_iff]
    decide +kernel
  refine ⟨hValid, ?_⟩
  exact (emit_succeeds_iff
    (c := { flavors := ["valibot", "zod"], singleFile := false })
    hValid (userSchema_isFlat _) hFlavors).1.mpr (.inr hNot)

end Schema

------------------------------------------------------------
-- A Flavor of a Caller
------------------------------------------------------------

/- Names the kind of each declaration behind some front. -/
def OutputFlavor.kinds (front : Except EmitError String) :
    OutputFlavor :=
  { name := "echo"
    fileSuffix := "echo.txt"
    infersTypes := false
    preamble := fun _ => front
    declaration := fun _ t => (.ok (t.kindName ++ "\n"), []) }

theorem OutputFlavor.failsOn_kinds (front : String) (s : Schema) :
    (kinds (.ok front)).FailsOn s fun _ => False :=
  { preamble := fun _ _ => succeeds_ok front
    declaration := fun _ _ _ _ => not_false
    services := fun _ _ => succeeds_ok "" }

/- Such a flavor writes the file of every valid schema. -/
theorem Schema.succeeds_kinds
    {s : Schema}
    (hValid : s.validate = [])
    (hFlat : s.IsFlat)
    (o : EmitOptions)
    (front : String) :
    Succeeds (s.flavorFile o (.kinds (.ok front))) := by
  have hFile :=
    (OutputFlavor.failsOn_kinds front s).flavorFile hValid hFlat o
  rw [hFile.succeeds_iff]
  simp

example :
    ((Schema.userSchema "").flavorFile {} (.kinds (.ok ""))).map
        Emission.files =
      .ok
        [{ path := "types.echo.txt"
           contents :=
             "// Code generated by typebridge. DO NOT EDIT.\n\n"
               ++ "\nrecord\n\nrecord\n" }] := by
  decide +kernel

example :
    (({} : Schema).emit { flavors := ["echo"] }
        (Registry.register {} "echo"
          (.kinds (.error (.unsupported "echo"))))).map
        Emission.files =
      .error
        (.emission
          { emitter := "echo"
            subject := "preamble"
            cause := .unsupported "echo" }) := by
  decide +kernel

end WireSchema
