import WireSchema.Proofs.Rules.Fold
import WireSchema.Proofs.Schema.Synonyms
import WireSchema.Proofs.Validator.Rendering
import WireSchema.Validator.Valibot
import WireSchema.Validator.Zod

/-
  Fields whose values travel as texts.

  The check of a schema and the dialects both follow the type
  of such a field through synonyms.  The check takes scalars
  and enumerations; a dialect parses the scalar that it finds
  and leaves an enumeration a plain text.

  Key definitions include:
    * `Schema.TakesEncoding`, `Schema.LeadsToEnum`
    * `Dialect.parsingSchema`
    * `Schema.encoding_agrees`
-/

namespace WireSchema

------------------------------------------------------------
-- Ends of Chains
------------------------------------------------------------

namespace Schema

variable {s : Schema}
variable {t : WireType}

/- The check of a schema takes the texts of a field. -/
def TakesEncoding (s : Schema) (f : Field WireType) : Prop :=
  s.isEncodable (maxEncodedSteps + 1) f.type = true

/- A type leads to an enumeration, however far away. -/
def LeadsToEnum (s : Schema) (t : WireType) : Prop :=
  ∃ n id d, s.LeadsTo n t (.reference id)
    ∧ s.find? id = some (.enum d)

/-
  No scalar and no enumeration behind a type is farther away
  than the check of a schema looks.
-/
def IsNear (s : Schema) (t : WireType) : Prop :=
  ∀ n u, s.LeadsTo n t u → s.IsEncodableEnd u →
    n ≤ maxEncodedSteps

theorem scalarBehind?_eq_some_iff
    {kind : BaseKind}
    {bits : Nat} :
    s.scalarBehind? t = some (kind, bits) ↔
      kind.isScalar = true ∧ ∃ n, n < maxBaseSteps
        ∧ s.LeadsTo n t (.base kind bits) := by
  unfold scalarBehind? baseBehind?
  rw [Option.filter_eq_some_iff, baseWithin?_eq_some_iff]
  exact And.comm

theorem scalarBehind?_target (t : WireType) :
    s.scalarBehind? t.target = s.scalarBehind? t := by
  unfold scalarBehind? baseBehind? maxBaseSteps
  rw [baseWithin?, baseWithin?, t.target_target]

/- The shape of a scalar is that of its kind. -/
theorem shapeOf_of_scalarBehind?
    {kind : BaseKind}
    {bits : Nat}
    (h : s.scalarBehind? t = some (kind, bits)) :
    s.shapeOf t = .ofKind kind := by
  rcases scalarBehind?_eq_some_iff.mp h with
    ⟨hScalar, n, hNear, hLeads⟩
  have hRules : Shape.ofKind kind ≠ .other := by
    cases kind with
    | _ => revert hScalar; decide
  rw [← maxShapeSteps_eq_maxBaseSteps] at hNear
  exact (shapeWithin_eq_iff hRules).mpr ⟨n, _, hNear, hLeads, rfl⟩

/- An enumeration is no scalar and has no shape. -/
theorem LeadsToEnum.scalarBehind?_eq_none
    (h : s.LeadsToEnum t) : s.scalarBehind? t = none := by
  rcases h with ⟨n, id, d, hLeads, hFound⟩
  apply Option.eq_none_iff_forall_ne_some.mpr
  rintro ⟨kind, bits⟩ hScalar
  rcases scalarBehind?_eq_some_iff.mp hScalar with
    ⟨-, m, -, hBase⟩
  have hSame :=
    (hLeads.unique (isLast_enum hFound) hBase isLast_base).2
  cases hSame

theorem LeadsToEnum.shapeOf_eq_other
    (h : s.LeadsToEnum t) : s.shapeOf t = .other := by
  rcases h with ⟨n, id, d, hLeads, hFound⟩
  rcases shapeOf_of_leadsTo hLeads (isLast_enum hFound) with
    hOther | hOwn
  · exact hOther
  · exact hOwn

/- One end that is near enough will do. -/
theorem isNear_of_leadsTo
    {n : Nat}
    {u : WireType}
    (hLeads : s.LeadsTo n t u)
    (hEnd : s.IsEncodableEnd u)
    (hNear : n ≤ maxEncodedSteps) : s.IsNear t := by
  intro m v hOther hOtherEnd
  have hSame :=
    (hLeads.unique hEnd.isLast hOther hOtherEnd.isLast).1
  exact hSame ▸ hNear

/- What the check takes, the dialects find. -/
theorem TakesEncoding.finds
    {f : Field WireType}
    (h : s.TakesEncoding f) :
    (s.scalarBehind? f.type).isSome = true
      ∨ s.LeadsToEnum f.type := by
  rcases isEncodable_iff.mp h with ⟨n, u, hNear, hLeads, hEnd⟩
  rcases hEnd with ⟨kind, bits, rfl, hScalar⟩ | ⟨id, d, rfl, hFound⟩
  · have hReach : maxEncodedSteps + 1 ≤ maxBaseSteps := by
      decide
    have hFound := scalarBehind?_eq_some_iff.mpr
      ⟨hScalar, n, Nat.lt_of_lt_of_le hNear hReach, hLeads⟩
    exact .inl (Option.isSome_of_eq_some hFound)
  · exact .inr ⟨n, id, d, hLeads, hFound⟩

/- What the dialects find, the check takes if it is near. -/
theorem takesEncoding_of_finds
    {f : Field WireType}
    (hNear : s.IsNear f.type)
    (h : (s.scalarBehind? f.type).isSome = true
      ∨ s.LeadsToEnum f.type) : s.TakesEncoding f := by
  have hEnd : ∃ n u, s.LeadsTo n f.type u ∧ s.IsEncodableEnd u := by
    rcases h with hScalar | ⟨n, id, d, hLeads, hFound⟩
    · rcases Option.isSome_iff_exists.mp hScalar with
        ⟨⟨kind, bits⟩, hFound⟩
      rcases scalarBehind?_eq_some_iff.mp hFound with
        ⟨hKind, n, -, hLeads⟩
      exact ⟨n, _, hLeads, .inl ⟨kind, bits, rfl, hKind⟩⟩
    · exact ⟨n, _, hLeads, .inr ⟨id, d, rfl, hFound⟩⟩
  rcases hEnd with ⟨n, u, hLeads, hu⟩
  exact isEncodable_iff.mpr
    ⟨n, u, Nat.lt_succ_of_le (hNear n u hLeads hu), hLeads, hu⟩

/- The check reports the fields that it does not take. -/
theorem mem_encodingFaults_iff
    {v : Violation} :
    v ∈ s.encodingFaults ↔
      ∃ d f, .record d ∈ s.types ∧ f ∈ d.fields
        ∧ f.stringEncoded = true ∧ ¬s.TakesEncoding f
        ∧ v = .stringEncoding d.id f.name f.type.kindName := by
  unfold encodingFaults TakesEncoding
  rw [List.mem_flatMap]
  constructor
  · rintro ⟨t, hType, hv⟩
    cases t with
    | record d =>
        rcases List.mem_map.mp hv with ⟨f, hField, rfl⟩
        rcases List.mem_filter.mp hField with ⟨hMem, hRefused⟩
        simp only [Bool.and_eq_true, Bool.not_eq_true'] at hRefused
        exact ⟨d, f, hType, hMem, hRefused.1,
          Bool.not_eq_true _ ▸ hRefused.2, rfl⟩
    | _ => cases hv
  · rintro ⟨d, f, hType, hMem, hEncoded, hRefused, rfl⟩
    refine ⟨_, hType, List.mem_map.mpr ⟨f, ?_, rfl⟩⟩
    apply List.mem_filter.mpr
    simp [hMem, hEncoded, hRefused]

/- The check of a valid schema takes all texts. -/
theorem takesEncoding_of_validate_eq_nil
    {r : RecordDecl WireType}
    {f : Field WireType}
    (hValid : s.validate = [])
    (hType : .record r ∈ s.types)
    (hField : f ∈ r.fields)
    (hEncoded : f.stringEncoded = true) : s.TakesEncoding f := by
  unfold validate at hValid
  simp only [List.append_eq_nil_iff] at hValid
  rcases hValid with ⟨⟨⟨⟨⟨⟨-, hFaults⟩, -⟩, -⟩, -⟩, -⟩, -⟩
  by_contra hRefused
  have hFault := mem_encodingFaults_iff.mpr
    ⟨r, f, hType, hField, hEncoded, hRefused, rfl⟩
  rw [hFaults] at hFault
  cases hFault

end Schema

------------------------------------------------------------
-- Schemas of Texts
------------------------------------------------------------

namespace Dialect

/-
  The schema of a scalar that is parsed from its text, after a
  look at the text if its values are listed.
-/
def parsingSchema
    (d : Dialect)
    (kind : BaseKind)
    (bits : Nat)
    (refinements : List Refinement) :
    Option (List Literal) → String
  | none =>
      d.refine (intrinsicBounds kind bits ++ refinements)
        (d.parsed kind)
  | some values =>
      let wire := d.literals (values.map Literal.onWire)
      d.finish
        { base :=
            if kind = .string then wire
            else d.checkThenParse wire (d.parsed kind) }

variable {d : Dialect}
variable {x : EmitScope}
variable {owner : String}
variable {f : Field WireType}

/- The field of a scalar gets a schema that parses it. -/
theorem fieldSchema_of_scalarBehind?
    {kind : BaseKind}
    {bits : Nat}
    (hEncoded : f.stringEncoded = true)
    (hScalar : x.schema.scalarBehind? f.type = some (kind, bits))
    (hOver : ¬x.schema.Overflows f) :
    (d.fieldSchema x owner f).1 =
      .ok
        (d.wrapValue x f
          (d.parsingSchema kind bits (x.schema.refinementsOf f)
            (x.schema.literalsOf? f))) := by
  have hTarget : x.schema.scalarBehind? f.type.target =
      some (kind, bits) := by
    rw [Schema.scalarBehind?_target, hScalar]
  unfold fieldSchema
  rw [Schema.fieldEffects?_eq_some_iff.mpr ⟨hOver, rfl⟩]
  unfold valueSchema
  cases x.schema.literalsOf? f with
  | none =>
      simp [hEncoded, hTarget, parsedChain, parsingSchema, refine,
        Except.map, bind, Except.bind]
  | some values =>
      simp [hEncoded, hTarget, parsedLiterals, parsingSchema,
        Except.map]

/- The field of an enumeration gets that of a plain text. -/
theorem fieldSchema_of_leadsToEnum
    (hEncoded : f.stringEncoded = true)
    (hEnum : x.schema.LeadsToEnum f.type)
    (hOver : ¬x.schema.Overflows f) :
    (d.fieldSchema x owner f).1 =
      .ok (d.wrapValue x f (d.finish { base := d.base .string })) := by
  have hTarget : x.schema.scalarBehind? f.type.target = none := by
    rw [Schema.scalarBehind?_target, hEnum.scalarBehind?_eq_none]
  have hShape := hEnum.shapeOf_eq_other
  unfold fieldSchema
  rw [Schema.fieldEffects?_eq_some_iff.mpr ⟨hOver, rfl⟩]
  unfold valueSchema
  rw [Schema.literalsOf?_of_other hShape,
    Schema.refinementsOf_of_other hShape]
  simp [hEncoded, hTarget, parsedChain, Except.map, bind,
    Except.bind]

end Dialect

------------------------------------------------------------
-- Check and Emission
------------------------------------------------------------

namespace Schema

/-
  The check reports exactly the fields that it does not take.
  As far as it looks, these are the fields behind which the
  dialects find no scalar and which do not lead to an
  enumeration either.  A scalar is parsed from its text, which
  only for texts is the schema of a plain text; an enumeration
  is left a plain text without refinements.
-/
theorem encoding_agrees (s : Schema) :
    (∀ v, v ∈ s.encodingFaults ↔
        ∃ d f, .record d ∈ s.types ∧ f ∈ d.fields
          ∧ f.stringEncoded = true ∧ ¬s.TakesEncoding f
          ∧ v = .stringEncoding d.id f.name f.type.kindName)
      ∧ (∀ f : Field WireType, s.IsNear f.type →
        (s.TakesEncoding f ↔
          (s.scalarBehind? f.type).isSome = true
            ∨ s.LeadsToEnum f.type))
      ∧ (∀ (d : Dialect) (x : EmitScope) owner f,
        x.schema = s →
        f.stringEncoded = true →
        s.TakesEncoding f →
        ¬s.Overflows f →
        (∃ kind bits, s.scalarBehind? f.type = some (kind, bits)
            ∧ (d.fieldSchema x owner f).1 =
              .ok
                (d.wrapValue x f
                  (d.parsingSchema kind bits (s.refinementsOf f)
                    (s.literalsOf? f))))
          ∨ s.LeadsToEnum f.type
            ∧ s.scalarBehind? f.type = none
            ∧ (d.fieldSchema x owner f).1 =
              .ok
                (d.wrapValue x f
                  (d.finish { base := d.base .string })))
      ∧ (∀ d ∈ [Dialect.zod, Dialect.valibot], ∀ kind,
        kind.isScalar = true →
        (d.parsed kind = { base := d.base .string } ↔
          kind = .string)) := by
  refine ⟨fun v => mem_encodingFaults_iff, ?agree, ?emitted,
    ?parsed⟩
  case agree =>
    intro f hNear
    exact ⟨TakesEncoding.finds, takesEncoding_of_finds hNear⟩
  case emitted =>
    rintro d x owner f rfl hEncoded hTaken hOver
    rcases hTaken.finds with hScalar | hEnum
    · rcases Option.isSome_iff_exists.mp hScalar with
        ⟨⟨kind, bits⟩, hFound⟩
      exact .inl ⟨kind, bits, hFound,
        d.fieldSchema_of_scalarBehind? hEncoded hFound hOver⟩
    · exact .inr ⟨hEnum, hEnum.scalarBehind?_eq_none,
        d.fieldSchema_of_leadsToEnum hEncoded hEnum hOver⟩
  case parsed =>
    intro d hMem kind hScalar
    rcases List.mem_cons.mp hMem with rfl | hRest
    · cases kind with
      | _ => revert hScalar; decide
    · cases List.mem_singleton.mp hRest
      cases kind with
      | _ => revert hScalar; decide

/- A field that travels as text. -/
def levelField (type : WireType) : Field WireType :=
  { name := "Level"
    type
    wireName := "level"
    stringEncoded := true }

/-
  A record whose field leads through a number of synonyms, and
  an enumeration beside them.
-/
def ticketSchema (steps : Nat) (last : WireType) : Schema :=
  let step : Nat → WireType := fun i =>
    if i < steps then
      .reference { name := "Step" ++ toString i, space := "m" }
    else last
  let synonyms := (List.range steps).map fun i =>
    WireType.synonym
      { id := { name := "Step" ++ toString i, space := "m" }
        target := step (i + 1) }
  { types :=
      .record
          { id := { name := "Ticket", space := "m" }
            fields := [levelField (step 0)] }
        :: .enum
          { id := { name := "Level", space := "m" }
            members :=
              [{ name := "Low", value := .int 1 },
               { name := "High", value := .int 2 }] }
        :: synonyms }

/-
  An enumeration is taken but not parsed, and a scalar behind
  nine synonyms is parsed but not taken.
-/
theorem ticketSchemas_disagree :
    ((ticketSchema 0
          (.reference { name := "Level", space := "m" })).validate =
        []
      ∧ (ticketSchema 0
          (.reference { name := "Level", space := "m" })).scalarBehind?
            (.reference { name := "Level", space := "m" }) = none
      ∧ (Dialect.zod.fieldSchema
          (.ofSchema
            (ticketSchema 0
              (.reference { name := "Level", space := "m" })) {})
          "Ticket"
          (levelField
            (.reference { name := "Level", space := "m" }))).1 =
        .ok "z.string()")
      ∧ (ticketSchema 9 (.base .int 64)).validate =
        [.stringEncoding { name := "Ticket", space := "m" }
          "Level" "reference"]
      ∧ (ticketSchema 9 (.base .int 64)).scalarBehind?
          (.reference { name := "Step0", space := "m" }) =
        some (.int, 64) := by
  refine ⟨⟨by decide +kernel, by decide +kernel, by decide +kernel⟩,
    by decide +kernel, by decide +kernel⟩

theorem encoding_agrees_ticketSchema :
    (ticketSchema 1 (.base .int 64)).IsNear
        (.reference { name := "Step0", space := "m" })
      ∧ (ticketSchema 1 (.base .int 64)).TakesEncoding
        (levelField (.reference { name := "Step0", space := "m" }))
      ∧ ((Dialect.zod.fieldSchema
          (.ofSchema (ticketSchema 1 (.base .int 64)) {}) "Ticket"
          (levelField
            (.reference { name := "Step0", space := "m" }))).1 =
        .ok "z.coerce.number().int()")
      ∧ ∀ kind, kind.isScalar = true →
        (Dialect.zod.parsed kind =
            { base := Dialect.zod.base .string } ↔
          kind = .string) := by
  rcases encoding_agrees (ticketSchema 1 (.base .int 64)) with
    ⟨-, hAgree, hEmitted, hParsed⟩
  have hLeads : (ticketSchema 1 (.base .int 64)).LeadsTo 1
      (.reference { name := "Step0", space := "m" })
      (.base .int 64) :=
    .through rfl rfl (.here _)
  have hNear := isNear_of_leadsTo hLeads
    (.inl ⟨.int, 64, rfl, rfl⟩) (by decide)
  have hScalar :
      (ticketSchema 1 (.base .int 64)).scalarBehind?
          (.reference { name := "Step0", space := "m" }) =
        some (.int, 64) := by
    decide +kernel
  let f := levelField (.reference { name := "Step0", space := "m" })
  have hTaken : (ticketSchema 1 (.base .int 64)).TakesEncoding f :=
    (hAgree f hNear).mpr (.inl (Option.isSome_of_eq_some hScalar))
  have hOver : ¬(ticketSchema 1 (.base .int 64)).Overflows f := by
    rintro ⟨r, hRule, -⟩
    cases hRule
  refine ⟨hNear, hTaken, ?_, hParsed .zod List.mem_cons_self⟩
  rcases hEmitted .zod (.ofSchema _ {}) "Ticket" f rfl rfl hTaken
      hOver with ⟨kind, bits, hFound, hText⟩ | ⟨hEnum, hNone, -⟩
  · rw [show f.type = .reference _ from rfl, hScalar] at hFound
    cases hFound
    exact hText.trans (by decide +kernel)
  · rw [show f.type = .reference _ from rfl, hScalar] at hNone
    cases hNone

end Schema

end WireSchema
