import WireSchema.Proofs.Emit.Rendering
import WireSchema.Proofs.Generation.Artifacts
import WireSchema.Proofs.Rules.Fold

/-
  Null and absence in the files of all emitters.

  A field admits more than the values of its type: absence if
  it is optional, and null if there is a pointer in front of
  its type or if null stands for absence.  Every emitter shows
  these cases around what it writes for the type itself.  The
  one exception is in the file of the base types, where a
  pointer to nothing is null and no more.

  Key definitions include:
    * `FieldCases`, `EmitScope.casesOf`
    * `EmitScope.propertyLine`, `Dialect.around`
    * `EmitScope.fieldCases_iff`
-/

namespace WireSchema

------------------------------------------------------------
-- Cases
------------------------------------------------------------

/- What a field admits besides the values of a type. -/
structure FieldCases where
  absent : Bool
  null : Bool
  deriving DecidableEq, Repr

/- Null and absence around the schema of a type. -/
def Dialect.around
    (d : Dialect)
    (c : FieldCases)
    (value : String) : String :=
  let value := if c.null then d.nullable value else value
  if c.absent then d.optional value else value

/- An expression with null behind it, some times. -/
def withNulls (nulls : Nat) (text : String) : String :=
  text ++ String.join (List.replicate nulls " | null")

namespace EmitScope

/- The cases of a field with some pointers in front. -/
def casesOf
    (x : EmitScope)
    (f : Field WireType)
    (pointers : Nat) : FieldCases :=
  { absent := f.optional
    null :=
      decide (0 < pointers)
        || f.optional && x.options.absentMark == .null }

/- How often null stands behind the type of such a field. -/
def nullsOf
    (x : EmitScope)
    (f : Field WireType)
    (pointers : Nat) : Nat :=
  max pointers (x.casesOf f pointers).null.toNat

/- A property with absence and null around a type. -/
def propertyLine
    (x : EmitScope)
    (f : Field WireType)
    (absent : Bool)
    (nulls : Nat)
    (type : String) : String :=
  x.memberComment f.doc "  " ++ "  " ++ propertyKey f.wireName
    ++ (if absent then "?: " else ": ") ++ withNulls nulls type
    ++ ";\n"

end EmitScope

------------------------------------------------------------
-- Pointers
------------------------------------------------------------

namespace WireType

variable {t : WireType}

theorem isPointer_iterate
    (hTarget : t.isPointer = false)
    (k : Nat) :
    (pointer^[k] t).isPointer = decide (0 < k) := by
  cases k with
  | zero => simpa using hTarget
  | succ k =>
      rw [Function.iterate_succ_apply']
      rfl

theorem target_iterate
    (hTarget : t.isPointer = false)
    (k : Nat) : (pointer^[k] t).target = t := by
  induction k with
  | zero =>
      cases t with
      | pointer elem => cases hTarget
      | _ => rfl
  | succ k ih =>
      rw [Function.iterate_succ_apply']
      exact ih

/- With a pointer in front, nothing is something else. -/
theorem isNothing_iterate {k : Nat} :
    (pointer^[k] t).IsNothing ↔ k = 0 ∧ t.IsNothing := by
  cases k with
  | zero => simp
  | succ k =>
      rw [Function.iterate_succ_apply']
      constructor
      · rintro ⟨bits, hBase⟩
        cases hBase
      · rintro ⟨hZero, -⟩
        cases hZero

end WireType

------------------------------------------------------------
-- Base Types
------------------------------------------------------------

theorem withNulls_succ (n : Nat) (text : String) :
    withNulls (n + 1) text = withNulls n text ++ " | null" := by
  unfold withNulls
  rw [List.replicate_succ', String.join_append,
    ← String.append_assoc]
  rfl

namespace EmitScope

variable {x : EmitScope}
variable {t : WireType}
variable {k : Nat}

/- Each pointer puts null behind what is shown for its target. -/
theorem expression_iterate
    (h : ¬(0 < k ∧ t.IsNothing)) :
    x.expression (WireType.pointer^[k] t) =
      (x.expression t).map (withNulls k) := by
  induction k with
  | zero =>
      have hSame : withNulls 0 = id := by
        funext text
        simp [withNulls]
      rw [hSame, Except.map_id]
      rfl
  | succ k ih =>
      have hNot : ¬t.IsNothing := fun hBase =>
        h ⟨k.succ_pos, hBase⟩
      have hInner : ¬(WireType.pointer^[k] t).IsNothing :=
        fun hBase => hNot (WireType.isNothing_iterate.mp hBase).2
      rw [Function.iterate_succ_apply', expression_pointer hInner,
        ih fun hBoth => hNot hBoth.2]
      cases x.expression t with
      | error e => rfl
      | ok text => exact congrArg Except.ok (withNulls_succ k text).symm

/- The pointer next to nothing puts null in place of it. -/
theorem expression_iterate_of_isNothing
    (h : t.IsNothing) :
    x.expression (WireType.pointer^[k + 1] t) =
      .ok (withNulls k "null") := by
  rcases h with ⟨bits, rfl⟩
  induction k with
  | zero => rfl
  | succ k ih =>
      have hInner :
          ¬(WireType.pointer^[k + 1] (.base .empty bits)).IsNothing :=
        fun hBase => nomatch (WireType.isNothing_iterate.mp hBase).1
      rw [Function.iterate_succ_apply', expression_pointer hInner,
        ih]
      exact congrArg Except.ok (withNulls_succ k "null").symm

/- What is written around the expression for a field. -/
theorem fieldText_of_expression
    {f : Field WireType}
    {r : Except EmitError String}
    {nulls : Nat}
    (hPlain : f.stringEncoded = false)
    (hType : f.type = WireType.pointer^[k] t)
    (hTarget : t.isPointer = false)
    (hText : x.expression f.type = r.map (withNulls nulls)) :
    x.fieldText f =
      r.map
        (x.propertyLine f f.optional
          (if 0 < k then nulls
            else nulls + (x.casesOf f k).null.toNat)) := by
  have hPointer : f.type.isPointer = decide (0 < k) := by
    rw [hType, WireType.isPointer_iterate hTarget]
  unfold fieldText fieldType casesOf
  rw [hPlain, if_neg nofun, hText, hPointer, bind_of_map]
  by_cases hk : 0 < k
  · simp only [hk, decide_true, Bool.not_true, Bool.and_false,
      Bool.false_eq_true, if_false, if_true, String.append_empty]
    rfl
  · simp only [hk, decide_false, Bool.not_false, Bool.and_true,
      Bool.false_or, if_false]
    cases f.optional && x.options.absentMark == .null with
    | false =>
        simp only [Bool.false_eq_true, if_false, Bool.toNat_false,
          Nat.add_zero, String.append_empty]
        rfl
    | true =>
        simp only [if_true, Bool.toNat_true]
        unfold propertyLine
        simp only [withNulls_succ, String.append_assoc]
        rfl

/- Null is shown exactly if it is one of the cases. -/
theorem nullsOf_pos_iff {f : Field WireType} :
    0 < x.nullsOf f k ↔ (x.casesOf f k).null = true := by
  unfold nullsOf
  cases hNull : (x.casesOf f k).null with
  | true => simp
  | false =>
      have hNone : k = 0 := by
        simp only [casesOf, Bool.or_eq_false_iff,
          decide_eq_false_iff_not, not_lt, Nat.le_zero] at hNull
        exact hNull.1
      simp [hNone]

/-
  A field is shown with null as often as there are pointers,
  or else once if null stands for absence.
-/
theorem fieldText_of_pointers
    {f : Field WireType}
    (hPlain : f.stringEncoded = false)
    (hType : f.type = WireType.pointer^[k] t)
    (hTarget : t.isPointer = false)
    (h : ¬(0 < k ∧ t.IsNothing)) :
    x.fieldText f =
      (x.expression t).map
        (x.propertyLine f (x.casesOf f k).absent
          (x.nullsOf f k)) := by
  have hText : x.expression f.type =
      (x.expression t).map (withNulls k) := by
    rw [hType, expression_iterate h]
  have hCount :
      (if 0 < k then k else k + (x.casesOf f k).null.toNat) =
        x.nullsOf f k := by
    have hOne := Bool.toNat_le (x.casesOf f k).null
    unfold nullsOf
    split
    · omega
    · omega
  rw [fieldText_of_expression hPlain hType hTarget hText, hCount]
  rfl

/- Behind a pointer to nothing, each further pointer adds null. -/
theorem fieldText_of_isNothing
    {f : Field WireType}
    (hPlain : f.stringEncoded = false)
    (hType : f.type = WireType.pointer^[k] t)
    (hSome : 0 < k)
    (h : t.IsNothing) :
    x.fieldText f =
      .ok
        (x.propertyLine f (x.casesOf f k).absent (k - 1)
          "null") := by
  rcases Nat.exists_eq_succ_of_ne_zero hSome.ne' with ⟨n, rfl⟩
  have hTarget : t.isPointer = false := by
    rcases h with ⟨bits, rfl⟩
    rfl
  have hText : x.expression f.type =
      (.ok "null" : Except EmitError String).map (withNulls n) := by
    rw [hType]
    exact expression_iterate_of_isNothing h
  rw [fieldText_of_expression hPlain hType hTarget hText,
    if_pos hSome]
  rfl

/- The type itself is not shown there. -/
theorem propertyLine_ne
    {f : Field WireType}
    {absent : Bool}
    {nulls more : Nat} :
    x.propertyLine f absent nulls "null" ≠
      x.propertyLine f absent more "Record<string, never>" := by
  intro hSame
  have hChars := congrArg String.toList hSame
  simp only [propertyLine, withNulls, String.toList_append,
    List.append_assoc, List.append_cancel_left_eq] at hChars
  exact absurd (congrArg List.head? hChars) (by simp)

end EmitScope

------------------------------------------------------------
-- Validators
------------------------------------------------------------

namespace Dialect

variable {x : EmitScope}
variable {t : WireType}
variable {k : Nat}
variable {f : Field WireType}

theorem wrapValue_of_pointers
    (d : Dialect)
    (hType : f.type = WireType.pointer^[k] t)
    (hTarget : t.isPointer = false)
    (value : String) :
    d.wrapValue x f value = d.around (x.casesOf f k) value := by
  have hPointer : f.type.isPointer = decide (0 < k) := by
    rw [hType, WireType.isPointer_iterate hTarget]
  unfold wrapValue around EmitScope.casesOf
  rw [hPointer]
  cases decide (0 < k) with
  | true => simp
  | false =>
      cases f.optional with
      | true => simp
      | false => simp

/- The schema of a field, unless one of its rules overflows. -/
theorem fieldSchema_of_pointers
    (d : Dialect)
    (owner : String)
    (hPlain : f.stringEncoded = false)
    (hFree : x.schema.literalsOf? f = none)
    (hType : f.type = WireType.pointer^[k] t)
    (hTarget : t.isPointer = false)
    (hFits : ¬x.schema.Overflows f) :
    (d.fieldSchema x owner f).1 =
      ((d.chainFor x t).map
          (d.refine (x.schema.refinementsOf f))).map
        (d.around (x.casesOf f k)) := by
  have hEffects :
      x.schema.fieldEffects? owner f d.name = some _ :=
    Schema.fieldEffects?_eq_some_iff.mpr ⟨hFits, rfl⟩
  have hInner : f.type.target = t := by
    rw [hType, WireType.target_iterate hTarget]
  have hWrap : d.wrapValue x f = d.around (x.casesOf f k) := by
    funext value
    exact d.wrapValue_of_pointers hType hTarget value
  unfold fieldSchema valueSchema
  rw [hEffects, hFree, hInner, hPlain, hWrap]
  dsimp only
  cases d.chainFor x t with
  | error e => rfl
  | ok c => rfl

/- Without refinements there is the schema of the type alone. -/
theorem refine_nil_chainFor
    {name : String}
    {d : Dialect}
    (h : Registry.builtin.find? name = some d)
    (t : WireType) :
    (d.chainFor x t).map (d.refine []) = d.schemaFor x t := by
  have hBare : ∀ base, d.finish { base } = base := by
    intro base
    rw [Registry.find?_builtin] at h
    split at h
    · cases h
      rfl
    · split at h
      · cases h
        exact String.append_empty
      · cases h
  have hFinish : d.refine [] = d.finish := by
    funext c
    simp [refine]
  have hOther : ∀ t : WireType,
      (do
          let base ← d.schemaFor x t
          .ok ({ base } : Chain) : Except EmitError Chain).map
        d.finish =
      d.schemaFor x t := by
    intro t
    cases d.schemaFor x t with
    | error e => rfl
    | ok base => exact congrArg Except.ok (hBare base)
  rw [hFinish]
  cases t with
  | base kind bits => rfl
  | array elem len =>
      rw [chainFor, schemaFor]
      cases d.schemaFor x elem with
      | error e => rfl
      | ok elem => rfl
  | _ => exact hOther _

end Dialect

------------------------------------------------------------
-- All Emitters
------------------------------------------------------------

namespace EmitScope

variable {x : EmitScope}
variable {t : WireType}
variable {k : Nat}
variable {f : Field WireType}

/-
  All emitters show the same cases of a field around its type,
  except that in the file of the base types nothing is left of
  a type without values if there is a pointer in front.  A
  validator has the refinements of the field's rules behind
  the type; there is none if one of the rules overflows.
-/
theorem fieldCases_iff
    (hPlain : f.stringEncoded = false)
    (hFree : x.schema.literalsOf? f = none)
    (hType : f.type = WireType.pointer^[k] t)
    (hTarget : t.isPointer = false) :
    (0 < x.nullsOf f k ↔ (x.casesOf f k).null = true)
      ∧ (x.fieldText f =
            (x.expression t).map
              (x.propertyLine f (x.casesOf f k).absent
                (x.nullsOf f k)) ↔
          ¬(0 < k ∧ t.IsNothing))
      ∧ (0 < k ∧ t.IsNothing →
          x.fieldText f =
            .ok
              (x.propertyLine f (x.casesOf f k).absent (k - 1)
                "null"))
      ∧ ∀ name d owner, Registry.builtin.find? name = some d →
          (x.schema.Overflows f →
            (d.fieldSchema x owner f).1 = .error .overflow)
          ∧ (¬x.schema.Overflows f →
            (d.fieldSchema x owner f).1 =
              ((d.chainFor x t).map
                  (d.refine (x.schema.refinementsOf f))).map
                (d.around (x.casesOf f k)))
          ∧ (d.chainFor x t).map (d.refine []) =
            d.schemaFor x t := by
  refine ⟨nullsOf_pos_iff, ?base, ?nothing, ?validators⟩
  case base =>
    constructor
    · rintro hSame ⟨hSome, hNothing⟩
      rw [fieldText_of_isNothing hPlain hType hSome hNothing] at hSame
      rcases hNothing with ⟨bits, rfl⟩
      exact propertyLine_ne (Except.ok.inj hSame)
    · exact fieldText_of_pointers hPlain hType hTarget
  case nothing =>
    rintro ⟨hSome, hNothing⟩
    exact fieldText_of_isNothing hPlain hType hSome hNothing
  case validators =>
    intro name d owner hFlavor
    refine ⟨?overflow, ?schema, d.refine_nil_chainFor hFlavor t⟩
    case overflow =>
      intro hOver
      rw [Dialect.fieldSchema,
        Schema.fieldEffects?_eq_none_iff.mpr hOver]
    case schema =>
      exact d.fieldSchema_of_pointers owner hPlain hFree hType
        hTarget

/- An empty schema where null stands for absence. -/
def nullScope : EmitScope :=
  .ofSchema {} { absentMark := .null }

def nickField : Field WireType :=
  { name := "Nick"
    type := .base .string 0
    wireName := "nick"
    optional := true
    rules := "min=3" }

/- One null, behind the type and behind its refinement. -/
theorem fieldCases_iff_nick :
    nickField.stringEncoded = false
      ∧ nullScope.schema.literalsOf? nickField = none
      ∧ nickField.type = WireType.pointer^[0] (.base .string 0)
      ∧ (WireType.base .string 0).isPointer = false
      ∧ nullScope.fieldText nickField =
        .ok "  nick?: string | null;\n"
      ∧ (Dialect.zod.fieldSchema nullScope "User" nickField).1 =
        .ok "z.string().min(3).nullable().optional()" := by
  have hFree : nullScope.schema.literalsOf? nickField = none := by
    decide +kernel
  have hFits : ¬nullScope.schema.Overflows nickField := by
    intro hOver
    have hNone : nullScope.schema.fieldEffects? "User" nickField
        "zod" = none :=
      Schema.fieldEffects?_eq_none_iff.mpr hOver
    exact absurd hNone (by decide +kernel)
  rcases fieldCases_iff (x := nullScope) (f := nickField)
    (t := .base .string 0) (k := 0) rfl hFree rfl rfl with
    ⟨-, hBase, -, hValidators⟩
  have hZod := (hValidators "zod" .zod "User" (by rfl)).2.1 hFits
  refine ⟨rfl, hFree, rfl, rfl, ?base, ?zod⟩
  case base =>
    rw [hBase.mpr fun hBoth => Nat.lt_irrefl 0 hBoth.1]
    decide +kernel
  case zod =>
    rw [hZod]
    decide +kernel

def markField : Field WireType :=
  { name := "Mark"
    type := .pointer (.base .empty 0)
    wireName := "mark" }

/- The base types have null alone, the validators a type too. -/
theorem pointerToNothing_not_fieldCases :
    markField.stringEncoded = false
      ∧ nullScope.schema.literalsOf? markField = none
      ∧ (nullScope.expression (.base .empty 0)).map
          (nullScope.propertyLine markField
            (nullScope.casesOf markField 1).absent
            (nullScope.nullsOf markField 1)) =
        .ok "  mark: Record<string, never> | null;\n"
      ∧ nullScope.fieldText markField = .ok "  mark: null;\n"
      ∧ (Dialect.zod.fieldSchema nullScope "Job" markField).1 =
        .ok "z.object(\x7b\x7d).nullable()" := by
  refine ⟨rfl, ?free, ?table, ?base, ?zod⟩
  case free => decide +kernel
  case table => decide +kernel
  case base => decide +kernel
  case zod => decide +kernel

end EmitScope

end WireSchema
