import WireSchema.Validation.Basic
import WireSchema.Validator.Basic

/-
  Types behind synonyms.

  Several searches follow a type through pointers and synonyms
  for a number of steps.  Each of them finds what the type
  leads to, if that is near enough; they differ in how far
  they go and in what they look for.

  The search for the shape of a type and the one for the base
  type behind it go equally far.  A shape of texts, numbers or
  truth values is found exactly if a base type of this kind is;
  behind too many synonyms, or in a circle of them, neither is.

  Key definitions include:
    * `Schema.LeadsTo`
    * `Schema.reaches_iff`
    * `Schema.baseWithin?_eq_some_iff`, `isEncodable_iff`,
      `shapeWithin_eq_iff`
    * `Shape.IsOfBase`
    * `Schema.shapeWithin_eq_iff_baseWithin?`
    * `Schema.maxShapeSteps_eq_maxBaseSteps`
    * `Schema.shapeOf_iff_baseBehind?`
-/

namespace WireSchema

theorem WireType.target_target (t : WireType) :
    t.target.target = t.target := by
  have hPlain := t.isPointer_target
  cases hTarget : t.target with
  | pointer elem =>
      rw [hTarget] at hPlain
      cases hPlain
  | _ => rfl

/- The shape of a type that is looked at itself. -/
def WireType.ownShape : WireType → Shape
  | .base kind _ => .ofKind kind
  | .array .. => .array
  | .map .. => .map
  | _ => .other

/- The shapes that only base types have. -/
def Shape.IsOfBase : Shape → Prop
  | .text | .number _ | .bool => True
  | .array | .map | .other => False

theorem Shape.IsOfBase.ne_other
    {shape : Shape}
    (h : shape.IsOfBase) : shape ≠ .other := by
  rintro rfl
  exact h

theorem WireType.ownShape_eq_iff
    {u : WireType}
    {shape : Shape}
    (hBase : shape.IsOfBase) :
    u.ownShape = shape ↔
      ∃ kind bits, u = .base kind bits ∧ .ofKind kind = shape := by
  constructor
  · rintro rfl
    cases u with
    | base kind bits => exact ⟨kind, bits, rfl, rfl⟩
    | _ => cases hBase
  · rintro ⟨kind, bits, rfl, rfl⟩
    rfl

namespace Schema

variable {s : Schema}

------------------------------------------------------------
-- Steps
------------------------------------------------------------

/-
  A type leads to another one through a number of synonyms.
  The pointers in front of any of these types do not count.
-/
inductive LeadsTo (s : Schema) :
    Nat → WireType → WireType → Prop
  | here (t : WireType) : s.LeadsTo 0 t t.target
  | through
      {t u : WireType}
      {id : TypeName}
      {d : SynonymDecl WireType}
      {n : Nat}
      (hName : t.target = .reference id)
      (hFound : s.find? id = some (.synonym d))
      (hRest : s.LeadsTo n d.target u) :
      s.LeadsTo (n + 1) t u

/- A type that leads no further. -/
def IsLast (s : Schema) (t : WireType) : Prop :=
  ∀ id d, t = .reference id → s.find? id ≠ some (.synonym d)

theorem isLast_base {kind : BaseKind} {bits : Nat} :
    s.IsLast (.base kind bits) :=
  nofun

theorem isLast_enum
    {id : TypeName}
    {d : EnumDecl}
    (h : s.find? id = some (.enum d)) :
    s.IsLast (.reference id) := by
  intro other e hSame hFound
  cases hSame
  rw [h] at hFound
  cases hFound

/- A shape of its own is never that of a name. -/
theorem isLast_of_ownShape
    {t : WireType}
    (h : t.ownShape ≠ .other) : s.IsLast t := by
  rintro id d rfl
  exact absurd rfl h

/- The pointers in front of a type may be left out. -/
theorem LeadsTo.of_target
    {n : Nat}
    {t u : WireType}
    (h : s.LeadsTo n t.target u) : s.LeadsTo n t u := by
  cases h with
  | here =>
      rw [t.target_target]
      exact .here t
  | through hName hFound hRest =>
      rw [t.target_target] at hName
      exact .through hName hFound hRest

/- A type leads to one last type, in one number of steps. -/
theorem LeadsTo.unique
    {n m : Nat}
    {t u v : WireType}
    (h : s.LeadsTo n t u)
    (hLast : s.IsLast u)
    (h' : s.LeadsTo m t v)
    (hLast' : s.IsLast v) : n = m ∧ u = v := by
  induction h generalizing m with
  | here t =>
      cases h' with
      | here => exact ⟨rfl, rfl⟩
      | through hName hFound _ =>
          exact absurd hFound (hLast _ _ hName)
  | through hName hFound _ ih =>
      cases h' with
      | here => exact absurd hFound (hLast' _ _ hName)
      | through hName' hFound' hRest' =>
          rw [hName] at hName'
          cases hName'
          rw [hFound] at hFound'
          cases hFound'
          rcases ih hLast hRest' with ⟨hSteps, hSame⟩
          exact ⟨congrArg _ hSteps, hSame⟩

------------------------------------------------------------
-- Searches
------------------------------------------------------------

/-
  A search that looks at a type behind its pointers and goes on
  behind a synonym finds what is less than its steps away.
-/
theorem reaches_iff
    {P : Nat → WireType → Prop}
    {Q : WireType → Prop}
    (hZero : ∀ t, ¬P 0 t)
    (hNext : ∀ steps t, P (steps + 1) t ↔
      Q t.target ∨ ∃ id d, t.target = .reference id
        ∧ s.find? id = some (.synonym d)
        ∧ P steps d.target)
    (steps : Nat)
    (t : WireType) :
    P steps t ↔ ∃ n u, n < steps ∧ s.LeadsTo n t u ∧ Q u := by
  induction steps generalizing t with
  | zero => simp [hZero]
  | succ steps ih =>
      rw [hNext]
      constructor
      · rintro (hHere | ⟨id, d, hName, hFound, hRest⟩)
        · exact ⟨0, _, Nat.succ_pos _, .here t, hHere⟩
        · rcases (ih _).mp hRest with ⟨n, u, hLess, hLeads, hu⟩
          exact ⟨n + 1, u, Nat.succ_lt_succ hLess,
            .through hName hFound hLeads, hu⟩
      · rintro ⟨n, u, hLess, hLeads, hu⟩
        cases hLeads with
        | here => exact .inl hu
        | through hName hFound hRest =>
            have hNear := Nat.lt_of_succ_lt_succ hLess
            exact .inr ⟨_, _, hName, hFound,
              (ih _).mpr ⟨_, u, hNear, hRest, hu⟩⟩

/- The base type behind a type, if it is near enough. -/
theorem baseWithin?_eq_some_iff
    {steps bits : Nat}
    {t : WireType}
    {kind : BaseKind} :
    s.baseWithin? steps t = some (kind, bits) ↔
      ∃ n, n < steps ∧ s.LeadsTo n t (.base kind bits) := by
  have hNext : ∀ steps t,
      s.baseWithin? (steps + 1) t = some (kind, bits) ↔
        t.target = .base kind bits
          ∨ ∃ id d, t.target = .reference id
            ∧ s.find? id = some (.synonym d)
            ∧ s.baseWithin? steps d.target = some (kind, bits) := by
    intro steps t
    rw [baseWithin?]
    cases t.target with
    | reference id =>
        cases hFound : s.find? id with
        | none => simp [hFound]
        | some decl => cases decl <;> simp [hFound]
    | _ => simp
  have hReaches := reaches_iff
    (P := fun steps t => s.baseWithin? steps t = some (kind, bits))
    (Q := fun u => u = .base kind bits)
    (by simp [baseWithin?]) hNext steps t
  simpa using hReaches

/- What may travel as text: a scalar or an enumeration. -/
def IsEncodableEnd (s : Schema) (t : WireType) : Prop :=
  (∃ kind bits, t = .base kind bits ∧ kind.isScalar = true)
    ∨ ∃ id d, t = .reference id ∧ s.find? id = some (.enum d)

theorem IsEncodableEnd.isLast
    {t : WireType}
    (h : s.IsEncodableEnd t) : s.IsLast t := by
  rcases h with ⟨kind, bits, rfl, -⟩ | ⟨id, d, rfl, hFound⟩
  · exact isLast_base
  · exact isLast_enum hFound

theorem isEncodable_iff
    {steps : Nat}
    {t : WireType} :
    s.isEncodable steps t = true ↔
      ∃ n u, n < steps ∧ s.LeadsTo n t u
        ∧ s.IsEncodableEnd u := by
  apply reaches_iff
    (P := fun steps t => s.isEncodable steps t = true)
  · simp [isEncodable]
  · intro steps t
    rw [isEncodable]
    unfold IsEncodableEnd
    cases t.target with
    | reference id =>
        cases hFound : s.find? id with
        | none => simp [hFound]
        | some decl => cases decl <;> simp [hFound]
    | _ => simp

/- What is no name is looked at itself. -/
theorem shapeOf_of_direct
    {t : WireType}
    (h : ∀ id, t.target ≠ .reference id) :
    s.shapeOf t = t.target.ownShape := by
  unfold shapeOf maxShapeSteps
  rw [shapeWithin]
  cases hTarget : t.target with
  | reference id => exact absurd hTarget (h id)
  | _ => rfl

/- A shape with rules of its own is that of a near type. -/
theorem shapeWithin_eq_iff
    {steps : Nat}
    {t : WireType}
    {shape : Shape}
    (hRules : shape ≠ .other) :
    s.shapeWithin steps t = shape ↔
      ∃ n u, n < steps ∧ s.LeadsTo n t u
        ∧ u.ownShape = shape := by
  apply reaches_iff
    (P := fun steps t => s.shapeWithin steps t = shape)
    (Q := fun u => u.ownShape = shape)
  · simp [shapeWithin, hRules.symm]
  · intro steps t
    rw [shapeWithin]
    cases t.target with
    | reference id =>
        cases hFound : s.find? id with
        | none => simp [hFound, WireType.ownShape, hRules.symm]
        | some decl =>
            cases decl <;>
              simp [hFound, WireType.ownShape, hRules.symm]
    | _ => simp [WireType.ownShape]

/- A type has the shape of what it leads to, or is too far. -/
theorem shapeOf_of_leadsTo
    {n : Nat}
    {t u : WireType}
    (hLeads : s.LeadsTo n t u)
    (hLast : s.IsLast u) :
    s.shapeOf t = .other ∨ s.shapeOf t = u.ownShape := by
  by_cases hShape : s.shapeOf t = .other
  · exact .inl hShape
  · rcases (shapeWithin_eq_iff hShape).mp rfl with
      ⟨m, v, -, hFound, hOwn⟩
    have hFoundLast : s.IsLast v :=
      isLast_of_ownShape (fun hOther => hShape (hOwn ▸ hOther))
    rw [(hLeads.unique hLast hFound hFoundLast).2]
    exact .inr hOwn.symm

------------------------------------------------------------
-- Shapes and Base Types
------------------------------------------------------------

variable {t : WireType}

/- The two searches go equally far. -/
theorem maxShapeSteps_eq_maxBaseSteps :
    maxShapeSteps = maxBaseSteps :=
  rfl

/- Within any number of steps both searches meet. -/
theorem shapeWithin_eq_iff_baseWithin?
    {steps : Nat}
    {shape : Shape}
    (hBase : shape.IsOfBase) :
    s.shapeWithin steps t = shape ↔
      ∃ kind bits, s.baseWithin? steps t = some (kind, bits)
        ∧ .ofKind kind = shape := by
  rw [shapeWithin_eq_iff hBase.ne_other]
  simp only [WireType.ownShape_eq_iff hBase, baseWithin?_eq_some_iff]
  constructor
  · rintro ⟨n, u, hNear, hLeads, kind, bits, rfl, hKind⟩
    exact ⟨kind, bits, ⟨n, hNear, hLeads⟩, hKind⟩
  · rintro ⟨kind, bits, ⟨n, hNear, hLeads⟩, hKind⟩
    exact ⟨n, _, hNear, hLeads, kind, bits, rfl, hKind⟩

/- The kind of the base type behind a type tells its shape. -/
theorem shapeOf_eq_iff_kind
    {shape : Shape}
    (hBase : shape.IsOfBase) :
    s.shapeOf t = shape ↔
      ∃ kind, (s.baseBehind? t).map Prod.fst = some kind
        ∧ .ofKind kind = shape := by
  unfold shapeOf baseBehind?
  rw [shapeWithin_eq_iff_baseWithin? hBase,
    maxShapeSteps_eq_maxBaseSteps]
  simp only [Option.map_eq_some_iff, Prod.exists,
    exists_and_right, exists_eq_right]

/- Both searches stop at a last type that is near enough. -/
theorem shapeOf_of_last
    {n : Nat}
    {u : WireType}
    (hNear : n < maxShapeSteps)
    (hLeads : s.LeadsTo n t u)
    (hLast : s.IsLast u) : s.shapeOf t = u.ownShape := by
  rcases shapeOf_of_leadsTo hLeads hLast with hOther | hOwn
  · by_cases hNone : u.ownShape = .other
    · rw [hOther, hNone]
    · exact (shapeWithin_eq_iff hNone).mpr ⟨n, u, hNear, hLeads, rfl⟩
  · exact hOwn

theorem baseBehind?_of_last
    {n bits : Nat}
    {u : WireType}
    {kind : BaseKind}
    (hNear : n < maxBaseSteps)
    (hLeads : s.LeadsTo n t u)
    (hLast : s.IsLast u) :
    s.baseBehind? t = some (kind, bits) ↔ u = .base kind bits := by
  unfold baseBehind?
  rw [baseWithin?_eq_some_iff]
  constructor
  · rintro ⟨m, -, hBase⟩
    exact (hLeads.unique hLast hBase isLast_base).2
  · rintro rfl
    exact ⟨n, hNear, hLeads⟩

/- Without such a type, neither search finds anything. -/
theorem nothing_of_no_last
    (hNone : ∀ n u, n < maxShapeSteps → s.LeadsTo n t u →
      ¬s.IsLast u) :
    s.shapeOf t = .other ∧ s.baseBehind? t = none := by
  constructor
  · apply Decidable.byContradiction
    intro hShape
    rcases (shapeWithin_eq_iff hShape).mp rfl with
      ⟨n, u, hNear, hLeads, hOwn⟩
    apply hNone n u hNear hLeads
    apply isLast_of_ownShape
    rw [hOwn]
    exact hShape
  · apply Option.eq_none_iff_forall_ne_some.mpr
    rintro ⟨kind, bits⟩ hFound
    rcases baseWithin?_eq_some_iff.mp hFound with
      ⟨n, hNear, hLeads⟩
    rw [← maxShapeSteps_eq_maxBaseSteps] at hNear
    exact hNone n _ hNear hLeads isLast_base

/-
  A type has the shape of a text exactly if the base type
  behind it is one, that of a whole number if it is an integer
  with or without a sign, and so on for the other numbers and
  the truth values.

  The searches for shape and base type stop at the same type,
  the last one of a row of synonyms.  If the row is longer than
  they go, or runs in a circle, neither finds anything.
-/
theorem shapeOf_iff_baseBehind? (s : Schema) (t : WireType) :
    (s.shapeOf t = .text ↔
        (s.baseBehind? t).map Prod.fst = some .string)
      ∧ (s.shapeOf t = .number true ↔
        (s.baseBehind? t).map Prod.fst = some .int
          ∨ (s.baseBehind? t).map Prod.fst = some .uint)
      ∧ (s.shapeOf t = .number false ↔
        (s.baseBehind? t).map Prod.fst = some .float)
      ∧ (s.shapeOf t = .bool ↔
        (s.baseBehind? t).map Prod.fst = some .bool)
      ∧ (∀ n u, n < maxShapeSteps → s.LeadsTo n t u →
        s.IsLast u →
          s.shapeOf t = u.ownShape
            ∧ ∀ kind bits, s.baseBehind? t = some (kind, bits) ↔
              u = .base kind bits)
      ∧ ((∀ n u, n < maxShapeSteps → s.LeadsTo n t u →
          ¬s.IsLast u) →
        s.shapeOf t = .other ∧ s.baseBehind? t = none) := by
  have hShape : ∀ shape : Shape, shape.IsOfBase →
      (s.shapeOf t = shape ↔
        ∃ kind, (s.baseBehind? t).map Prod.fst = some kind
          ∧ .ofKind kind = shape) :=
    fun _ => shapeOf_eq_iff_kind
  have hStop : ∀ n u, n < maxShapeSteps → s.LeadsTo n t u →
      s.IsLast u →
        s.shapeOf t = u.ownShape
          ∧ ∀ kind bits, s.baseBehind? t = some (kind, bits) ↔
            u = .base kind bits :=
    fun _ _ hNear hLeads hLast =>
      ⟨shapeOf_of_last hNear hLeads hLast,
        fun _ _ => baseBehind?_of_last
          (maxShapeSteps_eq_maxBaseSteps ▸ hNear) hLeads hLast⟩
  rw [hShape .text trivial, hShape (.number true) trivial,
    hShape (.number false) trivial, hShape .bool trivial]
  refine ⟨?_, ?_, ?_, ?_, hStop, nothing_of_no_last⟩
  all_goals
    cases (s.baseBehind? t).map Prod.fst with
    | none => simp
    | some kind => cases kind <;> simp [Shape.ofKind]

/- A pointer to a number, and a name that stands for a pointer
   to itself. -/
def countDecl : SynonymDecl WireType :=
  { id := { name := "Count" }, target := .pointer (.base .uint 16) }

def loopDecl : SynonymDecl WireType :=
  { id := { name := "Loop" }
    target := .pointer (.reference { name := "Loop" }) }

def synonymSchema : Schema :=
  { types := [.synonym countDecl, .synonym loopDecl] }

theorem find?_loop :
    synonymSchema.find? loopDecl.id = some (.synonym loopDecl) :=
  rfl

theorem eq_of_leadsTo_loop
    {n : Nat}
    {u : WireType}
    (hTarget : t.target = .reference loopDecl.id)
    (h : synonymSchema.LeadsTo n t u) :
    u = .reference loopDecl.id := by
  induction h with
  | here => exact hTarget
  | through hName hFound _ ih =>
      rw [hTarget] at hName
      cases hName
      rw [find?_loop] at hFound
      cases hFound
      exact ih rfl

theorem shapeOf_iff_baseBehind?_synonyms :
    synonymSchema.shapeOf (.reference countDecl.id) = .number true
      ∧ synonymSchema.baseBehind? (.reference countDecl.id) =
        some (.uint, 16)
      ∧ synonymSchema.shapeOf (.reference loopDecl.id) = .other
      ∧ synonymSchema.baseBehind? (.reference loopDecl.id) =
        none := by
  have hCount : synonymSchema.find? countDecl.id =
      some (.synonym countDecl) := rfl
  have hNear :=
    (shapeOf_iff_baseBehind? synonymSchema
      (.reference countDecl.id)).2.2.2.2.1 1 (.base .uint 16)
      (by decide) (.through rfl hCount (.here countDecl.target))
      isLast_base
  have hEndless : ∀ n u, n < maxShapeSteps →
      synonymSchema.LeadsTo n (.reference loopDecl.id) u →
        ¬synonymSchema.IsLast u := by
    intro n u _ hLeads hLast
    exact hLast _ _ (eq_of_leadsTo_loop rfl hLeads) find?_loop
  have hNone :=
    (shapeOf_iff_baseBehind? synonymSchema
      (.reference loopDecl.id)).2.2.2.2.2 hEndless
  exact ⟨hNear.1, (hNear.2 .uint 16).mpr rfl, hNone⟩

end Schema

end WireSchema
