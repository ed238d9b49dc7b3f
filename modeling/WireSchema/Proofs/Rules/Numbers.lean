import WireSchema.Proofs.Number.Digits
import WireSchema.Proofs.Rules.Overflow
import WireSchema.Validator.Valibot
import WireSchema.Validator.Zod

/-
  The numbers in bounds and in lists of values.

  A bound on a length is a word, unless it overflows.  A bound
  on values and the values of a list are the numbers that the
  parameter reads as, and these may be infinite or no number
  at all.  All others are written as numerals.

  Key definitions include:
    * `RuleEffect.numbers`, `RuleEffect.numerals`
    * `Rule.BoundsByNonFinite`, `Rule.ListsNonFinite`
    * `Rule.numbers_wellFormed_iff`
-/

namespace WireSchema

------------------------------------------------------------
-- Numbers and Numerals
------------------------------------------------------------

/- The number that values are compared with. -/
def Refinement.number? : Refinement → Option Binary64
  | .min x | .max x | .greaterThan x | .lessThan x => some x
  | _ => none

/- The number that values or lengths are compared with. -/
def Refinement.numeral? : Refinement → Option String
  | .minLength n | .maxLength n | .length n => some (toString n)
  | .min x | .max x | .greaterThan x | .lessThan x =>
      some x.positionalText
  | _ => none

def Literal.number? : Literal → Option Binary64
  | .float x => some x
  | _ => none

def Literal.numeral? : Literal → Option String
  | .text _ => none
  | .int n => some (toString n)
  | .float x => some x.positionalText

namespace RuleEffect

/- The numbers in bounds on values and in lists. -/
def numbers : RuleEffect → List Binary64
  | .refine conditions => conditions.filterMap Refinement.number?
  | .oneOf values => values.filterMap Literal.number?
  | _ => []

/- All numbers as they are written, those of lengths too. -/
def numerals : RuleEffect → List String
  | .refine conditions => conditions.filterMap Refinement.numeral?
  | .oneOf values => values.filterMap Literal.numeral?
  | _ => []

end RuleEffect

theorem Refinement.isNumeral_iff (c : Refinement) :
    (∀ t, c.numeral? = some t → IsNumeral t) ↔
      ∀ x, c.number? = some x → x.isFinite = true := by
  cases c with
  | minLength n | maxLength n | length n =>
      refine iff_of_true ?_ nofun
      rintro t ⟨⟩
      exact isNumeral_toString n
  | min x | max x | greaterThan x | lessThan x =>
      simp [numeral?, number?, Binary64.isNumeral_positionalText_iff]
  | _ => simp [numeral?, number?]

theorem Literal.isNumeral_iff (v : Literal) :
    (∀ t, v.numeral? = some t → IsNumeral t) ↔
      ∀ x, v.number? = some x → x.isFinite = true := by
  cases v with
  | text s => simp [numeral?, number?]
  | int n =>
      refine iff_of_true ?_ nofun
      rintro t ⟨⟩
      exact isNumeral_toString_int n
  | float x =>
      simp [numeral?, number?, Binary64.isNumeral_positionalText_iff]

/- What is written are numerals if the numbers are finite. -/
theorem RuleEffect.numerals_iff (e : RuleEffect) :
    (∀ t ∈ e.numerals, IsNumeral t) ↔
      ∀ x ∈ e.numbers, x.isFinite = true := by
  have hLift : ∀ {α : Type} (items : List α)
      (numeral? : α → Option String)
      (number? : α → Option Binary64),
      (∀ a, (∀ t, numeral? a = some t → IsNumeral t) ↔
        ∀ x, number? a = some x → x.isFinite = true) →
      ((∀ t ∈ items.filterMap numeral?, IsNumeral t) ↔
        ∀ x ∈ items.filterMap number?, x.isFinite = true) := by
    intro α items numeral? number? hEach
    simp only [List.mem_filterMap, forall_exists_index, and_imp]
    constructor
    · intro h x a hMem hx
      exact (hEach a).mp (fun t ht => h t a hMem ht) x hx
    · intro h t a hMem ht
      exact (hEach a).mpr (fun x hx => h x a hMem hx) t ht
  cases e with
  | refine conditions =>
      exact hLift _ _ _ Refinement.isNumeral_iff
  | oneOf values => exact hLift _ _ _ Literal.isNumeral_iff
  | _ => exact iff_of_true nofun nofun

/- Both dialects write a numeral as the argument of a call. -/
theorem Refinement.text_of_numeral?
    {c : Refinement}
    {t : String}
    (h : c.numeral? = some t) :
    ∃ f g, Zod.refinement c = callText f [t]
      ∧ Valibot.refinement c = callText g [t] := by
  cases c with
  | minLength n | maxLength n | length n =>
      cases h
      exact ⟨_, _, rfl, rfl⟩
  | min x | max x | greaterThan x | lessThan x =>
      cases h
      exact ⟨_, _, rfl, rfl⟩
  | _ => cases h

------------------------------------------------------------
-- Bounds
------------------------------------------------------------

theorem mem_numbers_valueBound
    (name : String)
    (x y : Binary64) :
    y ∈ (RuleEffect.refine (valueBound name x)).numbers ↔
      y = x := by
  change y ∈ (valueBound name x).filterMap Refinement.number? ↔ _
  unfold valueBound
  split
  · simp [Refinement.number?, eq_comm]
  · split
    · simp [Refinement.number?, eq_comm]
    · split
      · simp [Refinement.number?, eq_comm]
      · split
        · simp [Refinement.number?, eq_comm]
        · simp [Refinement.number?, eq_comm]

theorem numbers_lengthBound (name : String) (n : Nat) :
    (lengthBound name n).numbers = [] := by
  unfold lengthBound
  split
  · rfl
  · split
    · rfl
    · split
      · rfl
      · split
        · split
          · rfl
          · rfl
        · split
          · rfl
          · rfl

/- The number of a bound is the one that its parameter reads as. -/
theorem mem_numbers_boundEffect_iff
    {name : String}
    {param : Option String}
    {shape : Shape}
    {x : Binary64} :
    x ∈ (boundEffect name param shape).numbers ↔
      (∃ integer, shape = .number integer)
        ∧ ∃ p, param = some p
          ∧ Binary64.ofText? p.toList = some x := by
  constructor
  · intro h
    unfold boundEffect at h
    split at h
    · cases h
    · next p =>
        split at h
        · cases h
        · split at h
          · cases h
          · next y hRead =>
              split at h
              · cases (mem_numbers_valueBound ..).mp h
                exact ⟨⟨_, rfl⟩, p, rfl, hRead⟩
              · split at h
                · cases h
                · rw [numbers_lengthBound] at h
                  cases h
              · split at h
                · cases h
                · rw [numbers_lengthBound] at h
                  cases h
              · cases h
  · rintro ⟨⟨integer, rfl⟩, p, rfl, hRead⟩
    unfold boundEffect
    simp only [nonempty_of_ofText? hRead, hRead,
      Bool.false_eq_true, if_false]
    exact (mem_numbers_valueBound ..).mpr rfl

theorem numeral?_of_mem_valueBound
    {name : String}
    {x : Binary64}
    {c : Refinement}
    (h : c ∈ valueBound name x) :
    c.numeral? = some x.positionalText := by
  unfold valueBound at h
  split at h
  · cases List.mem_singleton.mp h
    rfl
  · split at h
    · cases List.mem_singleton.mp h
      rfl
    · split at h
      · rcases List.mem_cons.mp h with rfl | hRest
        · rfl
        · cases List.mem_singleton.mp hRest
          rfl
      · split at h
        · cases List.mem_singleton.mp h
          rfl
        · cases List.mem_singleton.mp h
          rfl

theorem numeral?_of_mem_lengthBound
    {name : String}
    {n : Nat}
    {conditions : List Refinement}
    {c : Refinement}
    (h : lengthBound name n = .refine conditions)
    (hMem : c ∈ conditions) :
    ∃ k : Nat, c.numeral? = some (toString k) := by
  unfold lengthBound at h
  split at h
  · cases h
    cases List.mem_singleton.mp hMem
    exact ⟨_, rfl⟩
  · split at h
    · cases h
      cases List.mem_singleton.mp hMem
      exact ⟨_, rfl⟩
    · split at h
      · cases h
        cases List.mem_singleton.mp hMem
        exact ⟨_, rfl⟩
      · split at h
        · split at h
          · cases h
            cases List.mem_singleton.mp hMem
            exact ⟨_, rfl⟩
          · cases h
        · split at h
          · cases h
          · cases h
            cases List.mem_singleton.mp hMem
            exact ⟨_, rfl⟩

/- Every refinement of a bound compares with something. -/
theorem numeral?_of_boundEffect
    {name : String}
    {param : Option String}
    {shape : Shape}
    {conditions : List Refinement}
    {c : Refinement}
    (h : boundEffect name param shape = .refine conditions)
    (hMem : c ∈ conditions) : ∃ t, c.numeral? = some t := by
  unfold boundEffect at h
  split at h
  · cases h
  · split at h
    · cases h
    · split at h
      · cases h
      · split at h
        · cases h
          exact ⟨_, numeral?_of_mem_valueBound hMem⟩
        · split at h
          · cases h
          · rcases numeral?_of_mem_lengthBound h hMem with ⟨k, hk⟩
            exact ⟨_, hk⟩
        · split at h
          · cases h
          · rcases numeral?_of_mem_lengthBound h hMem with ⟨k, hk⟩
            exact ⟨_, hk⟩
        · cases h

------------------------------------------------------------
-- Lists
------------------------------------------------------------

/- Words have numbers if each of them has one. -/
theorem readNumbers_ok_iff
    {integer : Bool}
    {words : List String} :
    (∃ values, readNumbers integer words = .ok values) ↔
      ∀ w ∈ words, ∃ v, readNumber? integer w = some v := by
  induction words with
  | nil => exact iff_of_true ⟨[], rfl⟩ nofun
  | cons w rest ih =>
      rw [readNumbers, List.forall_mem_cons, ← ih]
      cases hRead : readNumber? integer w with
      | none => simp
      | some v =>
          cases readNumbers integer rest with
          | error bad => simp [Except.map]
          | ok values => simp [Except.map]

theorem mem_readNumbers_iff
    {integer : Bool}
    {words : List String}
    {values : List Literal}
    {v : Literal}
    (h : readNumbers integer words = .ok values) :
    v ∈ values ↔ ∃ w ∈ words, readNumber? integer w = some v := by
  induction words generalizing values with
  | nil =>
      cases h
      exact iff_of_false nofun nofun
  | cons w rest ih =>
      rw [readNumbers] at h
      cases hRead : readNumber? integer w with
      | none =>
          rw [hRead] at h
          cases h
      | some u =>
          rw [hRead] at h
          cases hRest : readNumbers integer rest with
          | error bad =>
              rw [hRest] at h
              cases h
          | ok others =>
              rw [hRest] at h
              cases h
              simp only [List.mem_cons, exists_eq_or_imp, hRead,
                Option.some_inj, ih hRest, eq_comm (a := u)]

theorem oneOfEffect_ne_refine
    (param : Option String)
    (shape : Shape)
    (conditions : List Refinement) :
    oneOfEffect param shape ≠ .refine conditions := by
  unfold oneOfEffect
  split
  · exact nofun
  · dsimp only
    split
    · exact nofun
    · split
      · exact nofun
      · split
        · exact nofun
        · exact nofun
      · exact nofun

/- Only numbers with fractions are read as such numbers. -/
theorem readNumber?_eq_float_iff
    {integer : Bool}
    {w : String}
    {x : Binary64} :
    readNumber? integer w = some (.float x) ↔
      integer = false ∧ Binary64.ofText? w.toList = some x := by
  cases integer with
  | true => simp [readNumber?]
  | false => simp [readNumber?]

theorem mem_filterMap_number?_iff
    {values : List Literal}
    {x : Binary64} :
    x ∈ values.filterMap Literal.number? ↔ .float x ∈ values := by
  rw [List.mem_filterMap]
  constructor
  · rintro ⟨v, hMem, hNumber⟩
    cases v with
    | float y =>
        cases hNumber
        exact hMem
    | _ => cases hNumber
  · intro hMem
    exact ⟨_, hMem, rfl⟩

/- A list whose words are read. -/
theorem oneOfEffect_number
    {p : String}
    {integer : Bool}
    {values : List Literal}
    (hRead : readNumbers integer (listedWords p) = .ok values)
    (hSome : values ≠ []) :
    oneOfEffect (some p) (.number integer) = .oneOf values := by
  unfold oneOfEffect
  dsimp only
  split
  · next hEmpty =>
      rw [List.isEmpty_iff.mp hEmpty] at hRead
      cases hRead
      exact absurd rfl hSome
  · rw [hRead]

/-
  A list has such numbers for numbers with fractions, if every
  word reads as one.
-/
theorem mem_numbers_oneOfEffect_iff
    {param : Option String}
    {shape : Shape}
    {x : Binary64} :
    x ∈ (oneOfEffect param shape).numbers ↔
      shape = .number false
        ∧ ∃ p, param = some p
          ∧ (∀ w ∈ listedWords p, ∃ y,
            Binary64.ofText? w.toList = some y)
          ∧ ∃ w ∈ listedWords p,
            Binary64.ofText? w.toList = some x := by
  constructor
  · intro h
    unfold oneOfEffect at h
    split at h
    · cases h
    · next p =>
        dsimp only at h
        split at h
        · cases h
        · split at h
          · -- the words of a text are no numbers
            rcases List.mem_map.mp (mem_filterMap_number?_iff.mp h)
              with ⟨w, -, hFloat⟩
            cases hFloat
          · split at h
            · next integer _ values hRead =>
                have hFloat := mem_filterMap_number?_iff.mp h
                rcases (mem_readNumbers_iff hRead).mp hFloat with
                  ⟨w, hWord, hx⟩
                rcases readNumber?_eq_float_iff.mp hx with
                  ⟨rfl, hValue⟩
                refine ⟨rfl, p, rfl, ?_, w, hWord, hValue⟩
                intro u hu
                rcases readNumbers_ok_iff.mp ⟨values, hRead⟩ u hu
                  with ⟨v, hv⟩
                rcases Option.map_eq_some_iff.mp hv with ⟨y, hy, -⟩
                exact ⟨y, hy⟩
            · cases h
          · cases h
  · rintro ⟨rfl, p, rfl, hAll, w, hWord, hx⟩
    have hEach : ∀ u ∈ listedWords p,
        ∃ v, readNumber? false u = some v := by
      intro u hu
      rcases hAll u hu with ⟨y, hy⟩
      exact ⟨_, readNumber?_eq_float_iff.mpr ⟨rfl, hy⟩⟩
    rcases readNumbers_ok_iff.mpr hEach with ⟨values, hRead⟩
    have hFloat := (mem_readNumbers_iff hRead).mpr
      ⟨w, hWord, readNumber?_eq_float_iff.mpr ⟨rfl, hx⟩⟩
    rw [oneOfEffect_number hRead (List.ne_nil_of_mem hFloat)]
    exact mem_filterMap_number?_iff.mpr hFloat

------------------------------------------------------------
-- Rules
------------------------------------------------------------

/- A bound on numbers that is infinite or no number. -/
structure Rule.BoundsByNonFinite (r : Rule) (shape : Shape) :
    Prop where
  name : r.name ∈ boundNames
  number : ∃ integer, shape = .number integer
  bound :
    ∃ p x, r.param = some p
      ∧ Binary64.ofText? p.toList = some x
      ∧ x.isFinite = false

/- A list of numbers of which one is infinite or none at all. -/
structure Rule.ListsNonFinite (r : Rule) (shape : Shape) :
    Prop where
  name : r.name = "oneof"
  number : shape = .number false
  values :
    ∃ p, r.param = some p
      ∧ (∀ w ∈ listedWords p, ∃ y,
        Binary64.ofText? w.toList = some y)
      ∧ ∃ w ∈ listedWords p, ∃ x,
        Binary64.ofText? w.toList = some x
          ∧ x.isFinite = false

theorem Rule.effect_of_oneof
    {r : Rule}
    (hName : r.name = "oneof")
    (shape : Shape) :
    r.effect shape = oneOfEffect r.param shape := by
  have hOthers : passedOver.contains "oneof" = false
      ∧ "oneof" ≠ "required"
      ∧ boundNames.contains "oneof" = false := by
    decide
  unfold Rule.effect
  rw [hName, hOthers.1, if_neg Bool.false_ne_true,
    if_neg hOthers.2.1, hOthers.2.2,
    if_neg Bool.false_ne_true, if_pos rfl]

/- The numbers of a rule are finite unless it says otherwise. -/
theorem Rule.numbers_finite_iff
    {r : Rule}
    (hName : r.name ∈ boundNames ∨ r.name = "oneof")
    (shape : Shape) :
    (∀ x ∈ (r.effect shape).numbers, x.isFinite = true) ↔
      ¬(r.BoundsByNonFinite shape ∨ r.ListsNonFinite shape) := by
  have hSome :
      (∃ x ∈ (r.effect shape).numbers, x.isFinite = false) ↔
        r.BoundsByNonFinite shape ∨ r.ListsNonFinite shape := by
    rcases hName with hBound | hList
    · have hNot : r.name ≠ "oneof" := by
        intro hSame
        rw [hSame] at hBound
        revert hBound
        decide
      rw [effect_of_mem_boundNames hBound]
      simp only [mem_numbers_boundEffect_iff]
      constructor
      · rintro ⟨x, ⟨hNumber, p, hParam, hRead⟩, hx⟩
        exact .inl ⟨hBound, hNumber, p, x, hParam, hRead, hx⟩
      · rintro (⟨-, hNumber, p, x, hParam, hRead, hx⟩ | hOther)
        · exact ⟨x, ⟨hNumber, p, hParam, hRead⟩, hx⟩
        · exact absurd hOther.name hNot
    · have hNot : r.name ∉ boundNames := by
        rw [hList]
        decide
      rw [effect_of_oneof hList]
      simp only [mem_numbers_oneOfEffect_iff]
      constructor
      · rintro ⟨x, ⟨hNumber, p, hParam, hAll, w, hWord, hRead⟩, hx⟩
        exact .inr ⟨hList, hNumber, p, hParam, hAll, w, hWord, x,
          hRead, hx⟩
      · rintro (hOther | ⟨-, hNumber, p, hParam, hAll, w, hWord, x,
          hRead, hx⟩)
        · exact absurd hOther.name hNot
        · exact ⟨x, ⟨hNumber, p, hParam, hAll, w, hWord, hRead⟩, hx⟩
  rw [← hSome]
  simp

/-
  The numbers of a bound or a list are finite and written as
  numerals, unless the bound is on a length and overflows, or
  the parameter reads as something infinite or as no number.
  Each refinement is a call with its numeral, and each value
  that is no text is written as its numeral.
-/
theorem Rule.numbers_wellFormed_iff
    {r : Rule}
    (hName : r.name ∈ boundNames ∨ r.name = "oneof")
    (shape : Shape) :
    ((r.effect shape ≠ .overflow
        ∧ ∀ x ∈ (r.effect shape).numbers, x.isFinite = true) ↔
      ¬(r.Overflows shape ∨ r.BoundsByNonFinite shape
        ∨ r.ListsNonFinite shape))
      ∧ ((r.effect shape ≠ .overflow
          ∧ ∀ t ∈ (r.effect shape).numerals, IsNumeral t) ↔
        ¬(r.Overflows shape ∨ r.BoundsByNonFinite shape
          ∨ r.ListsNonFinite shape))
      ∧ (∀ conditions, r.effect shape = .refine conditions →
        ∀ c ∈ conditions, ∃ t ∈ (r.effect shape).numerals,
          ∃ f g, Zod.refinement c = callText f [t]
            ∧ Valibot.refinement c = callText g [t])
      ∧ ∀ values, r.effect shape = .oneOf values →
        ∀ v ∈ values, v.isText = true
          ∨ v.code ∈ (r.effect shape).numerals := by
  have hFinite := numbers_finite_iff hName shape
  refine ⟨?numbers, ?numerals, ?refinements, ?values⟩
  case numbers =>
    rw [Ne, effect_eq_overflow_iff, hFinite]
    exact not_or.symm
  case numerals =>
    rw [Ne, effect_eq_overflow_iff, RuleEffect.numerals_iff,
      hFinite]
    exact not_or.symm
  case refinements =>
    intro conditions hEffect c hMem
    have hNumeral : ∃ t, c.numeral? = some t := by
      rcases hName with hBound | hList
      · rw [effect_of_mem_boundNames hBound] at hEffect
        exact numeral?_of_boundEffect hEffect hMem
      · rw [effect_of_oneof hList] at hEffect
        exact absurd hEffect (oneOfEffect_ne_refine _ _ _)
    rcases hNumeral with ⟨t, ht⟩
    refine ⟨t, ?_, Refinement.text_of_numeral? ht⟩
    rw [hEffect]
    exact List.mem_filterMap.mpr ⟨c, hMem, ht⟩
  case values =>
    intro values hEffect v hMem
    cases v with
    | text s => exact .inl rfl
    | int n | float x =>
        right
        rw [hEffect]
        exact List.mem_filterMap.mpr ⟨_, hMem, rfl⟩

/- A length above the greatest word, and infinite numbers. -/
theorem Rule.numbers_malformed :
    ({ name := "gt", param := some "18446744073709551615" } :
        Rule).effect .text = .overflow
      ∧ ({ name := "min", param := some "inf" } : Rule).effect
          (.number false) = .refine [.min (.infinite false)]
      ∧ Zod.refinement (.min (.infinite false)) = ".min(inf)"
      ∧ ¬IsNumeral (Binary64.infinite false).positionalText
      ∧ ({ name := "oneof", param := some "1 nan" } : Rule).effect
          (.number false) =
        .oneOf
          [.float (.finite false 0x10000000000000 (-52)),
            .float .nan]
      ∧ ¬IsNumeral Binary64.nan.positionalText := by
  refine ⟨by decide +kernel, by decide +kernel, by decide +kernel,
    ?_, by decide +kernel, ?_⟩
  · rw [Binary64.isNumeral_positionalText_iff]
    decide
  · rw [Binary64.isNumeral_positionalText_iff]
    decide

theorem Rule.numbers_wellFormed_len :
    "len" ∈ boundNames
      ∧ ({ name := "len", param := some "2.5" } : Rule).effect
          (.number false) =
        .refine
          [.min (.finite false 0x14000000000000 (-51)),
            .max (.finite false 0x14000000000000 (-51))]
      ∧ ¬(({ name := "len", param := some "2.5" } :
            Rule).Overflows (.number false)
          ∨ ({ name := "len", param := some "2.5" } :
            Rule).BoundsByNonFinite (.number false)
          ∨ ({ name := "len", param := some "2.5" } :
            Rule).ListsNonFinite (.number false)) := by
  have hEffect : ({ name := "len", param := some "2.5" } :
        Rule).effect (.number false) =
      .refine
        [.min (.finite false 0x14000000000000 (-51)),
          .max (.finite false 0x14000000000000 (-51))] := by
    decide +kernel
  have hName : "len" ∈ boundNames := by decide
  refine ⟨hName, hEffect, ?_⟩
  rcases numbers_wellFormed_iff
    (r := { name := "len", param := some "2.5" })
    (.inl hName) (.number false) with ⟨hFinite, -⟩
  apply hFinite.mp
  rw [hEffect]
  decide

end WireSchema
