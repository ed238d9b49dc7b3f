import WireSchema.Rules.Field

/-
  Rules whose bound leaves the words of 64 bits.

  Only `gt` counts a bound up, and only on lengths.  A field
  has no effects exactly when one of its rules does so at the
  greatest word.

  Key definitions include:
    * `Rule.Overflows`
    * `Schema.fieldEffects?_eq_none_iff`
-/

namespace WireSchema

------------------------------------------------------------
-- Rules
------------------------------------------------------------

/-
  A rule asks for a length above the greatest word, or above
  a number that is taken for it.
-/
structure Rule.Overflows (r : Rule) (shape : Shape) : Prop where
  name : r.name = "gt"
  sized : shape = .text ∨ shape = .array
  bound :
    ∃ p x, r.param = some p
      ∧ Binary64.ofText? p.toList = some x
      ∧ x.isNegative = false ∧ x.isWhole = true
      ∧ x.toNatClamped = maxWord

/- Of all bounds on lengths one alone overflows. -/
theorem lengthBound_eq_overflow_iff
    {name : String}
    {n : Nat}
    (hWord : n ≤ maxWord) :
    lengthBound name n = .overflow ↔
      name = "gt" ∧ n = maxWord := by
  by_cases hName : name = "gt"
  · subst hName
    have hBound : n < maxWord ↔ ¬n = maxWord := by omega
    unfold lengthBound
    simp [hBound]
  · have hNot : lengthBound name n ≠ .overflow := by
      unfold lengthBound
      rw [if_neg hName]
      split
      · exact nofun
      · split
        · exact nofun
        · split
          · exact nofun
          · split
            · exact nofun
            · exact nofun
    exact iff_of_false hNot (fun h => hName h.1)

/- Only a text with something in it is a number. -/
theorem nonempty_of_ofText?
    {p : String}
    {x : Binary64}
    (h : Binary64.ofText? p.toList = some x) :
    p.isEmpty = false := by
  cases hEmpty : p.isEmpty with
  | false => rfl
  | true =>
      rw [String.isEmpty_iff] at hEmpty
      subst hEmpty
      cases h

/- The effect of a bound on the lengths of a shape. -/
theorem boundEffect_of_sized
    {name p : String}
    {x : Binary64}
    {shape : Shape}
    (hSized : shape = .text ∨ shape = .array)
    (hRead : Binary64.ofText? p.toList = some x) :
    boundEffect name (some p) shape =
      if x.isNegative || !x.isWhole then
        .unsupported ("invalid length " ++ p)
      else lengthBound name x.toNatClamped := by
  have hSome := nonempty_of_ofText? hRead
  unfold boundEffect
  rcases hSized with rfl | rfl
  · simp only [hSome, hRead, Bool.false_eq_true, if_false]
  · simp only [hSome, hRead, Bool.false_eq_true, if_false]

/- Nothing else than the length of a text or array overflows. -/
theorem sized_of_boundEffect_eq_overflow
    {name : String}
    {param : Option String}
    {shape : Shape}
    (h : boundEffect name param shape = .overflow) :
    (shape = .text ∨ shape = .array)
      ∧ ∃ p x, param = some p
        ∧ Binary64.ofText? p.toList = some x := by
  unfold boundEffect at h
  split at h
  · cases h
  · next p =>
      split at h
      · cases h
      · split at h
        · cases h
        · next x hRead =>
            refine ⟨?_, p, x, rfl, hRead⟩
            split at h
            · cases h
            · exact .inl rfl
            · exact .inr rfl
            · cases h

theorem boundEffect_eq_overflow_iff
    {name : String}
    {param : Option String}
    {shape : Shape} :
    boundEffect name param shape = .overflow ↔
      Rule.Overflows { name, param } shape := by
  constructor
  · intro h
    rcases sized_of_boundEffect_eq_overflow h with
      ⟨hSized, p, x, rfl, hRead⟩
    rw [boundEffect_of_sized hSized hRead] at h
    split at h
    · cases h
    · next hLength =>
        simp only [Bool.or_eq_true, not_or, Bool.not_eq_true',
          Bool.not_eq_true, Bool.not_eq_false] at hLength
        have hMax := (lengthBound_eq_overflow_iff
          x.toNatClamped_le_maxWord).mp h
        exact ⟨hMax.1, hSized, p, x, rfl, hRead, hLength.1,
          hLength.2, hMax.2⟩
  · rintro ⟨hName, hSized, p, x, hParam, hRead, hSign, hWhole,
      hMax⟩
    dsimp only at hName hParam
    subst hName hParam
    rw [boundEffect_of_sized hSized hRead, hSign, hWhole]
    exact (lengthBound_eq_overflow_iff
      x.toNatClamped_le_maxWord).mpr ⟨rfl, hMax⟩

theorem onText_ne_overflow (shape : Shape) (c : Refinement) :
    RuleEffect.onText shape c ≠ .overflow := by
  cases shape <;> exact nofun

theorem oneOfEffect_ne_overflow
    (param : Option String)
    (shape : Shape) : oneOfEffect param shape ≠ .overflow := by
  unfold oneOfEffect
  split
  · exact nofun
  · dsimp only
    split
    · exact nofun
    · split
      · exact nofun
      · split
        · exact nofun
        · exact nofun
      · exact nofun

theorem partEffect_ne_overflow
    (f : String → Refinement)
    (param : Option String)
    (shape : Shape) : partEffect f param shape ≠ .overflow := by
  unfold partEffect
  split
  · exact nofun
  · exact nofun

/- The effect of a bound is that of the table for bounds. -/
theorem Rule.effect_of_mem_boundNames
    {r : Rule}
    (hName : r.name ∈ boundNames)
    (shape : Shape) :
    r.effect shape = boundEffect r.name r.param shape := by
  have hNames : ∀ name ∈ boundNames,
      passedOver.contains name = false
        ∧ name ≠ "required" := by
    decide
  rcases hNames r.name hName with ⟨hPassed, hRequired⟩
  unfold Rule.effect
  rw [hPassed, if_neg Bool.false_ne_true, if_neg hRequired,
    if_pos (List.contains_iff_mem.mpr hName)]

/- The effect of a rule overflows exactly when the rule does. -/
theorem Rule.effect_eq_overflow_iff
    {r : Rule}
    {shape : Shape} :
    r.effect shape = .overflow ↔ r.Overflows shape := by
  by_cases hBound : boundNames.contains r.name = true
  · rw [Rule.effect_of_mem_boundNames (by simpa using hBound)]
    exact boundEffect_eq_overflow_iff
  · apply iff_of_false
    · unfold Rule.effect
      rw [if_neg hBound]
      split
      · exact nofun
      · split
        · split
          · exact nofun
          · exact nofun
        · split
          · exact oneOfEffect_ne_overflow _ _
          · split
            · exact onText_ne_overflow _ _
            · split
              · exact onText_ne_overflow _ _
              · split
                · exact onText_ne_overflow _ _
                · split
                  · exact partEffect_ne_overflow _ _ _
                  · split
                    · exact partEffect_ne_overflow _ _ _
                    · split
                      · exact partEffect_ne_overflow _ _ _
                      · exact nofun
    · intro h
      apply hBound
      rw [h.name]
      decide

------------------------------------------------------------
-- Fields
------------------------------------------------------------

theorem FieldEffects.add?_eq_none_iff
    {owner field flavor : String}
    {shape : Shape}
    {x : FieldEffects}
    {r : Rule} :
    FieldEffects.add? owner field flavor shape x r = none ↔
      r.Overflows shape := by
  rw [← Rule.effect_eq_overflow_iff]
  unfold FieldEffects.add?
  cases r.effect shape <;> simp

/- Rules one after the other, of which the first ends all. -/
theorem foldlM_add?_eq_none_iff
    {owner field flavor : String}
    {shape : Shape}
    {x : FieldEffects}
    {rules : List Rule} :
    rules.foldlM (FieldEffects.add? owner field flavor shape) x
        = none ↔
      ∃ r ∈ rules, r.Overflows shape := by
  induction rules generalizing x with
  | nil => simp
  | cons r rest ih =>
      rw [List.foldlM_cons]
      cases hAdd :
          FieldEffects.add? owner field flavor shape x r with
      | none =>
          exact iff_of_true rfl ⟨r, List.mem_cons_self,
            FieldEffects.add?_eq_none_iff.mp hAdd⟩
      | some y =>
          have hFirst : ¬r.Overflows shape := by
            intro hOver
            rw [FieldEffects.add?_eq_none_iff.mpr hOver] at hAdd
            cases hAdd
          have hRest :
              (∃ q ∈ r :: rest, q.Overflows shape) ↔
                ∃ q ∈ rest, q.Overflows shape := by
            simp [hFirst]
          rw [hRest]
          exact ih

/- A field whose rules ask for more than a length can be. -/
def Schema.Overflows (s : Schema) (f : Field WireType) :
    Prop :=
  ∃ r ∈ fieldRules f.rules, r.Overflows (s.shapeOf f.type)

theorem Schema.fieldEffects?_eq_none_iff
    {s : Schema}
    {owner flavor : String}
    {f : Field WireType} :
    s.fieldEffects? owner f flavor = none ↔
      s.Overflows f := by
  unfold Schema.fieldEffects? Schema.Overflows
  split
  · next hEmpty =>
      rw [String.isEmpty_iff] at hEmpty
      rw [hEmpty]
      have hNone : fieldRules "" = [] := by decide
      simp [hNone]
  · exact foldlM_add?_eq_none_iff

end WireSchema
