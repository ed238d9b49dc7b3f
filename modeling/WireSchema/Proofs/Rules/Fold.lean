import WireSchema.Proofs.Rules.Overflow

/-
  The rules of a field as a fold over their effects.

  The rules in front of the first `dive` are gone through once.
  Their refinements stand one behind the other, the last list
  of literals counts, and each rule without an effect is
  reported.  So a rule that is passed over changes nothing, and
  neither does what stands behind a `dive`.

  Bounds on lengths are for texts and arrays, bounds on values
  for numbers, formats and patterns for texts.  So a field of
  another shape has no refinements and no list of literals.

  Key definitions include:
    * `Schema.refinementsOf`, `literalsOf?`, `findingsOf`
    * `Schema.fieldEffects?_eq_some_iff`
    * `Rule.parseAll_append`
    * `Refinement.Suits`, `RuleEffect.Suits`
    * `Rule.effect_suits`
-/

namespace WireSchema

------------------------------------------------------------
-- Parts of an Effect
------------------------------------------------------------

namespace RuleEffect

/- The conditions that an effect puts on values. -/
def refinements : RuleEffect → List Refinement
  | .refine conditions => conditions
  | _ => []

/- The literals that take the place of a type. -/
def literals? : RuleEffect → Option (List Literal)
  | .oneOf values => some values
  | _ => none

/- Why there is no effect. -/
def reason? : RuleEffect → Option String
  | .unsupported reason => some reason
  | _ => none

end RuleEffect

/- A rule of a field that has no effect, and why. -/
structure RuleFinding where
  owner : String
  field : String
  rule : Rule
  reason : String
  deriving DecidableEq, Repr, Inhabited

/- The warning about a finding in the file of a flavor. -/
def RuleFinding.warning
    (flavor : String)
    (x : RuleFinding) : Warning :=
  unsupportedRule x.owner x.field flavor x.rule x.reason

namespace Schema

variable (s : Schema)
variable (f : Field WireType)

/- The effect of a rule on the values of a field. -/
def effectOf (r : Rule) : RuleEffect :=
  r.effect (s.shapeOf f.type)

/- All conditions on the values of a field, in order. -/
def refinementsOf : List Refinement :=
  (fieldRules f.rules).flatMap fun r =>
    (s.effectOf f r).refinements

/- The last list of literals for a field. -/
def literalsOf? : Option (List Literal) :=
  ((fieldRules f.rules).filterMap fun r =>
    (s.effectOf f r).literals?).getLast?

/- The rules of a field that have no effect, in order. -/
def findingsOf (owner : String) : List RuleFinding :=
  (fieldRules f.rules).filterMap fun r =>
    (s.effectOf f r).reason?.map fun reason =>
      { owner, field := f.name, rule := r, reason }

end Schema

------------------------------------------------------------
-- The Fold
------------------------------------------------------------

namespace FieldEffects

variable {owner field flavor : String}
variable {shape : Shape}

/- The effects of rules, each one behind the other. -/
def ofRules
    (owner field flavor : String)
    (shape : Shape)
    (rules : List Rule) : FieldEffects :=
  { refinements := rules.flatMap fun r => (r.effect shape).refinements
    oneOf :=
      (rules.filterMap fun r => (r.effect shape).literals?).getLast?
    warnings :=
      rules.filterMap fun r =>
        (r.effect shape).reason?.map
          (unsupportedRule owner field flavor r) }

/- Effects behind others: of two literal lists the later one. -/
def append (x y : FieldEffects) : FieldEffects :=
  { refinements := x.refinements ++ y.refinements
    oneOf := y.oneOf.or x.oneOf
    warnings := x.warnings ++ y.warnings }

theorem append_assoc (x y z : FieldEffects) :
    (x.append y).append z = x.append (y.append z) := by
  simp [append, List.append_assoc, Option.or_assoc]

theorem ofRules_cons (r : Rule) (rest : List Rule) :
    ofRules owner field flavor shape (r :: rest) =
      (ofRules owner field flavor shape [r]).append
        (ofRules owner field flavor shape rest) := by
  have hSplit : r :: rest = [r] ++ rest := rfl
  rw [hSplit]
  simp only [ofRules, append, List.flatMap_append,
    List.filterMap_append, List.getLast?_append]

/- One step adds the effects of its rule. -/
theorem add?_of_not_overflows
    {r : Rule}
    (h : ¬r.Overflows shape)
    (x : FieldEffects) :
    add? owner field flavor shape x r =
      some (x.append (ofRules owner field flavor shape [r])) := by
  rw [← Rule.effect_eq_overflow_iff] at h
  unfold add? ofRules append
  cases hEffect : r.effect shape with
  | overflow => exact absurd hEffect h
  | _ =>
      simp [hEffect, RuleEffect.refinements,
        RuleEffect.literals?, RuleEffect.reason?]

/- All steps add the effects of all rules. -/
theorem foldlM_add?_of_not_overflows
    {rules : List Rule}
    (h : ∀ r ∈ rules, ¬r.Overflows shape)
    (x : FieldEffects) :
    rules.foldlM (add? owner field flavor shape) x =
      some (x.append (ofRules owner field flavor shape rules)) := by
  induction rules generalizing x with
  | nil => simp [ofRules, append]
  | cons r rest ih =>
      rw [List.forall_mem_cons] at h
      rw [List.foldlM_cons, add?_of_not_overflows h.1,
        ofRules_cons r rest, ← append_assoc]
      exact ih h.2 _

end FieldEffects

namespace Schema

variable {s : Schema}
variable {f : Field WireType}
variable {owner flavor : String}

/- A tag without rules is no exception. -/
theorem fieldEffects?_eq_foldlM :
    s.fieldEffects? owner f flavor =
      (fieldRules f.rules).foldlM
        (FieldEffects.add? owner f.name flavor
          (s.shapeOf f.type)) {} := by
  unfold fieldEffects?
  split
  · next hEmpty =>
      rw [String.isEmpty_iff] at hEmpty
      have hNone : fieldRules "" = [] := by decide
      rw [hEmpty, hNone]
      rfl
  · rfl

/-
  A field has effects unless one of its rules overflows, and
  then they are those of its rules in order.
-/
theorem fieldEffects?_eq_some_iff {effects : FieldEffects} :
    s.fieldEffects? owner f flavor = some effects ↔
      ¬s.Overflows f
        ∧ effects =
          { refinements := s.refinementsOf f
            oneOf := s.literalsOf? f
            warnings :=
              (s.findingsOf f owner).map
                (RuleFinding.warning flavor) } := by
  by_cases hOver : s.Overflows f
  · rw [fieldEffects?_eq_none_iff.mpr hOver]
    simp [hOver]
  · have hNone : ∀ r ∈ fieldRules f.rules,
        ¬r.Overflows (s.shapeOf f.type) := by
      intro r hr hRule
      exact hOver ⟨r, hr, hRule⟩
    have hWarnings :
        (s.findingsOf f owner).map (RuleFinding.warning flavor) =
          (FieldEffects.ofRules owner f.name flavor
            (s.shapeOf f.type) (fieldRules f.rules)).warnings := by
      unfold findingsOf FieldEffects.ofRules
      rw [List.map_filterMap]
      simp only [Option.map_map]
      rfl
    rw [fieldEffects?_eq_foldlM,
      FieldEffects.foldlM_add?_of_not_overflows hNone, hWarnings]
    simp [hOver, FieldEffects.append, FieldEffects.ofRules,
      refinementsOf, literalsOf?, effectOf, eq_comm]

end Schema

------------------------------------------------------------
-- Rules of a Tag
------------------------------------------------------------

/- A comma divides the rules of a tag. -/
theorem Rule.parseAll_append (a b : String) :
    Rule.parseAll (a ++ "," ++ b) =
      Rule.parseAll a ++ Rule.parseAll b := by
  have hComma : ",".toList = [','] := rfl
  unfold Rule.parseAll
  rw [String.toList_append, String.toList_append, hComma,
    List.append_assoc, List.singleton_append,
    Text.splitEvery_append]
  simp only [List.map_append, List.filter_append]

/- What stands behind a `dive` is no rule of the field. -/
theorem takeWhile_append_cons_of_neg
    {α : Type}
    {p : α → Bool}
    {a : α}
    (h : p a = false)
    (xs ys : List α) :
    (xs ++ a :: ys).takeWhile p = xs.takeWhile p := by
  induction xs with
  | nil => simp [h]
  | cons x xs ih =>
      rw [List.cons_append, List.takeWhile_cons,
        List.takeWhile_cons, ih]

/-
  An element that ends nothing stands among those in front of
  the end, or behind the end.
-/
theorem takeWhile_insert
    {α : Type}
    {p : α → Bool}
    {a : α}
    (h : p a = true)
    (xs ys : List α) :
    (xs ++ a :: ys).takeWhile p = (xs ++ ys).takeWhile p
      ∨ ∃ zs, (xs ++ a :: ys).takeWhile p = xs ++ a :: zs
        ∧ (xs ++ ys).takeWhile p = xs ++ zs := by
  induction xs with
  | nil => exact .inr ⟨ys.takeWhile p, by simp [h], rfl⟩
  | cons x xs ih =>
      by_cases hx : p x = true
      · rcases ih with hSame | ⟨zs, hInserted, hPlain⟩
        · left
          simp [hx, hSame]
        · right
          exact ⟨zs, by simp [hx, hInserted], by simp [hx, hPlain]⟩
      · left
        simp [hx]

------------------------------------------------------------
-- Rules Without Effect
------------------------------------------------------------

/- What one tag makes of a field, and what another one does. -/
def Field.withRules
    (f : Field WireType)
    (tag : String) : Field WireType :=
  { f with rules := tag }

namespace Schema

variable {s : Schema}
variable {f : Field WireType}
variable {tag : String}

/- A rule that is passed over may stand anywhere. -/
theorem fieldEffects?_insert
    {before after : List Rule}
    {r : Rule}
    (hRules : Rule.parseAll f.rules = before ++ after)
    (hTag : Rule.parseAll tag = before ++ r :: after)
    (hPassed : s.effectOf f r = .passOver)
    (hDive : r.name ≠ "dive")
    (owner flavor : String) :
    s.fieldEffects? owner (f.withRules tag) flavor =
      s.fieldEffects? owner f flavor := by
  have hAdd : ∀ x, FieldEffects.add? owner f.name flavor
      (s.shapeOf f.type) x r = some x := by
    intro x
    unfold effectOf at hPassed
    unfold FieldEffects.add?
    rw [hPassed]
  have hInsert := takeWhile_insert
    (p := fun q : Rule => q.name != "dive") (a := r)
    (by simpa using hDive) before after
  rw [fieldEffects?_eq_foldlM, fieldEffects?_eq_foldlM]
  unfold Field.withRules fieldRules
  dsimp only
  rw [hRules, hTag]
  rcases hInsert with hSame | ⟨rest, hInserted, hPlain⟩
  · rw [hSame]
  · rw [hInserted, hPlain, List.foldlM_append, List.foldlM_append]
    simp only [List.foldlM_cons, hAdd]
    rfl

/- Behind a `dive` there may stand anything. -/
theorem fieldEffects?_behind
    {before after more : List Rule}
    {r : Rule}
    (hRules : Rule.parseAll f.rules = before ++ r :: after)
    (hTag : Rule.parseAll tag = before ++ r :: more)
    (hDive : r.name = "dive")
    (owner flavor : String) :
    s.fieldEffects? owner (f.withRules tag) flavor =
      s.fieldEffects? owner f flavor := by
  have hEnds := takeWhile_append_cons_of_neg
    (p := fun q : Rule => q.name != "dive") (a := r)
    (by simp [hDive])
  rw [fieldEffects?_eq_foldlM, fieldEffects?_eq_foldlM]
  unfold Field.withRules fieldRules
  dsimp only
  rw [hRules, hTag, hEnds, hEnds]

end Schema

------------------------------------------------------------
-- Refinements
------------------------------------------------------------

/- A condition that values of a shape can meet or miss. -/
def Refinement.Suits : Refinement → Shape → Prop
  | .minLength _, shape => shape = .text ∨ shape = .array
  | .maxLength _, shape => shape = .text ∨ shape = .array
  | .length _, shape => shape = .text ∨ shape = .array
  | .min _, shape => ∃ integer, shape = .number integer
  | .max _, shape => ∃ integer, shape = .number integer
  | .greaterThan _, shape => ∃ integer, shape = .number integer
  | .lessThan _, shape => ∃ integer, shape = .number integer
  | .integer, shape => ∃ integer, shape = .number integer
  | .nonNegative, shape => ∃ integer, shape = .number integer
  | .format _, shape => shape = .text
  | .pattern _, shape => shape = .text
  | .startsWith _, shape => shape = .text
  | .endsWith _, shape => shape = .text
  | .contains _, shape => shape = .text

/- An effect that values of a shape can have. -/
def RuleEffect.Suits (shape : Shape) : RuleEffect → Prop
  | .refine conditions => ∀ c ∈ conditions, c.Suits shape
  | .oneOf _ => shape = .text ∨ ∃ integer, shape = .number integer
  | _ => True

/- Only texts, arrays and numbers are refined. -/
theorem Refinement.Suits.cases
    {c : Refinement}
    {shape : Shape}
    (h : c.Suits shape) :
    shape = .text ∨ shape = .array
      ∨ ∃ integer, shape = .number integer := by
  cases c with
  | minLength n | maxLength n | length n =>
      exact h.imp_right .inl
  | min x | max x | greaterThan x | lessThan x =>
      exact .inr (.inr h)
  | integer | nonNegative => exact .inr (.inr h)
  | _ => exact .inl h

------------------------------------------------------------
-- Effects
------------------------------------------------------------

variable {shape : Shape}

theorem valueBound_suits
    {name : String}
    {x : Binary64}
    {integer : Bool}
    {c : Refinement}
    (h : c ∈ valueBound name x) : c.Suits (.number integer) := by
  unfold valueBound at h
  split at h
  · cases List.mem_singleton.mp h
    exact ⟨integer, rfl⟩
  · split at h
    · cases List.mem_singleton.mp h
      exact ⟨integer, rfl⟩
    · split at h
      · rcases List.mem_cons.mp h with rfl | hRest
        · exact ⟨integer, rfl⟩
        · cases List.mem_singleton.mp hRest
          exact ⟨integer, rfl⟩
      · split at h
        · cases List.mem_singleton.mp h
          exact ⟨integer, rfl⟩
        · cases List.mem_singleton.mp h
          exact ⟨integer, rfl⟩

theorem lengthBound_suits
    {name : String}
    {n : Nat}
    (hSized : shape = .text ∨ shape = .array) :
    (lengthBound name n).Suits shape := by
  unfold lengthBound
  split
  · exact List.forall_mem_singleton.mpr hSized
  · split
    · exact List.forall_mem_singleton.mpr hSized
    · split
      · exact List.forall_mem_singleton.mpr hSized
      · split
        · split
          · exact List.forall_mem_singleton.mpr hSized
          · trivial
        · split
          · trivial
          · exact List.forall_mem_singleton.mpr hSized

theorem boundEffect_suits
    (name : String)
    (param : Option String) :
    (boundEffect name param shape).Suits shape := by
  unfold boundEffect
  split
  · trivial
  · split
    · trivial
    · split
      · trivial
      · split
        · exact fun c hc => valueBound_suits hc
        · split
          · trivial
          · exact lengthBound_suits (.inl rfl)
        · split
          · trivial
          · exact lengthBound_suits (.inr rfl)
        · trivial

theorem oneOfEffect_suits (param : Option String) :
    (oneOfEffect param shape).Suits shape := by
  unfold oneOfEffect
  split
  · trivial
  · dsimp only
    split
    · trivial
    · split
      · exact .inl rfl
      · split
        · exact .inr ⟨_, rfl⟩
        · trivial
      · trivial

theorem onText_suits
    {c : Refinement}
    (h : c.Suits .text) : (RuleEffect.onText shape c).Suits shape := by
  cases shape with
  | text => exact List.forall_mem_singleton.mpr h
  | _ => trivial

theorem partEffect_suits
    {f : String → Refinement}
    (h : ∀ part, (f part).Suits .text)
    (param : Option String) :
    (partEffect f param shape).Suits shape := by
  unfold partEffect
  split
  · exact List.forall_mem_singleton.mpr (h _)
  · trivial

/- What a rule does to values of a shape suits the shape. -/
theorem Rule.effect_suits (r : Rule) (shape : Shape) :
    (r.effect shape).Suits shape := by
  unfold Rule.effect
  split
  · trivial
  split
  · split
    · exact List.forall_mem_singleton.mpr (.inl rfl)
    · exact List.forall_mem_nil _
  split
  · exact boundEffect_suits _ _
  split
  · exact oneOfEffect_suits _
  split
  · exact onText_suits rfl
  split
  · exact onText_suits rfl
  split
  · exact onText_suits rfl
  split
  · exact partEffect_suits (f := .startsWith) (fun _ => rfl) _
  split
  · exact partEffect_suits (f := .endsWith) (fun _ => rfl) _
  split
  · exact partEffect_suits (f := .contains) (fun _ => rfl) _
  · trivial

------------------------------------------------------------
-- Fields
------------------------------------------------------------

namespace Schema

variable {s : Schema}
variable {f : Field WireType}

/- The refinements of a field suit its values. -/
theorem refinementsOf_suit
    {c : Refinement}
    (h : c ∈ s.refinementsOf f) : c.Suits (s.shapeOf f.type) := by
  rcases List.mem_flatMap.mp h with ⟨r, -, hc⟩
  have hSuits := r.effect_suits (s.shapeOf f.type)
  unfold effectOf at hc
  cases hEffect : r.effect (s.shapeOf f.type) with
  | refine conditions =>
      rw [hEffect] at hc hSuits
      exact hSuits c hc
  | _ =>
      rw [hEffect] at hc
      cases hc

/- Only texts and numbers are listed. -/
theorem shapeOf_of_literalsOf?
    {values : List Literal}
    (h : s.literalsOf? f = some values) :
    s.shapeOf f.type = .text
      ∨ ∃ integer, s.shapeOf f.type = .number integer := by
  have hMem := List.mem_of_getLast? h
  rcases List.mem_filterMap.mp hMem with ⟨r, -, hValues⟩
  have hSuits := r.effect_suits (s.shapeOf f.type)
  unfold effectOf at hValues
  cases hEffect : r.effect (s.shapeOf f.type) with
  | oneOf listed =>
      rw [hEffect] at hSuits
      exact hSuits
  | _ =>
      rw [hEffect] at hValues
      cases hValues

/- Only texts, arrays and numbers are refined. -/
theorem shapeOf_of_refinementsOf
    (h : s.refinementsOf f ≠ []) :
    s.shapeOf f.type = .text ∨ s.shapeOf f.type = .array
      ∨ ∃ integer, s.shapeOf f.type = .number integer := by
  rcases List.exists_mem_of_ne_nil _ h with ⟨c, hc⟩
  exact (refinementsOf_suit hc).cases

/- A field without a shape has no effects. -/
theorem refinementsOf_of_other
    (h : s.shapeOf f.type = .other) : s.refinementsOf f = [] := by
  apply List.eq_nil_iff_forall_not_mem.mpr
  intro c hc
  rcases (refinementsOf_suit hc).cases with hText | hArray | ⟨i, hi⟩
  · rw [h] at hText
    cases hText
  · rw [h] at hArray
    cases hArray
  · rw [h] at hi
    cases hi

theorem literalsOf?_of_other
    (h : s.shapeOf f.type = .other) : s.literalsOf? f = none := by
  cases hValues : s.literalsOf? f with
  | none => rfl
  | some values =>
      rcases shapeOf_of_literalsOf? hValues with hText | ⟨i, hNumber⟩
      · rw [h] at hText
        cases hText
      · rw [h] at hNumber
        cases hNumber

end Schema

end WireSchema
