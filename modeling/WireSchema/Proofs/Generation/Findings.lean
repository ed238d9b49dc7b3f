import WireSchema.Proofs.Rules.Fold
import WireSchema.Proofs.Validator.Rendering

/-
  The warnings of a run.

  Which rules have no effect is decided by the schema alone; a
  dialect only puts its name into the warnings.  So the runs of
  two dialects raise the same warnings in the same order, or
  neither of them has a result.

  Key definitions include:
    * `EmitScope.findings`, `Schema.findings`
    * `Schema.validatorProgram_rename`
    * `Schema.rules_folded`
-/

namespace WireSchema

------------------------------------------------------------
-- Findings of a Schema
------------------------------------------------------------

/- The rules without effect of what a declaration sends. -/
def EmitScope.findings (x : EmitScope) :
    WireType → List RuleFinding
  | .record r =>
      match x.name r.id with
      | .ok owner =>
          (r.fields.filter fun f => !f.skip).flatMap fun f =>
            x.schema.findingsOf f owner
      | .error _ => []
  | _ => []

/- The rules without effect in the order of emission. -/
def Schema.findings (s : Schema) (o : EmitOptions) :
    List RuleFinding :=
  let x := EmitScope.ofSchema s o
  (s.emitOrder x.names).flatMap x.findings

namespace Dialect

variable {x : EmitScope}
variable {d : Dialect}
variable {warnings : List Warning}

theorem warnings_fieldEntry
    {owner entry : String}
    {f : Field WireType}
    (h : d.fieldEntry x owner f = (.ok entry, warnings)) :
    warnings =
      (x.schema.findingsOf f owner).map
        (RuleFinding.warning d.name) := by
  unfold fieldEntry fieldSchema at h
  dsimp only at h
  cases hEffects : x.schema.fieldEffects? owner f d.name with
  | none =>
      rw [hEffects] at h
      cases (Prod.mk.inj h).1
  | some effects =>
      rw [hEffects] at h
      rw [← (Prod.mk.inj h).2,
        (Schema.fieldEffects?_eq_some_iff.mp hEffects).2]

theorem warnings_fieldEntries
    {owner : String}
    {fields : List (Field WireType)}
    {entries : List String}
    (h : d.fieldEntries x owner fields = (.ok entries, warnings)) :
    warnings =
      (fields.flatMap fun f => x.schema.findingsOf f owner).map
        (RuleFinding.warning d.name) := by
  induction fields generalizing entries warnings with
  | nil => exact (Prod.mk.inj h).2.symm
  | cons f rest ih =>
      rw [fieldEntries] at h
      split at h
      · cases (Prod.mk.inj h).1
      · next entry own hEntry =>
          dsimp only at h
          cases hRest : d.fieldEntries x owner rest with
          | mk found more =>
              rw [hRest] at h
              cases found with
              | error e => cases (Prod.mk.inj h).1
              | ok others =>
                  rw [← (Prod.mk.inj h).2, ih hRest,
                    warnings_fieldEntry hEntry,
                    List.flatMap_cons, List.map_append]

theorem warnings_declaration
    {t : WireType}
    {text : String}
    (h : d.declaration x t = (.ok text, warnings)) :
    warnings = (x.findings t).map (RuleFinding.warning d.name) := by
  cases t with
  | record r =>
      have h : d.recordSchema x r = (.ok text, warnings) := h
      unfold recordSchema at h
      unfold EmitScope.findings
      dsimp only
      cases hOwner : x.name r.id with
      | error e =>
          rw [hOwner] at h
          cases (Prod.mk.inj h).1
      | ok owner =>
          rw [hOwner] at h
          cases hParents : r.parents.mapM x.name with
          | error e =>
              rw [hParents] at h
              cases (Prod.mk.inj h).1
          | ok parents =>
              rw [hParents] at h
              cases hEntries : d.fieldEntries x owner
                  (r.fields.filter fun f => !f.skip) with
              | mk found own =>
                  dsimp only [bind, Except.bind] at h
                  rw [hEntries] at h
                  cases found with
                  | error e => cases (Prod.mk.inj h).1
                  | ok entries =>
                      cases (Prod.mk.inj h).2
                      exact warnings_fieldEntries hEntries
  | synonym s => exact (Prod.mk.inj h).2.symm
  | enum e => exact (Prod.mk.inj h).2.symm
  | _ => exact (Prod.mk.inj h).2.symm

end Dialect

namespace EmitScope

/- What has been written does not change what is found. -/
theorem findings_markEmitted
    (x : EmitScope)
    (id : TypeName) :
    (x.markEmitted id).findings = x.findings := by
  funext t
  cases t with
  | _ => rfl

theorem findings_of_id?_eq_none
    {x : EmitScope}
    {t : WireType}
    (h : t.id? = none) : x.findings t = [] := by
  cases t with
  | record r => cases h
  | _ => rfl

/- The warnings of what is written, one behind the other. -/
theorem warnings_writeAll
    {x : EmitScope}
    {d : Dialect}
    {ts : List WireType}
    {w : Written}
    (h : x.writeAll d.declaration ts = .ok w) :
    w.warnings =
      (ts.flatMap x.findings).map
        (RuleFinding.warning d.name) := by
  induction ts generalizing x w with
  | nil =>
      cases h
      rfl
  | cons t rest ih =>
      rw [List.flatMap_cons, List.map_append]
      rw [writeAll] at h
      cases hId : t.id? with
      | none =>
          rw [hId] at h
          rw [findings_of_id?_eq_none hId]
          exact ih h
      | some id =>
          rw [hId] at h
          dsimp only at h
          cases hWritten : d.declaration x t with
          | mk found own =>
              rw [hWritten] at h
              cases found with
              | error e => cases h
              | ok text =>
                  rcases eq_ok_of_bind h with ⟨more, hMore, h⟩
                  cases h
                  dsimp only
                  rw [ih hMore, findings_markEmitted,
                    Dialect.warnings_declaration hWritten]

------------------------------------------------------------
-- The Name of a Flavor
------------------------------------------------------------

theorem entryOf_rename
    (x : EmitScope)
    (flavor other owner : String)
    (f : Field WireType) :
    x.entryOf other owner f = x.entryOf flavor owner f := by
  unfold entryOf
  dsimp only
  by_cases hOver : x.schema.Overflows f
  · rw [Schema.fieldEffects?_eq_none_iff.mpr hOver,
      Schema.fieldEffects?_eq_none_iff.mpr hOver]
  · rw [Schema.fieldEffects?_eq_some_iff.mpr ⟨hOver, rfl⟩,
      Schema.fieldEffects?_eq_some_iff.mpr ⟨hOver, rfl⟩]
    rfl

theorem statementOf_rename
    (x : EmitScope)
    (flavor other : String)
    (t : WireType) :
    x.statementOf other t = x.statementOf flavor t := by
  cases t with
  | record r =>
      have hEntry : ∀ owner,
          x.entryOf other owner = x.entryOf flavor owner := by
        intro owner
        funext f
        exact x.entryOf_rename flavor other owner f
      simp only [statementOf, hEntry]
  | _ => rfl

theorem statementsOf_rename
    (x : EmitScope)
    (flavor other : String)
    (ts : List WireType) :
    statementsOf other x ts = statementsOf flavor x ts := by
  induction ts generalizing x with
  | nil => rfl
  | cons t rest ih =>
      simp only [statementsOf, ih,
        x.statementOf_rename flavor other]

end EmitScope

/- A fault as another emitter reports it. -/
def EmissionFault.rename
    (emitter : String)
    (e : EmissionFault) : EmissionFault :=
  { e with emitter }

namespace Schema

variable {s : Schema}
variable {o : EmitOptions}

/- A program does not depend on the name of its flavor. -/
theorem validatorProgram_rename
    (s : Schema)
    (o : EmitOptions)
    (flavor other : String) :
    s.validatorProgram o other =
      (s.validatorProgram o flavor).mapError
        (EmissionFault.rename other) := by
  unfold validatorProgram
  dsimp only
  rw [EmitScope.statementsOf_rename _ flavor other]
  cases EmitScope.statementsOf flavor (.ofSchema s o)
      (s.emitOrder (EmitScope.ofSchema s o).names) with
  | error e => rfl
  | ok statements =>
      dsimp only [Except.mapError, bind, Except.bind]
      cases (s.services.flatMap Service.endpoints).mapM
          ((EmitScope.ofSchema s o).markAll
            (s.emitOrder (EmitScope.ofSchema s o).names)).rowOf with
      | error e => rfl
      | ok rows => rfl

theorem warnings_flavorFile
    {d : Dialect}
    {e : Emission}
    (h : s.flavorFile o d = .ok e) :
    e.warnings =
      (s.findings o).map (RuleFinding.warning d.name) := by
  unfold flavorFile OutputFlavor.complete at h
  rcases eq_ok_of_bind h with ⟨front, -, h⟩
  rcases eq_ok_of_bind h with ⟨w, hWritten, h⟩
  rcases eq_ok_of_bind h with ⟨table, -, h⟩
  cases h
  have hWarnings := EmitScope.warnings_writeAll
    (eq_ok_of_mapError hWritten)
  exact (List.append_nil w.warnings).trans hWarnings

/-
  Two dialects both have a file, or both have the same fault;
  the warnings of their files are about the same findings.
-/
theorem flavorFiles_alike
    (s : Schema)
    (o : EmitOptions)
    (d d' : Dialect) :
    (∃ e e', s.flavorFile o d = .ok e
        ∧ s.flavorFile o d' = .ok e'
        ∧ e.warnings =
          (s.findings o).map (RuleFinding.warning d.name)
        ∧ e'.warnings =
          (s.findings o).map (RuleFinding.warning d'.name))
      ∨ ∃ f, s.flavorFile o d = .error f
        ∧ s.flavorFile o d' = .error (f.rename d'.name) := by
  have hText := s.flavorFile_eq o d
  have hOther := s.flavorFile_eq o d'
  rw [s.validatorProgram_rename o d.name d'.name] at hOther
  cases hProgram : s.validatorProgram o d.name with
  | error f =>
      rw [hProgram] at hText hOther
      exact .inr ⟨f, eq_error_of_map hText, eq_error_of_map hOther⟩
  | ok p =>
      rw [hProgram] at hText hOther
      rcases eq_ok_of_map hText with ⟨e, hFile, -⟩
      rcases eq_ok_of_map hOther with ⟨e', hFile', -⟩
      exact .inl ⟨e, e', hFile, hFile', warnings_flavorFile hFile,
        warnings_flavorFile hFile'⟩

/-
  A field has the effects of its rules in front of the first
  `dive`, in the order of the tag, unless a rule overflows: all
  refinements, the last literals, and one warning that quotes
  each rule without effect.  A rule that is passed over, other
  than `dive` itself, changes nothing wherever it stands, and
  neither does what stands behind a `dive`.  So the two
  dialects warn about the same rules in the same order.
-/
theorem rules_folded (s : Schema) :
    (∀ a b, Rule.parseAll (a ++ "," ++ b) =
        Rule.parseAll a ++ Rule.parseAll b)
      ∧ (∀ owner f flavor effects,
        s.fieldEffects? owner f flavor = some effects ↔
          ¬s.Overflows f
            ∧ effects =
              { refinements := s.refinementsOf f
                oneOf := s.literalsOf? f
                warnings :=
                  (s.findingsOf f owner).map
                    (RuleFinding.warning flavor) })
      ∧ (∀ flavor (x : RuleFinding),
        (x.warning flavor).message =
          x.owner ++ "." ++ x.field ++ ": validation rule \""
            ++ x.rule.text ++ "\" is not supported by " ++ flavor
            ++ " (" ++ x.reason ++ ")")
      ∧ (∀ owner flavor f tag before after r,
        Rule.parseAll f.rules = before ++ after →
        Rule.parseAll tag = before ++ r :: after →
        s.effectOf f r = .passOver →
        r.name ≠ "dive" →
        s.fieldEffects? owner (f.withRules tag) flavor =
          s.fieldEffects? owner f flavor)
      ∧ (∀ owner flavor f tag before after more r,
        Rule.parseAll f.rules = before ++ r :: after →
        Rule.parseAll tag = before ++ r :: more →
        r.name = "dive" →
        s.fieldEffects? owner (f.withRules tag) flavor =
          s.fieldEffects? owner f flavor)
      ∧ ∀ o,
        (∃ e e', s.flavorFile o Dialect.zod = .ok e
            ∧ s.flavorFile o Dialect.valibot = .ok e'
            ∧ e.warnings =
              (s.findings o).map (RuleFinding.warning "zod")
            ∧ e'.warnings =
              (s.findings o).map (RuleFinding.warning "valibot"))
          ∨ ∃ f, s.flavorFile o Dialect.zod = .error f
            ∧ s.flavorFile o Dialect.valibot =
              .error (f.rename "valibot") := by
  refine ⟨Rule.parseAll_append, ?effects, ?texts, ?inserted,
    ?behind, ?runs⟩
  case effects =>
    intro owner f flavor effects
    exact fieldEffects?_eq_some_iff
  case texts =>
    intro flavor x
    rfl
  case inserted =>
    intro owner flavor f tag before after r hRules hTag hPassed hDive
    exact fieldEffects?_insert hRules hTag hPassed hDive owner flavor
  case behind =>
    intro owner flavor f tag before after more r hRules hTag hDive
    exact fieldEffects?_behind hRules hTag hDive owner flavor
  case runs =>
    intro o
    exact s.flavorFiles_alike o .zod .valibot

/- A field with texts under a tag. -/
def textField (rules : String) : Field WireType :=
  { name := "Nick"
    type := .base .string 0
    wireName := "nick"
    rules }

theorem rules_folded_omitempty :
    Rule.parseAll "required,frob,dive,email" =
        [{ name := "required" }]
          ++ [{ name := "frob" }, { name := "dive" },
            { name := "email" }]
      ∧ Rule.parseAll "required,omitempty,frob,dive,email" =
        [{ name := "required" }]
          ++ { name := "omitempty" }
            :: [{ name := "frob" }, { name := "dive" },
              { name := "email" }]
      ∧ ({} : Schema).effectOf
          (textField "required,frob,dive,email")
          { name := "omitempty" } = .passOver
      ∧ ({} : Schema).fieldEffects? "User"
          ((textField "required,frob,dive,email").withRules
            "required,omitempty,frob,dive,email") "zod" =
        ({} : Schema).fieldEffects? "User"
          (textField "required,frob,dive,email") "zod"
      ∧ Rule.parseAll "required,frob,dive" =
        [{ name := "required" }, { name := "frob" }]
          ++ { name := "dive" } :: []
      ∧ ({} : Schema).fieldEffects? "User"
          ((textField "required,frob,dive,email").withRules
            "required,frob,dive") "zod" =
        ({} : Schema).fieldEffects? "User"
          (textField "required,frob,dive,email") "zod" := by
  rcases rules_folded {} with ⟨-, -, -, hInserted, hBehind, -⟩
  have hRules : Rule.parseAll "required,frob,dive,email" =
      [{ name := "required" }, { name := "frob" },
        { name := "dive" }, { name := "email" }] := by
    decide +kernel
  have hTag : Rule.parseAll "required,omitempty,frob,dive,email" =
      [{ name := "required" }, { name := "omitempty" },
        { name := "frob" }, { name := "dive" },
        { name := "email" }] := by
    decide +kernel
  have hShort : Rule.parseAll "required,frob,dive" =
      [{ name := "required" }, { name := "frob" },
        { name := "dive" }] := by
    decide +kernel
  have hPassed : ({} : Schema).effectOf
      (textField "required,frob,dive,email")
      { name := "omitempty" } = .passOver := by
    decide +kernel
  refine ⟨hRules, hTag, hPassed, ?_, hShort, ?_⟩
  · exact hInserted "User" "zod" _ _ [{ name := "required" }]
      _ _ hRules hTag hPassed (by decide)
  · exact hBehind "User" "zod" _ _
      [{ name := "required" }, { name := "frob" }] _ [] _
      hRules hShort rfl

/- A `dive` is passed over, but it ends the rules of a field. -/
theorem dive_endsRules :
    Rule.parseAll "dive,required" =
        { name := "dive" } :: Rule.parseAll "required"
      ∧ ({} : Schema).effectOf (textField "required")
          { name := "dive" } = .passOver
      ∧ ({} : Schema).fieldEffects? "User"
          (textField "required") "zod" =
        some { refinements := [.minLength 1] }
      ∧ ({} : Schema).fieldEffects? "User"
          ((textField "required").withRules "dive,required")
          "zod" = some {} := by
  refine ⟨?_, ?_, ?_, ?_⟩
  · decide +kernel
  · decide +kernel
  · decide +kernel
  · decide +kernel

end Schema

end WireSchema
