import WireSchema.Rules.Effect

/-
  The rules of a field together: refinements in the order of
  the rules, a list of literals, and a warning for each rule
  that is not supported.

  Key definitions include:
    * `FieldEffects`
    * `fieldRules`: the rules up to `dive`
    * `Schema.fieldEffects?`
-/

namespace WireSchema

structure FieldEffects where
  refinements : List Refinement := []
  oneOf : Option (List Literal) := none
  warnings : List Warning := []
  deriving DecidableEq, Repr, Inhabited

/- What stands behind `dive` is about elements. -/
def fieldRules (tag : String) : List Rule :=
  (Rule.parseAll tag).takeWhile fun r => r.name != "dive"

/- The warning about a rule without an effect. -/
def unsupportedRule
    (owner field flavor : String)
    (r : Rule)
    (reason : String) : Warning :=
  { kind := .unsupportedRule
    message :=
      owner ++ "." ++ field ++ ": validation rule \"" ++ r.text
        ++ "\" is not supported by " ++ flavor ++ " ("
        ++ reason ++ ")"
    typeName := some owner }

namespace FieldEffects

/- Add the effect of one rule, unless it overflows. -/
def add?
    (owner field flavor : String)
    (shape : Shape)
    (x : FieldEffects)
    (r : Rule) : Option FieldEffects :=
  match r.effect shape with
  | .refine rs =>
      some { x with refinements := x.refinements ++ rs }
  | .oneOf values => some { x with oneOf := some values }
  | .passOver => some x
  | .unsupported reason =>
      some
        { x with
          warnings :=
            x.warnings
              ++ [unsupportedRule owner field flavor r reason] }
  | .overflow => none

end FieldEffects

/-
  The effects of a field's rules.  There are none only when a
  bound overflows.
-/
def Schema.fieldEffects?
    (s : Schema)
    (owner : String)
    (f : Field WireType)
    (flavor : String) : Option FieldEffects :=
  if f.rules.isEmpty then some {}
  else
    let shape := s.shapeOf f.type
    (fieldRules f.rules).foldlM
      (FieldEffects.add? owner f.name flavor shape) {}

end WireSchema
