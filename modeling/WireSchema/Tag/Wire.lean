import WireSchema.Tag.Basic

/-
  What the tag of a field says about its wire form.

  Key definitions include:
    * `WireTag`, `WireTag.parse`
    * `FieldFacts`, `FieldFacts.ofTag`
    * `FieldFacts.apply`
-/

namespace WireSchema

------------------------------------------------------------
-- The Wire Tag
------------------------------------------------------------

/- The value of a tag's `json` key. -/
structure WireTag where
  name : Option String := none
  omitEmpty : Bool := false
  asString : Bool := false
  skip : Bool := false
  deriving DecidableEq, Repr, Inhabited

namespace WireTag

/- Add what one option says; unknown options say nothing. -/
def addOption (t : WireTag) (opt : List Char) : WireTag :=
  let name := String.ofList (Text.trim opt)
  if name == "omitempty" || name == "omitzero" then
    { t with omitEmpty := true }
  else if name == "string" then { t with asString := true }
  else t

/-
  Read the value: a hyphen alone skips the field, otherwise a
  name that may be empty and options follow each other.
-/
def parse (value : String) : WireTag :=
  if value = "-" then { skip := true }
  else
    match Text.splitEvery ',' value.toList with
    | [] => {}
    | name :: opts =>
        let start : WireTag :=
          if name.isEmpty then {}
          else { name := some (String.ofList name) }
        opts.foldl addOption start

end WireTag

------------------------------------------------------------
-- The Facts of a Field
------------------------------------------------------------

structure FieldFacts where
  wire : WireTag := {}
  rules : String := ""
  deriving DecidableEq, Repr, Inhabited

namespace FieldFacts

/- Rules stand under `validate`, or else under `binding`. -/
def ofTag (raw : String) : FieldFacts :=
  let tag := FieldTag.parse raw
  let rules :=
    match tag.get? "validate" with
    | some r => r
    | none => (tag.get? "binding").getD ""
  { wire := ((tag.get? "json").map WireTag.parse).getD {}
    rules }

/-
  A field with the facts of its tag.  A field that is
  optional already stays so.
-/
def apply {τ : Type} (x : FieldFacts) (f : Field τ) : Field τ :=
  { f with
    wireName := x.wire.name.getD f.wireName
    optional := f.optional || x.wire.omitEmpty
    stringEncoded := x.wire.asString
    skip := x.wire.skip
    rules := x.rules }

end FieldFacts

end WireSchema
