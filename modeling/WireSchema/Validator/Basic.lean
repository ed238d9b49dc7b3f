import WireSchema.Validator.Dialect
import WireSchema.Emit.Scope
import WireSchema.Rules.Field

/-
  Validators for the declarations of a schema.

  Which pieces a validator is made of is decided here, in the
  same way for every dialect: bounds of the base kinds,
  scalars that travel as text, rules, null and absence, and
  schemas that have to be looked up later.

  Key definitions include:
    * `intrinsicBounds`
    * `Schema.baseBehind?`
    * `Dialect.schemaFor`
    * `Dialect.fieldSchema`
    * `Dialect.declaration`
    * `Dialect.endpointTable`
-/

namespace WireSchema

/- The name of the schema constant of a type. -/
def schemaConstant (typeName : String) : String :=
  typeName ++ "Schema"

------------------------------------------------------------
-- Base Kinds
------------------------------------------------------------

/- The bounds that the kind and the width of a value imply. -/
def intrinsicBounds (kind : BaseKind) (bits : Nat) :
    List Refinement :=
  let narrow := 1 ≤ bits ∧ bits ≤ 32
  match kind with
  | .int =>
      if narrow then
        let half : Int := twoTo (bits - 1)
        [.integer, .min (.ofInt (-half)), .max (.ofInt (half - 1))]
      else [.integer]
  | .uint =>
      if narrow then
        let bound := Binary64.ofNat (twoTo bits - 1)
        [.integer, .nonNegative, .max bound]
      else [.integer, .nonNegative]
  | .duration => [.integer]
  | .time => [.format .datetime]
  | .bytes => [.format .base64]
  | _ => []

/- How many types are looked at on the way to a base type. -/
def maxBaseSteps : Nat := 16

/-
  The kind and the width of the base type behind pointers and
  synonyms, within a number of steps.
-/
def Schema.baseWithin? (s : Schema) :
    Nat → WireType → Option (BaseKind × Nat)
  | 0, _ => none
  | steps + 1, t =>
      match t.target with
      | .base kind bits => some (kind, bits)
      | .reference id =>
          match s.find? id with
          | some (.synonym d) => baseWithin? s steps d.target
          | _ => none
      | _ => none

def Schema.baseBehind? (s : Schema) (t : WireType) :
    Option (BaseKind × Nat) :=
  s.baseWithin? maxBaseSteps t

/- The base type behind a type, if it is a scalar. -/
def Schema.scalarBehind? (s : Schema) (t : WireType) :
    Option (BaseKind × Nat) :=
  (s.baseBehind? t).filter fun p => p.1.isScalar

/- Whether a name is an enumeration of texts alone. -/
def Schema.isTextEnum (s : Schema) (id : TypeName) : Bool :=
  match s.find? id with
  | some (.enum d) =>
      !d.members.isEmpty && d.members.all fun m => m.value.isText
  | _ => false

/- A literal as the text of a value in a string. -/
def Literal.onWire : Literal → Literal
  | .text s => .text s
  | .int n => .text (toString n)
  | .float x => .text x.positionalText

namespace Dialect

------------------------------------------------------------
-- Types
------------------------------------------------------------

/- The schema of a base kind with the bounds it implies. -/
def baseChain (d : Dialect) (kind : BaseKind) (bits : Nat) :
    Chain :=
  { base := d.base kind
    steps := (intrinsicBounds kind bits).map d.refinement }

/- The schema of an array; a fixed length is a refinement. -/
def arrayChain (d : Dialect) (elem : String) (len : Nat) :
    Chain :=
  { base := d.array elem
    steps :=
      if 0 < len then [d.refinement (.length len)] else [] }

/-
  The constant of a declared type.  A generic one is applied,
  and one that is declared later is deferred.
-/
def constantFor (d : Dialect) (x : EmitScope) (id : TypeName) :
    Except EmitError String := do
  let name ← x.name id
  let arity := x.arity id
  let constant := schemaConstant name
  let target :=
    if 0 < arity then d.applied constant arity else constant
  .ok (if x.isForward id then d.deferred target else target)

/- Whether the keys of a map are an enumeration of texts. -/
def hasTextEnumKeys (x : EmitScope) (key : WireType) : Bool :=
  match key.target with
  | .reference id => x.schema.isTextEnum id
  | _ => false

mutual

/- The schema of a type that is no declaration. -/
def schemaFor (d : Dialect) (x : EmitScope) :
    WireType → Except EmitError String
  | .base kind bits => .ok (d.finish (d.baseChain kind bits))
  | .array elem len => do
      let elem ← schemaFor d x elem
      .ok (d.finish (d.arrayChain elem len))
  | .map key value => do
      let key ←
        if hasTextEnumKeys x key then schemaFor d x key
        else .ok (d.base .string)
      let value ← schemaFor d x value
      .ok (d.map key value)
  | .reference id => d.constantFor x id
  | .pointer (.base .empty _) => .ok d.null
  | .pointer elem => do
      let elem ← schemaFor d x elem
      .ok (d.nullable elem)
  | .union members => do
      let parts ← schemasFor d x members
      .ok (d.union parts)
  | .param p => .ok p.name
  | .record r => .error (inlineError (.record r))
  | .synonym s => .error (inlineError (.synonym s))
  | .enum e => .error (inlineError (.enum e))

def schemasFor (d : Dialect) (x : EmitScope) :
    List WireType → Except EmitError (List String)
  | [] => .ok []
  | t :: rest => do
      let part ← schemaFor d x t
      let parts ← schemasFor d x rest
      .ok (part :: parts)

end

/- The schema of a type, open for further refinements. -/
def chainFor (d : Dialect) (x : EmitScope) (t : WireType) :
    Except EmitError Chain :=
  match t with
  | .base kind bits => .ok (d.baseChain kind bits)
  | .array elem len => do
      let elem ← d.schemaFor x elem
      .ok (d.arrayChain elem len)
  | t => do
      let base ← d.schemaFor x t
      .ok { base }

------------------------------------------------------------
-- Fields
------------------------------------------------------------

/-
  The schema of a scalar that travels as text.  What is no
  scalar is taken as a plain text.
-/
def parsedChain (d : Dialect) (x : EmitScope) (t : WireType) :
    Chain :=
  match x.schema.scalarBehind? t with
  | some (kind, bits) =>
      let parsed := d.parsed kind
      { parsed with
        steps :=
          parsed.steps
            ++ (intrinsicBounds kind bits).map d.refinement }
  | none => { base := d.base .string }

/- A set of literals that travel as text. -/
def parsedLiterals
    (d : Dialect)
    (x : EmitScope)
    (t : WireType)
    (values : List Literal) : String :=
  let wire := d.literals (values.map Literal.onWire)
  match x.schema.scalarBehind? t with
  | some (kind, _) =>
      if kind = .string then wire
      else d.checkThenParse wire (d.parsed kind)
  | none => wire

/-
  The schema of the values of a field.  A set of literals
  replaces the type and its refinements.
-/
def valueSchema
    (d : Dialect)
    (x : EmitScope)
    (f : Field WireType)
    (effects : FieldEffects) : Except EmitError String :=
  let t := f.type.target
  match effects.oneOf with
  | some values =>
      if f.stringEncoded then
        .ok (d.finish { base := d.parsedLiterals x t values })
      else .ok (d.finish { base := d.literals values })
  | none => do
      let chain ←
        if f.stringEncoded then .ok (d.parsedChain x t)
        else d.chainFor x t
      .ok
        (d.finish
          { chain with
            steps :=
              chain.steps
                ++ effects.refinements.map d.refinement })

/- Null and absence around the schema of the values. -/
def wrapValue
    (d : Dialect)
    (x : EmitScope)
    (f : Field WireType)
    (value : String) : String :=
  let isNullable := f.type.isPointer
  let value := if isNullable then d.nullable value else value
  if f.optional then
    let value :=
      if x.options.absentMark == .null && !isNullable then
        d.nullable value
      else value
    d.optional value
  else value

/-
  The schema of a field and the warnings about its rules.
  The warnings stand also when there is no schema.
-/
def fieldSchema
    (d : Dialect)
    (x : EmitScope)
    (owner : String)
    (f : Field WireType) :
    Except EmitError String × List Warning :=
  match x.schema.fieldEffects? owner f d.name with
  | none => (.error .overflow, [])
  | some effects =>
      ((d.valueSchema x f effects).map (d.wrapValue x f),
        effects.warnings)

/- The entry of a field in the schema of its record. -/
def fieldEntry
    (d : Dialect)
    (x : EmitScope)
    (owner : String)
    (f : Field WireType) :
    Except EmitError String × List Warning :=
  let note :=
    if f.stringEncoded then
      "// encoded as a JSON string on the wire\n"
    else ""
  let found := d.fieldSchema x owner f
  (found.1.map fun value =>
      x.memberComment f.doc "" ++ note
        ++ propertyKey f.wireName ++ ": " ++ value,
    found.2)

/- The entries of fields up to the first that has none. -/
def fieldEntries
    (d : Dialect)
    (x : EmitScope)
    (owner : String) :
    List (Field WireType) →
      Except EmitError (List String) × List Warning
  | [] => (.ok [], [])
  | f :: rest =>
      match d.fieldEntry x owner f with
      | (.error e, warnings) => (.error e, warnings)
      | (.ok entry, warnings) =>
          let more := fieldEntries d x owner rest
          (more.1.map (entry :: ·), warnings ++ more.2)

------------------------------------------------------------
-- Declarations
------------------------------------------------------------

/- The constant of a declaration, and its type if wanted. -/
def constantText
    (d : Dialect)
    (x : EmitScope)
    (id : TypeName)
    (params : List (TypeParam WireType))
    (doc : Doc)
    (body : String) : Except EmitError String := do
  let name ← x.name id
  let constant := schemaConstant name
  let comment := x.typeComment doc ""
  if params.isEmpty then
    let inferred :=
      if x.options.baseTypes then ""
      else
        "export type " ++ name ++ " = " ++ d.inferred constant
          ++ ";\n"
    .ok
      (comment ++ "export const " ++ constant ++ " = " ++ body
        ++ ";\n" ++ inferred)
  else
    let body := d.factory (params.map TypeParam.name) body
    .ok
      (comment ++ "export const " ++ constant ++ " = " ++ body
        ++ ";\n")

def recordSchema
    (d : Dialect)
    (x : EmitScope)
    (r : RecordDecl WireType) :
    Except EmitError String × List Warning :=
  let front : Except EmitError (String × List String) := do
    let owner ← x.name r.id
    let parents ← r.parents.mapM x.name
    .ok (owner, parents.map schemaConstant)
  match front with
  | .error e => (.error e, [])
  | .ok (owner, parents) =>
      let fields := r.fields.filter fun f => !f.skip
      let entries := d.fieldEntries x owner fields
      (do
          let entries ← entries.1
          d.constantText x r.id r.params r.doc
            (d.object parents entries),
        entries.2)

/- The validator of a declaration, and the warnings. -/
def declaration (d : Dialect) (x : EmitScope) :
    WireType → Except EmitError String × List Warning
  | .record r => d.recordSchema x r
  | .synonym s =>
      (do
          let body ← d.schemaFor x s.target
          d.constantText x s.id s.params s.doc body,
        [])
  | .enum e =>
      (d.constantText x e.id [] e.doc
          (d.literals (e.members.map EnumMember.value)),
        [])
  | t => (.error (.unsupported t.kindName), [])

------------------------------------------------------------
-- Files
------------------------------------------------------------

/- What stands in front of all declarations. -/
def preamble (d : Dialect) : String :=
  d.importLine ++ "\n"

/- The schemas of an endpoint's request and response. -/
def endpointEntry (d : Dialect) (x : EmitScope) (e : Endpoint) :
    Except EmitError String := do
  let request ←
    match e.request with
    | some t => d.schemaFor x t
    | none => .ok "null"
  let response ← d.schemaFor x e.response
  .ok
    ("  " ++ Text.quote e.fullName ++ ": \x7b request: "
      ++ request ++ ", response: " ++ response ++ " \x7d,\n")

/- The table of endpoints; without any there is none. -/
def endpointTable (d : Dialect) (x : EmitScope) :
    Except EmitError String :=
  let endpoints := x.schema.services.flatMap Service.endpoints
  if endpoints.isEmpty then .ok ""
  else do
    let entries ← endpoints.mapM (d.endpointEntry x)
    .ok
      ("export const endpoints = \x7b\n" ++ String.join entries
        ++ "\x7d as const;\n")

end Dialect

end WireSchema
