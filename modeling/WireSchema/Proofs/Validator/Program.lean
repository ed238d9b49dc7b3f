import WireSchema.Generation.Emission

/-
  The file of a dialect as a program.

  A program is a list of constants and a table of endpoints.
  Their expressions say which constants they mention, and
  whether a mention is deferred; the dialect only spells them.

  Key definitions include:
    * `SchemaTerm`, `SchemaTerm.eager`
    * `SchemaStatement`, `ValidatorProgram`
    * `Schema.validatorProgram`
    * `Schema.flavorFile_eq`
-/

namespace WireSchema

------------------------------------------------------------
-- Expressions
------------------------------------------------------------

/- A declared type with the name that it is emitted under. -/
structure SchemaRef where
  id : TypeName
  name : String
  deriving DecidableEq, Repr, Inhabited

/- The constant that holds the schema of a type. -/
def SchemaRef.constant (r : SchemaRef) : String :=
  schemaConstant r.name

/-
  An expression for a schema.  Refinements stand behind an
  expression; a constant is applied if it is a factory.
-/
inductive SchemaTerm where
  | base (kind : BaseKind)
  | null
  | param (name : String)
  | literals (values : List Literal)
  | checked (wire : List Literal) (kind : BaseKind)
  | parsed (kind : BaseKind) (more : List Refinement)
  | array (elem : SchemaTerm)
  | map (key value : SchemaTerm)
  | union (members : List SchemaTerm)
  | nullable (inner : SchemaTerm)
  | optional (inner : SchemaTerm)
  | refined (inner : SchemaTerm) (more : List Refinement)
  | constant (target : SchemaRef) (arity : Nat)
  | deferred (inner : SchemaTerm)

namespace SchemaTerm

mutual

/- The expression in the spelling of a dialect. -/
def text (d : Dialect) : SchemaTerm → String
  | .base kind => d.base kind
  | .null => d.null
  | .param name => name
  | .literals values => d.literals values
  | .checked wire kind =>
      d.checkThenParse (d.literals wire) (d.parsed kind)
  | .parsed kind more =>
      let parsed := d.parsed kind
      d.finish
        { parsed with
          steps := parsed.steps ++ more.map d.refinement }
  | .array elem => d.array (text d elem)
  | .map key value => d.map (text d key) (text d value)
  | .union members => d.union (texts d members)
  | .nullable inner => d.nullable (text d inner)
  | .optional inner => d.optional (text d inner)
  | .refined inner more =>
      d.finish
        { base := text d inner, steps := more.map d.refinement }
  | .constant target arity =>
      if 0 < arity then d.applied target.constant arity
      else target.constant
  | .deferred inner => d.deferred (text d inner)

def texts (d : Dialect) : List SchemaTerm → List String
  | [] => []
  | e :: rest => text d e :: texts d rest

end

mutual

/- The constants that are mentioned and not deferred. -/
def eager : SchemaTerm → List SchemaRef
  | .base _ => []
  | .null => []
  | .param _ => []
  | .literals _ => []
  | .checked .. => []
  | .parsed .. => []
  | .array elem => eager elem
  | .map key value => eager key ++ eager value
  | .union members => eagerInAll members
  | .nullable inner => eager inner
  | .optional inner => eager inner
  | .refined inner _ => eager inner
  | .constant target _ => [target]
  | .deferred _ => []

def eagerInAll : List SchemaTerm → List SchemaRef
  | [] => []
  | e :: rest => eager e ++ eagerInAll rest

end

end SchemaTerm

------------------------------------------------------------
-- Statements
------------------------------------------------------------

/- An entry of an object, with what stands before its value. -/
structure SchemaEntry where
  label : String
  value : SchemaTerm

def SchemaEntry.text (d : Dialect) (e : SchemaEntry) : String :=
  e.label ++ e.value.text d

/- What a constant is declared as. -/
inductive SchemaBody where
  | object (parents : List SchemaRef) (entries : List SchemaEntry)
  | term (value : SchemaTerm)

namespace SchemaBody

def text (d : Dialect) : SchemaBody → String
  | .object parents entries =>
      d.object (parents.map SchemaRef.constant)
        (entries.map (SchemaEntry.text d))
  | .term value => value.text d

/- The constants that a body is built from as an object. -/
def parents : SchemaBody → List SchemaRef
  | .object parents _ => parents
  | .term _ => []

/- The constants in the expressions of a body. -/
def eager : SchemaBody → List SchemaRef
  | .object _ entries => entries.flatMap fun e => e.value.eager
  | .term value => value.eager

end SchemaBody

/- The declaration of a constant. -/
structure SchemaStatement where
  target : SchemaRef
  comment : String
  params : List String
  body : SchemaBody
  isTyped : Bool

/- A generic constant is a factory and gets no type. -/
def SchemaStatement.text
    (d : Dialect)
    (st : SchemaStatement) : String :=
  let constant := st.target.constant
  let front := st.comment ++ "export const " ++ constant ++ " = "
  if st.params.isEmpty then
    let inferred :=
      if st.isTyped then
        "export type " ++ st.target.name ++ " = "
          ++ d.inferred constant ++ ";\n"
      else ""
    front ++ st.body.text d ++ ";\n" ++ inferred
  else front ++ d.factory st.params (st.body.text d) ++ ";\n"

def SchemaStatement.chunk
    (d : Dialect)
    (st : SchemaStatement) : Chunk :=
  { id := st.target.id, text := st.text d }

/- A row of the table of endpoints. -/
structure EndpointRow where
  fullName : String
  request : Option SchemaTerm
  response : SchemaTerm

namespace EndpointRow

def text (d : Dialect) (row : EndpointRow) : String :=
  let request :=
    match row.request with
    | some e => e.text d
    | none => "null"
  "  " ++ Text.quote row.fullName ++ ": \x7b request: "
    ++ request ++ ", response: " ++ row.response.text d
    ++ " \x7d,\n"

def eager (row : EndpointRow) : List SchemaRef :=
  let request :=
    match row.request with
    | some e => e.eager
    | none => []
  request ++ row.response.eager

end EndpointRow

/- The table of endpoints; without rows there is none. -/
def endpointsText (d : Dialect) (rows : List EndpointRow) : String :=
  if rows.isEmpty then ""
  else
    "export const endpoints = \x7b\n"
      ++ String.join (rows.map (EndpointRow.text d))
      ++ "\x7d as const;\n"

structure ValidatorProgram where
  statements : List SchemaStatement
  rows : List EndpointRow

/- The whole file. -/
def ValidatorProgram.text
    (d : Dialect)
    (p : ValidatorProgram) : String :=
  let chunks := p.statements.map (SchemaStatement.chunk d)
  let table := endpointsText d p.rows
  let tail := if table.isEmpty then "" else "\n" ++ table
  fileHeader ++ "\n" ++ d.preamble ++ spacedChunks chunks ++ tail

------------------------------------------------------------
-- Expressions of Types
------------------------------------------------------------

namespace EmitScope

/- A fixed length as a refinement. -/
def lengthBounds (len : Nat) : List Refinement :=
  if 0 < len then [.length len] else []

/- The constant of a declared type, deferred if need be. -/
def constantTerm (x : EmitScope) (id : TypeName) :
    Except EmitError SchemaTerm := do
  let name ← x.name id
  let target := SchemaTerm.constant { id, name } (x.arity id)
  .ok (if x.isForward id then .deferred target else target)

mutual

/- The expression for a type that is no declaration. -/
def termFor (x : EmitScope) :
    WireType → Except EmitError SchemaTerm
  | .base kind bits =>
      .ok (.refined (.base kind) (intrinsicBounds kind bits))
  | .array elem len => do
      let elem ← termFor x elem
      .ok (.refined (.array elem) (lengthBounds len))
  | .map key value => do
      let key ←
        if Dialect.hasTextEnumKeys x key then termFor x key
        else .ok (.base .string)
      let value ← termFor x value
      .ok (.map key value)
  | .reference id => x.constantTerm id
  | .pointer (.base .empty _) => .ok .null
  | .pointer elem => do
      let elem ← termFor x elem
      .ok (.nullable elem)
  | .union members => do
      let parts ← termsFor x members
      .ok (.union parts)
  | .param p => .ok (.param p.name)
  | .record r => .error (inlineError (.record r))
  | .synonym s => .error (inlineError (.synonym s))
  | .enum e => .error (inlineError (.enum e))

def termsFor (x : EmitScope) :
    List WireType → Except EmitError (List SchemaTerm)
  | [] => .ok []
  | t :: rest => do
      let part ← termFor x t
      let parts ← termsFor x rest
      .ok (part :: parts)

end

/- The expression for a type with further refinements. -/
def refinedTerm
    (x : EmitScope)
    (t : WireType)
    (more : List Refinement) : Except EmitError SchemaTerm :=
  match t with
  | .base kind bits =>
      .ok (.refined (.base kind) (intrinsicBounds kind bits ++ more))
  | .array elem len => do
      let elem ← x.termFor elem
      .ok (.refined (.array elem) (lengthBounds len ++ more))
  | t => do
      let base ← x.termFor t
      .ok (.refined base more)

/- The expression for a scalar that travels as text. -/
def parsedTerm
    (x : EmitScope)
    (t : WireType)
    (more : List Refinement) : SchemaTerm :=
  match x.schema.scalarBehind? t with
  | some (kind, bits) =>
      .parsed kind (intrinsicBounds kind bits ++ more)
  | none => .refined (.base .string) more

/- The expression for a set of literals that travel as text. -/
def parsedLiteralsTerm
    (x : EmitScope)
    (t : WireType)
    (values : List Literal) : SchemaTerm :=
  let wire := values.map Literal.onWire
  match x.schema.scalarBehind? t with
  | some (kind, _) =>
      if kind = .string then .literals wire
      else .checked wire kind
  | none => .literals wire

/- The expression for the values of a field. -/
def valueTerm
    (x : EmitScope)
    (f : Field WireType)
    (effects : FieldEffects) : Except EmitError SchemaTerm :=
  let t := f.type.target
  match effects.oneOf with
  | some values =>
      if f.stringEncoded then
        .ok (.refined (x.parsedLiteralsTerm t values) [])
      else .ok (.refined (.literals values) [])
  | none =>
      if f.stringEncoded then
        .ok (x.parsedTerm t effects.refinements)
      else x.refinedTerm t effects.refinements

/- Null and absence around the values of a field. -/
def wrapTerm
    (x : EmitScope)
    (f : Field WireType)
    (value : SchemaTerm) : SchemaTerm :=
  let isNullable := f.type.isPointer
  let value := if isNullable then .nullable value else value
  if f.optional then
    let value :=
      if x.options.absentMark == .null && !isNullable then
        .nullable value
      else value
    .optional value
  else value

------------------------------------------------------------
-- Statements of Declarations
------------------------------------------------------------

def entryOf
    (x : EmitScope)
    (flavor owner : String)
    (f : Field WireType) : Except EmitError SchemaEntry :=
  let note :=
    if f.stringEncoded then
      "// encoded as a JSON string on the wire\n"
    else ""
  let label :=
    x.memberComment f.doc "" ++ note ++ propertyKey f.wireName
      ++ ": "
  match x.schema.fieldEffects? owner f flavor with
  | none => .error .overflow
  | some effects => do
      let value ← x.valueTerm f effects
      .ok { label, value := x.wrapTerm f value }

def refOf (x : EmitScope) (id : TypeName) :
    Except EmitError SchemaRef := do
  let name ← x.name id
  .ok { id, name }

def statement
    (x : EmitScope)
    (id : TypeName)
    (params : List (TypeParam WireType))
    (doc : Doc)
    (body : SchemaBody) : Except EmitError SchemaStatement := do
  let target ← x.refOf id
  .ok
    { target
      comment := x.typeComment doc ""
      params := params.map TypeParam.name
      body
      isTyped := !x.options.baseTypes }

/- The statement of a declaration. -/
def statementOf (x : EmitScope) (flavor : String) :
    WireType → Except EmitError SchemaStatement
  | .record r => do
      let owner ← x.name r.id
      let parents ← r.parents.mapM x.refOf
      let fields := r.fields.filter fun f => !f.skip
      let entries ← fields.mapM (x.entryOf flavor owner)
      x.statement r.id r.params r.doc (.object parents entries)
  | .synonym s => do
      let value ← x.termFor s.target
      x.statement s.id s.params s.doc (.term value)
  | .enum e =>
      x.statement e.id [] e.doc
        (.term (.literals (e.members.map EnumMember.value)))
  | t => .error (.unsupported t.kindName)

/- Statements, each behind those that are known to it. -/
def statementsOf (flavor : String) (x : EmitScope) :
    List WireType →
      Except (TypeName × EmitError) (List SchemaStatement)
  | [] => .ok []
  | t :: rest =>
      match t.id? with
      | none => statementsOf flavor x rest
      | some id =>
          match x.statementOf flavor t with
          | .error e => .error (id, e)
          | .ok st => do
              let more ← statementsOf flavor (x.markEmitted id) rest
              .ok (st :: more)

/- The scope behind the declarations of a list. -/
def markAll (x : EmitScope) (ts : List WireType) : EmitScope :=
  (ts.filterMap WireType.id?).foldl markEmitted x

theorem markAll_of_id?_eq_none
    (x : EmitScope)
    {t : WireType}
    (hId : t.id? = none)
    (rest : List WireType) :
    x.markAll (t :: rest) = x.markAll rest := by
  unfold markAll
  rw [List.filterMap_cons_none hId]

theorem markAll_of_id?_eq_some
    (x : EmitScope)
    {t : WireType}
    {id : TypeName}
    (hId : t.id? = some id)
    (rest : List WireType) :
    x.markAll (t :: rest) = (x.markEmitted id).markAll rest := by
  unfold markAll
  rw [List.filterMap_cons_some hId, List.foldl_cons]

theorem statementsOf_of_id?_eq_none
    {x : EmitScope}
    {flavor : String}
    {t : WireType}
    {rest : List WireType}
    (hId : t.id? = none) :
    statementsOf flavor x (t :: rest) =
      statementsOf flavor x rest := by
  rw [statementsOf, hId]

/- The first statement, and those behind it. -/
theorem statementsOf_eq_ok_iff
    {x : EmitScope}
    {flavor : String}
    {t : WireType}
    {id : TypeName}
    {rest : List WireType}
    {sts : List SchemaStatement}
    (hId : t.id? = some id) :
    statementsOf flavor x (t :: rest) = .ok sts ↔
      ∃ st more, sts = st :: more
        ∧ x.statementOf flavor t = .ok st
        ∧ statementsOf flavor (x.markEmitted id) rest =
          .ok more := by
  rw [statementsOf, hId]
  dsimp only
  cases x.statementOf flavor t with
  | error e => simp
  | ok st =>
      cases statementsOf flavor (x.markEmitted id) rest with
      | error e => simp [bind, Except.bind]
      | ok more =>
          simp [bind, Except.bind, eq_comm (b := st :: more)]

def rowOf (x : EmitScope) (e : Endpoint) :
    Except EmitError EndpointRow := do
  let request ←
    match e.request with
    | some t => (x.termFor t).map some
    | none => .ok none
  let response ← x.termFor e.response
  .ok { fullName := e.fullName, request, response }

end EmitScope

/- The program that a flavor writes for a schema. -/
def Schema.validatorProgram
    (s : Schema)
    (o : EmitOptions)
    (flavor : String) :
    Except EmissionFault ValidatorProgram := do
  let x := EmitScope.ofSchema s o
  let order := s.emitOrder x.names
  let statements ←
    (EmitScope.statementsOf flavor x order).mapError
      fun e => EmissionFault.mk flavor e.1.qualified e.2
  let endpoints := s.services.flatMap Service.endpoints
  let rows ←
    (endpoints.mapM (x.markAll order).rowOf).mapError
      (EmissionFault.mk flavor "services")
  .ok { statements, rows }

end WireSchema
