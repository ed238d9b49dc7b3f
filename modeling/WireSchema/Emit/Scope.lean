import WireSchema.Emit.Comment
import WireSchema.Emit.Options
import WireSchema.Emit.Order

/-
  What an emitter knows while it writes: the schema, the
  settings, the emitted names, and which declarations have
  been written already.  With that it writes type expressions
  of the emitted language.

  Key definitions include:
    * `EmitScope`, `EmitScope.ofSchema`
    * `EmitScope.name`, `EmitScope.arity`
    * `EmitScope.isForward`
    * `propertyKey`
    * `EmitScope.expression`
-/

namespace WireSchema

structure EmitScope where
  schema : Schema
  options : EmitOptions
  names : EmittedNames
  emitted : List TypeName := []
  deriving Inhabited

namespace EmitScope

def ofSchema (s : Schema) (options : EmitOptions) : EmitScope :=
  { schema := s
    options
    names := .ofSchema s options.strippedPaths }

/- The name a type is emitted under. -/
def name (x : EmitScope) (id : TypeName) :
    Except EmitError String :=
  match x.names.find? id with
  | some n => .ok n
  | none => .error (.unknownType id)

/- How many type parameters a declaration has. -/
def arity (x : EmitScope) (id : TypeName) : Nat :=
  match x.schema.find? id with
  | some (.record d) => d.params.length
  | some (.synonym d) => d.params.length
  | _ => 0

/- Whether a declaration has not been written yet. -/
def isForward (x : EmitScope) (id : TypeName) : Bool :=
  !x.emitted.contains id

def markEmitted (x : EmitScope) (id : TypeName) : EmitScope :=
  { x with emitted := insertSorted TypeName.before id x.emitted }

/- The comment of a declaration, if these are written. -/
def typeComment
    (x : EmitScope)
    (doc : Doc)
    (indent : String) : String :=
  if x.options.typeComments then doc.comment indent else ""

/- The comment of a field or member, if these are written. -/
def memberComment
    (x : EmitScope)
    (doc : Doc)
    (indent : String) : String :=
  if x.options.memberComments then doc.comment indent else ""

end EmitScope

------------------------------------------------------------
-- Property Keys
------------------------------------------------------------

/- Whether a text is an identifier of the emitted language. -/
def isIdentifier : List Char → Bool
  | [] => false
  | c :: s =>
      (c.isAlpha || c == '_' || c == '$')
        && s.all fun d => d.isAlphanum || d == '_' || d == '$'

/- The key of a property: quoted unless an identifier. -/
def propertyKey (name : String) : String :=
  if isIdentifier name.toList then name else Text.quote name

------------------------------------------------------------
-- Type Expressions
------------------------------------------------------------

/- The type of the values of a base kind. -/
def baseExpression : BaseKind → String
  | .bool => "boolean"
  | .int | .uint | .float | .duration => "number"
  | .string | .bytes | .time => "string"
  | .any => "unknown"
  | .empty => "Record<string, never>"

/-
  An array type, with parentheses around an element type of
  several words.
-/
def arrayExpression (elem : String) : String :=
  if elem.toList.contains ' ' then "(" ++ elem ++ ")[]"
  else elem ++ "[]"

/- A declaration has no place inside a type expression. -/
def inlineError (t : WireType) : EmitError :=
  .unsupported ("inline " ++ t.kindName)

namespace EmitScope

mutual

/- The expression for a type that is no declaration. -/
def expression (x : EmitScope) :
    WireType → Except EmitError String
  | .base kind _ => .ok (baseExpression kind)
  | .array elem _ => do
      let elem ← expression x elem
      .ok (arrayExpression elem)
  | .map _ value => do
      let value ← expression x value
      .ok ("Record<string, " ++ value ++ ">")
  | .reference id => x.name id
  | .pointer (.base .empty _) => .ok "null"
  | .pointer elem => do
      let elem ← expression x elem
      .ok (elem ++ " | null")
  | .union members => do
      let parts ← expressions x members
      .ok (Text.joinWith " | " parts)
  | .param p => .ok p.name
  | .record d => .error (inlineError (.record d))
  | .synonym d => .error (inlineError (.synonym d))
  | .enum d => .error (inlineError (.enum d))

def expressions (x : EmitScope) :
    List WireType → Except EmitError (List String)
  | [] => .ok []
  | t :: rest => do
      let part ← expression x t
      let parts ← expressions x rest
      .ok (part :: parts)

end

end EmitScope

end WireSchema
