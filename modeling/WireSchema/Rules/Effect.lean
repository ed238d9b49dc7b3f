import WireSchema.Rules.Basic
import WireSchema.Schema.Basic
import WireSchema.Text.Quoted

/-
  What each validation rule does to a value of a shape.

  Key definitions include:
    * `Shape`, `Schema.shapeOf`
    * `TextFormat`, `Refinement`
    * `RuleEffect`
    * `Rule.effect`: the decision table
-/

namespace WireSchema

------------------------------------------------------------
-- Shapes
------------------------------------------------------------

inductive Shape where
  | text
  | number (integer : Bool)
  | bool
  | array
  | map
  | other
  deriving DecidableEq, Repr, Inhabited

namespace Shape

/- The word for a shape in diagnostics. -/
def word : Shape → String
  | .text => "string"
  | .number _ => "number"
  | .bool => "boolean"
  | .array => "array"
  | .map => "map"
  | .other => "this type"

/- The shape of a base kind. -/
def ofKind : BaseKind → Shape
  | .string => .text
  | .int => .number true
  | .uint => .number true
  | .float => .number false
  | .bool => .bool
  | _ => .other

end Shape

/- How many types are looked at on the way to a shape. -/
def maxShapeSteps : Nat := 16

namespace Schema

/-
  The shape of a type, followed through pointers and synonyms
  for a number of steps.  Longer chains have no shape.
-/
def shapeWithin (s : Schema) : Nat → WireType → Shape
  | 0, _ => .other
  | steps + 1, t =>
      match t.target with
      | .base kind _ => .ofKind kind
      | .array .. => .array
      | .map .. => .map
      | .reference id =>
          match s.find? id with
          | some (.synonym d) => shapeWithin s steps d.target
          | _ => .other
      | _ => .other

def shapeOf (s : Schema) (t : WireType) : Shape :=
  s.shapeWithin maxShapeSteps t

end Schema

------------------------------------------------------------
-- Refinements
------------------------------------------------------------

inductive TextFormat where
  | email
  | url
  | uuid
  | ip
  | ipv4
  | ipv6
  | datetime
  | base64
  deriving DecidableEq, Repr, Inhabited

/-
  A condition on values.  Patterns are the text of a regular
  expression without its delimiters.
-/
inductive Refinement where
  | minLength (n : Nat)
  | maxLength (n : Nat)
  | length (n : Nat)
  | min (x : Binary64)
  | max (x : Binary64)
  | greaterThan (x : Binary64)
  | lessThan (x : Binary64)
  | integer
  | nonNegative
  | format (f : TextFormat)
  | pattern (source : String)
  | startsWith (part : String)
  | endsWith (part : String)
  | contains (part : String)
  deriving DecidableEq, Repr, Inhabited

------------------------------------------------------------
-- Effects
------------------------------------------------------------

/-
  A rule refines values, replaces their type by a list of
  literals, is passed over on purpose, or is not supported
  for a reason.  A length bound that leaves the words of 64
  bits overflows.
-/
inductive RuleEffect where
  | refine (conditions : List Refinement)
  | oneOf (values : List Literal)
  | passOver
  | unsupported (reason : String)
  | overflow
  deriving DecidableEq, Repr, Inhabited

namespace RuleEffect

def notApplicable (shape : Shape) : RuleEffect :=
  .unsupported ("not applicable to " ++ shape.word)

/- A condition on texts only. -/
def onText (shape : Shape) (r : Refinement) : RuleEffect :=
  match shape with
  | .text => .refine [r]
  | _ => notApplicable shape

end RuleEffect

------------------------------------------------------------
-- Bounds
------------------------------------------------------------

/- The bound that a rule of a given name puts on a number. -/
def valueBound (name : String) (x : Binary64) :
    List Refinement :=
  if name = "min" ∨ name = "gte" then [.min x]
  else if name = "max" ∨ name = "lte" then [.max x]
  else if name = "len" then [.min x, .max x]
  else if name = "gt" then [.greaterThan x]
  else [.lessThan x]

/- The bound that a rule of a given name puts on a length. -/
def lengthBound (name : String) (n : Nat) : RuleEffect :=
  if name = "min" ∨ name = "gte" then .refine [.minLength n]
  else if name = "max" ∨ name = "lte" then
    .refine [.maxLength n]
  else if name = "len" then .refine [.length n]
  else if name = "gt" then
    if n < maxWord then .refine [.minLength (n + 1)]
    else .overflow
  else if n = 0 then .unsupported "lt=0 is unsatisfiable"
  else .refine [.maxLength (n - 1)]

/- Bounds on the value of numbers and the length of others. -/
def boundEffect
    (name : String)
    (param : Option String)
    (shape : Shape) : RuleEffect :=
  match param with
  | none => .unsupported "missing parameter"
  | some p =>
      if p.isEmpty then .unsupported "missing parameter"
      else
        match Binary64.ofText? p.toList with
        | none =>
            .unsupported
              ("non-numeric parameter " ++ Text.shown p)
        | some x =>
            match shape with
            | .number _ => .refine (valueBound name x)
            | .text | .array =>
                if x.isNegative || !x.isWhole then
                  .unsupported ("invalid length " ++ p)
                else lengthBound name x.toNatClamped
            | _ =>
                .unsupported
                  ("size bounds not applicable to "
                    ++ shape.word)

------------------------------------------------------------
-- Listed Values
------------------------------------------------------------

/- An integer of 64 bits, with or without a sign. -/
def readInt64? (s : List Char) : Option Int :=
  let signed : Bool × List Char :=
    match s with
    | '-' :: rest => (true, rest)
    | '+' :: rest => (false, rest)
    | rest => (false, rest)
  let digits := signed.2
  if digits.isEmpty || !digits.all Char.isDigit then none
  else
    let n : Int := Binary64.digitsValue digits
    within64? (if signed.1 then -n else n)

/- The number that a word denotes. -/
def readNumber? (integer : Bool) (w : String) :
    Option Literal :=
  if integer then (readInt64? w.toList).map .int
  else (Binary64.ofText? w.toList).map .float

/- The numbers that words denote, or the first bad word. -/
def readNumbers (integer : Bool) :
    List String → Except String (List Literal)
  | [] => .ok []
  | w :: rest =>
      match readNumber? integer w with
      | none => .error w
      | some v => (readNumbers integer rest).map (v :: ·)

def oneOfEffect
    (param : Option String)
    (shape : Shape) : RuleEffect :=
  match param with
  | none => .unsupported "missing parameter"
  | some p =>
      let words := listedWords p
      if words.isEmpty then .unsupported "empty value list"
      else
        match shape with
        | .text => .oneOf (words.map .text)
        | .number integer =>
            match readNumbers integer words with
            | .ok values => .oneOf values
            | .error w =>
                .unsupported
                  ("non-numeric value " ++ Text.shown w)
        | _ => .notApplicable shape

/- Conditions on a part of a text. -/
def partEffect
    (refinement : String → Refinement)
    (param : Option String)
    (shape : Shape) : RuleEffect :=
  match shape, param with
  | .text, some p => .refine [refinement p]
  | _, _ =>
      .unsupported "needs a string field and a parameter"

------------------------------------------------------------
-- The Table
------------------------------------------------------------

/-
  Rules that say nothing about the value on its own: they
  concern absence, other fields or the elements.
-/
def passedOver : List String :=
  ["omitempty", "omitnil", "omitzero", "dive", "keys",
    "endkeys", "isdefault", "structonly", "nostructlevel",
    "required_if", "required_unless", "required_with",
    "required_with_all", "required_without",
    "required_without_all", "excluded_if", "excluded_unless",
    "excluded_with", "excluded_with_all", "excluded_without",
    "excluded_without_all", "eqfield", "nefield", "gtfield",
    "gtefield", "ltfield", "ltefield", "eqcsfield",
    "necsfield", "gtcsfield", "gtecsfield", "ltcsfield",
    "ltecsfield", "fieldcontains", "fieldexcludes"]

def boundNames : List String :=
  ["min", "max", "len", "gte", "lte", "gt", "lt"]

/- The rules that ask for a format. -/
def formatTable : List (String × TextFormat) :=
  [("email", .email), ("url", .url), ("uri", .url),
    ("http_url", .url), ("uuid", .uuid), ("uuid4", .uuid),
    ("uuid_rfc4122", .uuid), ("uuid4_rfc4122", .uuid),
    ("ip", .ip), ("ip_addr", .ip), ("ipv4", .ipv4),
    ("ip4_addr", .ipv4), ("ipv6", .ipv6),
    ("ip6_addr", .ipv6), ("base64", .base64)]

/- The rules that ask for a pattern. -/
def patternTable : List (String × String) :=
  [("alpha", "^[a-zA-Z]+$"),
    ("alphanum", "^[a-zA-Z0-9]+$"),
    ("numeric", "^[-+]?[0-9]+(?:\\.[0-9]+)?$"),
    ("number", "^[0-9]+$"),
    ("hexadecimal", "^(?:0[xX])?[0-9a-fA-F]+$"),
    ("hexcolor",
      "^#(?:[0-9a-fA-F]\x7b3\x7d|[0-9a-fA-F]\x7b6\x7d)$"),
    ("lowercase", "^[^A-Z]*$"),
    ("uppercase", "^[^a-z]*$"),
    ("e164", "^\\+[1-9][0-9]\x7b1,14\x7d$")]

/- The one layout of dates that has a format. -/
def dateLayout : String := "2006-01-02T15:04:05Z07:00"

/- What a rule does to a value of a shape. -/
def Rule.effect (r : Rule) (shape : Shape) : RuleEffect :=
  if passedOver.contains r.name then .passOver
  else if r.name = "required" then
    match shape with
    | .text => .refine [.minLength 1]
    | _ => .refine []
  else if boundNames.contains r.name then
    boundEffect r.name r.param shape
  else if r.name = "oneof" then oneOfEffect r.param shape
  else if let some f := formatTable.lookup r.name then
    .onText shape (.format f)
  else if r.name = "datetime" ∧ r.param = some dateLayout then
    .onText shape (.format .datetime)
  else if let some source := patternTable.lookup r.name then
    .onText shape (.pattern source)
  else if r.name = "startswith" then
    partEffect .startsWith r.param shape
  else if r.name = "endswith" then
    partEffect .endsWith r.param shape
  else if r.name = "contains" then
    partEffect .contains r.param shape
  else .unsupported "unknown rule"

end WireSchema
