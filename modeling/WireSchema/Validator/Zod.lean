import WireSchema.Validator.Dialect

/-
  The dialect whose refinements are method calls on the
  schema in front of them.

  Key definitions include:
    * `Dialect.zod`
-/

namespace WireSchema

namespace Zod

def base : BaseKind → String
  | .bool => "z.boolean()"
  | .int | .uint | .float | .duration => "z.number()"
  | .string | .bytes | .time => "z.string()"
  | .any => "z.unknown()"
  | .empty => "z.object(\x7b\x7d)"

def parsed (kind : BaseKind) : Chain :=
  if kind = .bool then
    { base :=
        "z.enum([\"true\", \"false\"])"
          ++ ".transform((v) => v === \"true\")" }
  else if kind.isNumeric then { base := "z.coerce.number()" }
  else { base := "z.string()" }

def format : TextFormat → String
  | .email => ".email()"
  | .url => ".url()"
  | .uuid => ".uuid()"
  | .ip => ".ip()"
  | .ipv4 => ".ip(\x7b version: \"v4\" \x7d)"
  | .ipv6 => ".ip(\x7b version: \"v6\" \x7d)"
  | .datetime => ".datetime(\x7b offset: true \x7d)"
  | .base64 => ".base64()"

def refinement : Refinement → String
  | .minLength n => callText ".min" [toString n]
  | .maxLength n => callText ".max" [toString n]
  | .length n => callText ".length" [toString n]
  | .min x => callText ".min" [x.positionalText]
  | .max x => callText ".max" [x.positionalText]
  | .greaterThan x => callText ".gt" [x.positionalText]
  | .lessThan x => callText ".lt" [x.positionalText]
  | .integer => ".int()"
  | .nonNegative => ".nonnegative()"
  | .format f => format f
  | .pattern source => callText ".regex" [patternLiteral source]
  | .startsWith part => callText ".startsWith" [Text.quote part]
  | .endsWith part => callText ".endsWith" [Text.quote part]
  | .contains part => callText ".includes" [Text.quote part]

def finish (c : Chain) : String :=
  c.base ++ String.join c.steps

def words : LiteralWords :=
  { none := "z.never", texts := "z.enum"
    single := "z.literal", union := "z.union" }

/- The entries of an object in braces. -/
def objectBody (entries : List String) : String :=
  if entries.isEmpty then "\x7b\x7d"
  else "\x7b\n" ++ objectEntries entries ++ "\x7d"

/- An object on its own, or one that extends its parents. -/
def object (parents entries : List String) : String :=
  match parents with
  | [] => callText "z.object" [objectBody entries]
  | first :: rest =>
      first
        ++ String.join
          (rest.map fun p => callText ".merge" [p])
        ++ callText ".extend" [objectBody entries]

end Zod

def Dialect.zod : Dialect :=
  { name := "zod"
    fileSuffix := "zod.ts"
    importLine := "import \x7b z \x7d from \"zod\";"
    infersTypes := true
    base := Zod.base
    parsed := Zod.parsed
    refinement := Zod.refinement
    finish := Zod.finish
    checkThenParse := fun wire parsed =>
      wire ++ callText ".pipe" [Zod.finish parsed]
    literals := literalSchema Zod.words
    null := "z.null()"
    array := fun elem => callText "z.array" [elem]
    map := fun key value => callText "z.record" [key, value]
    union := callList "z.union"
    nullable := fun inner => inner ++ ".nullable()"
    optional := fun inner => inner ++ ".optional()"
    deferred := fun target => callText "z.lazy" ["() => " ++ target]
    object := Zod.object
    factory := factoryText "z.ZodTypeAny"
    applied := fun factory arity =>
      callText factory (List.replicate arity "z.unknown()")
    inferred := fun schema => "z.infer<typeof " ++ schema ++ ">" }

end WireSchema
