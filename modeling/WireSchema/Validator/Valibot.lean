import WireSchema.Validator.Dialect

/-
  The dialect whose refinements are values in a list behind
  the schema.

  Key definitions include:
    * `Dialect.valibot`
-/

namespace WireSchema

namespace Valibot

def base : BaseKind → String
  | .bool => "v.boolean()"
  | .int | .uint | .float | .duration => "v.number()"
  | .string | .bytes | .time => "v.string()"
  | .any => "v.unknown()"
  | .empty => "v.object(\x7b\x7d)"

def parsed (kind : BaseKind) : Chain :=
  if kind = .bool then
    { base := "v.picklist([\"true\", \"false\"])"
      steps := ["v.transform((s) => s === \"true\")"] }
  else if kind.isNumeric then
    { base := "v.string()"
      steps := ["v.transform(Number)", "v.number()"] }
  else { base := "v.string()" }

def format : TextFormat → String
  | .email => "v.email()"
  | .url => "v.url()"
  | .uuid => "v.uuid()"
  | .ip => "v.ip()"
  | .ipv4 => "v.ipv4()"
  | .ipv6 => "v.ipv6()"
  | .datetime => "v.isoTimestamp()"
  | .base64 => "v.base64()"

def refinement : Refinement → String
  | .minLength n => callText "v.minLength" [toString n]
  | .maxLength n => callText "v.maxLength" [toString n]
  | .length n => callText "v.length" [toString n]
  | .min x => callText "v.minValue" [x.positionalText]
  | .max x => callText "v.maxValue" [x.positionalText]
  | .greaterThan x => callText "v.gtValue" [x.positionalText]
  | .lessThan x => callText "v.ltValue" [x.positionalText]
  | .integer => "v.integer()"
  | .nonNegative => "v.minValue(0)"
  | .format f => format f
  | .pattern source => callText "v.regex" [patternLiteral source]
  | .startsWith part => callText "v.startsWith" [Text.quote part]
  | .endsWith part => callText "v.endsWith" [Text.quote part]
  | .contains part => callText "v.includes" [Text.quote part]

def finish (c : Chain) : String :=
  if c.steps.isEmpty then c.base
  else callText "v.pipe" (c.base :: c.steps)

def words : LiteralWords :=
  { none := "v.never", texts := "v.picklist"
    single := "v.literal", union := "v.union" }

/- An object with the entries of its parents in front. -/
def object (parents entries : List String) : String :=
  if parents.isEmpty && entries.isEmpty then
    "v.object(\x7b\x7d)"
  else
    "v.object(\x7b\n"
      ++ String.join
        (parents.map fun p => "  ..." ++ p ++ ".entries,\n")
      ++ objectEntries entries ++ "\x7d)"

end Valibot

def Dialect.valibot : Dialect :=
  { name := "valibot"
    fileSuffix := "valibot.ts"
    importLine := "import * as v from \"valibot\";"
    infersTypes := true
    base := Valibot.base
    parsed := Valibot.parsed
    refinement := Valibot.refinement
    finish := Valibot.finish
    checkThenParse := fun wire parsed =>
      Valibot.finish { base := wire, steps := parsed.steps }
    literals := literalSchema Valibot.words
    null := "v.null()"
    array := fun elem => callText "v.array" [elem]
    map := fun key value => callText "v.record" [key, value]
    union := callList "v.union"
    nullable := fun inner => callText "v.nullable" [inner]
    optional := fun inner => callText "v.optional" [inner]
    deferred := fun target => callText "v.lazy" ["() => " ++ target]
    object := Valibot.object
    factory := factoryText "v.GenericSchema"
    applied := fun factory arity =>
      callText factory (List.replicate arity "v.unknown()")
    inferred := fun schema =>
      "v.InferOutput<typeof " ++ schema ++ ">" }

end WireSchema
