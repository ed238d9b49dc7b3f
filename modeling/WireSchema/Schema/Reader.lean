import WireSchema.Schema.Basic
import WireSchema.Json.View
import WireSchema.Json.Reader

/-
  Reading schemas from JSON documents.

  Key definitions include:
    * `WireType.ofJson?`
    * `Schema.ofJson?`
    * `Schema.ofDocument`: also checks the version
-/

namespace WireSchema

------------------------------------------------------------
-- Names and Documentation
------------------------------------------------------------

def TypeName.ofJson? (j : Json) : Option TypeName := do
  let v ← j.view? ["name", "namespace"]
  some
    { name := ← v.required? "name" Json.text?
      space := ← v.orElse? "namespace" "" Json.text? }

def Doc.ofJson? (j : Json) : Option Doc := do
  let v ← j.view? ["summary", "body", "deprecated"]
  some
    { summary := ← v.orElse? "summary" "" Json.text?
      body := ← v.orElse? "body" "" Json.text?
      deprecated := ← v.optional? "deprecated" Json.text? }

def SourcePlace.ofJson? (j : Json) : Option SourcePlace := do
  let v ← j.view? ["file", "line", "column"]
  let number := Json.natUpTo? maxHalfWord
  some
    { file := ← v.required? "file" Json.text?
      line := ← v.required? "line" number
      column := ← v.required? "column" number }

------------------------------------------------------------
-- Literals and Kinds
------------------------------------------------------------

/-
  A number is an integer when it fits a signed word of 64
  bits, and a double-precision number otherwise.
-/
def Literal.ofJson? : Json → Option Literal
  | .text s => some (.text s)
  | .number (.natural n) =>
      if n < signWeight then some (.int n)
      else some (.float (.ofNat n))
  | .number (.negative n) => some (.int (-n))
  | .number (.float x) => some (.float x)
  | _ => none

def BaseKind.ofJson? (j : Json) : Option BaseKind :=
  j.innerVariant?.bind BaseKind.ofName?

def EnumMember.ofJson? (j : Json) : Option EnumMember := do
  let v ← j.view? ["name", "value", "doc"]
  some
    { name := ← v.required? "name" Json.text?
      value := ← v.required? "value" Literal.ofJson?
      doc := ← v.orElse? "doc" {} Doc.ofJson? }

------------------------------------------------------------
-- Types
------------------------------------------------------------

namespace WireType

/- A type parameter, given how to read its bound. -/
def paramOf?
    (read : Json → Option WireType)
    (j : Json) : Option (TypeParam WireType) := do
  let v ← j.view? ["name", "constraint"]
  some
    { name := ← v.required? "name" Json.text?
      bound := ← v.optional? "constraint" read }

/- A field, given how to read its type. -/
def fieldOf?
    (read : Json → Option WireType)
    (j : Json) : Option (Field WireType) := do
  let v ← j.view?
    ["name", "type", "wireName", "optional", "stringEncoded",
      "skip", "rawValidationTag", "doc"]
  some
    { name := ← v.required? "name" Json.text?
      type := ← v.required? "type" read
      wireName := ← v.required? "wireName" Json.text?
      optional := ← v.orElse? "optional" false Json.bool?
      stringEncoded :=
        ← v.orElse? "stringEncoded" false Json.bool?
      skip := ← v.orElse? "skip" false Json.bool?
      rules := ← v.orElse? "rawValidationTag" "" Json.text?
      doc := ← v.orElse? "doc" {} Doc.ofJson? }

def recordOf?
    (read : Json → Option WireType)
    (j : Json) : Option (RecordDecl WireType) := do
  let v ← j.view?
    ["id", "typeParams", "fields", "extends", "doc", "source"]
  some
    { id := ← v.required? "id" TypeName.ofJson?
      params :=
        ← v.orElse? "typeParams" [] (Json.list? (paramOf? read))
      fields :=
        ← v.required? "fields" (Json.list? (fieldOf? read))
      parents :=
        ← v.orElse? "extends" [] (Json.list? TypeName.ofJson?)
      doc := ← v.orElse? "doc" {} Doc.ofJson?
      source := ← v.optional? "source" SourcePlace.ofJson? }

def synonymOf?
    (read : Json → Option WireType)
    (j : Json) : Option (SynonymDecl WireType) := do
  let v ← j.view?
    ["id", "typeParams", "underlying", "doc", "source"]
  some
    { id := ← v.required? "id" TypeName.ofJson?
      params :=
        ← v.orElse? "typeParams" [] (Json.list? (paramOf? read))
      target := ← v.required? "underlying" read
      doc := ← v.orElse? "doc" {} Doc.ofJson?
      source := ← v.optional? "source" SourcePlace.ofJson? }

def enumOf? (j : Json) : Option EnumDecl := do
  let v ← j.view? ["id", "members", "doc", "source"]
  some
    { id := ← v.required? "id" TypeName.ofJson?
      members :=
        ← v.required? "members" (Json.list? EnumMember.ofJson?)
      doc := ← v.orElse? "doc" {} Doc.ofJson?
      source := ← v.optional? "source" SourcePlace.ofJson? }

/- The forms of types, in the order of their numbers. -/
def formNames : List String :=
  ["record", "alias", "enum", "primitive", "array", "map",
    "reference", "pointer", "union", "typeParameter"]

/- The content of a type of a given form. -/
def formOf?
    (read : Json → Option WireType)
    (form : String)
    (j : Json) : Option WireType :=
  match form with
  | "record" => (recordOf? read j).map .record
  | "alias" => (synonymOf? read j).map .synonym
  | "enum" => (enumOf? j).map .enum
  | "primitive" => do
      let v ← j.view? ["primitiveKind", "bitSize"]
      let kind ← v.required? "primitiveKind" BaseKind.ofJson?
      let bits ←
        v.orElse? "bitSize" 0 (Json.natUpTo? Json.maxByte)
      some (.base kind bits)
  | "array" => do
      let v ← j.view? ["elem", "len"]
      let elem ← v.required? "elem" read
      let len ←
        v.orElse? "len" 0 (Json.natUpTo? maxWord)
      some (.array elem len)
  | "map" => do
      let v ← j.view? ["key", "value"]
      let key ← v.required? "key" read
      let value ← v.required? "value" read
      some (.map key value)
  | "reference" => (TypeName.ofJson? j).map .reference
  | "pointer" => do
      let v ← j.view? ["elem"]
      (v.required? "elem" read).map .pointer
  | "union" => do
      let v ← j.view? ["members"]
      (v.required? "members" (Json.list? read)).map .union
  | "typeParameter" => (paramOf? read j).map .param
  | _ => none

/-
  Read a type inside another one.  It stands at least one
  level deeper in the document, so the depth of documents
  bounds the depth of types.
-/
def ofJsonWithin? : Nat → Json → Option WireType
  | 0, _ => none
  | depth + 1, j => do
      let (form, content) ← j.innerTagged? "kind" formNames
      formOf? (ofJsonWithin? depth) form content

/- Read a type; all of its document has to be usable. -/
def ofJson? (j : Json) : Option WireType :=
  if j.isSound then do
    let (form, content) ← j.tagged? "kind"
    formOf? (ofJsonWithin? Json.maxDepth) form content
  else none

end WireType

------------------------------------------------------------
-- Services, Warnings, Schemas
------------------------------------------------------------

def Endpoint.ofJson? (j : Json) : Option Endpoint := do
  let v ← j.view?
    ["name", "fullName", "httpVerb", "path", "request",
      "response", "doc"]
  some
    { name := ← v.required? "name" Json.text?
      fullName := ← v.required? "fullName" Json.text?
      verb := ← v.required? "httpVerb" Json.text?
      path := ← v.required? "path" Json.text?
      request := ← v.optional? "request" WireType.ofJson?
      response := ← v.required? "response" WireType.ofJson?
      doc := ← v.orElse? "doc" {} Doc.ofJson? }

def Service.ofJson? (j : Json) : Option Service := do
  let v ← j.view? ["name", "endpoints", "doc"]
  some
    { name := ← v.required? "name" Json.text?
      endpoints :=
        ← v.required? "endpoints" (Json.list? Endpoint.ofJson?)
      doc := ← v.orElse? "doc" {} Doc.ofJson? }

def WarningKind.ofJson? (j : Json) : Option WarningKind :=
  j.variant?.bind WarningKind.ofCode?

def Warning.ofJson? (j : Json) : Option Warning := do
  let v ← j.view? ["code", "message", "location", "typeName"]
  some
    { kind := ← v.required? "code" WarningKind.ofJson?
      message := ← v.required? "message" Json.text?
      place := ← v.optional? "location" SourcePlace.ofJson?
      typeName := ← v.optional? "typeName" Json.text? }

def Schema.ofJson? (j : Json) : Option Schema := do
  let v ← j.view? ["version", "types", "services", "warnings"]
  some
    { version :=
        ← v.required? "version" (Json.natUpTo? maxHalfWord)
      types :=
        ← v.required? "types" (Json.list? WireType.ofJson?)
      services :=
        ← v.orElse? "services" [] (Json.list? Service.ofJson?)
      warnings :=
        ← v.orElse? "warnings" [] (Json.list? Warning.ofJson?) }

/- The schema in a document of the supported version. -/
def Schema.ofDocument (text : String) :
    Except SchemaError Schema :=
  match (Json.parse? text).bind Schema.ofJson? with
  | none => .error .malformed
  | some s =>
      if s.version = schemaVersion then .ok s
      else .error (.version s.version)

end WireSchema
