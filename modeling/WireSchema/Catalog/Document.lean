import WireSchema.Catalog.Basic
import WireSchema.Json.View
import WireSchema.Json.Reader

/-
  Catalogs as documents.

  Key definitions include:
    * `Reflected.ofJson?`, `Reflected.toJson`
    * `Catalog.ofJson?`, `Catalog.ofDocument?`
    * `Catalog.toJson`
-/

namespace WireSchema

namespace Reflected

------------------------------------------------------------
-- Reading
------------------------------------------------------------

/- A form without content: an array holds nothing more. -/
def bareForm? (shape : Reflected) : Json → Option Reflected
  | .array (_ :: _) => none
  | _ => some shape

/- A field, given how to read its type. -/
def fieldOf?
    (read : Json → Option Reflected)
    (j : Json) : Option (ReflectedField Reflected) := do
  let v ← j.view? ["name", "type", "tag", "anonymous"]
  some
    { name := ← v.required? "name" Json.text?
      type := ← v.required? "type" read
      tag := ← v.orElse? "tag" "" Json.text?
      embedded := ← v.orElse? "anonymous" false Json.bool? }

/- The bit width of a numeric form. -/
def bitsOf? (j : Json) : Option Nat := do
  let v ← j.view? ["bits"]
  v.orElse? "bits" 0 (Json.natUpTo? Json.maxByte)

/- The element of a form that has nothing else. -/
def elemOf?
    (read : Json → Option Reflected)
    (j : Json) : Option Reflected := do
  let v ← j.view? ["elem"]
  v.required? "elem" read

/- The forms, in the order of their numbers. -/
def formNames : List String :=
  ["bool", "int", "uint", "float", "string", "interface",
    "slice", "array", "map", "pointer", "struct", "named"]

/- The content of a form; unknown forms are unsupported. -/
def formOf?
    (read : Json → Option Reflected)
    (form : String)
    (j : Json) : Option Reflected :=
  match form with
  | "bool" => bareForm? .bool j
  | "int" => (bitsOf? j).map .int
  | "uint" => (bitsOf? j).map .uint
  | "float" => (bitsOf? j).map .float
  | "string" => bareForm? .string j
  | "interface" => bareForm? .interface j
  | "slice" => (elemOf? read j).map .slice
  | "array" => do
      let v ← j.view? ["len", "elem"]
      let len ←
        v.required? "len" (Json.natUpTo? maxWord)
      let elem ← v.required? "elem" read
      some (.array len elem)
  | "map" => do
      let v ← j.view? ["key", "value"]
      let key ← v.required? "key" read
      let value ← v.required? "value" read
      some (.map key value)
  | "pointer" => (elemOf? read j).map .pointer
  | "struct" => do
      let v ← j.view? ["fields"]
      let fields ←
        v.orElse? "fields" [] (Json.list? (fieldOf? read))
      some (.struct fields)
  | "named" => do
      let v ← j.view? ["package", "name"]
      let space ← v.required? "package" Json.text?
      let name ← v.required? "name" Json.text?
      some (.named space name)
  | _ => bareForm? .unsupported j

/- Read a shape inside another, within the depth of
   documents. -/
def ofJsonWithin? : Nat → Json → Option Reflected
  | 0, _ => none
  | depth + 1, j => do
      let (form, content) ← j.innerTagged? "kind" formNames
      formOf? (ofJsonWithin? depth) form content

/- Read a shape; all of its document has to be usable. -/
def ofJson? (j : Json) : Option Reflected :=
  if j.isSound then do
    let (form, content) ← j.tagged? "kind"
    formOf? (ofJsonWithin? Json.maxDepth) form content
  else none

------------------------------------------------------------
-- Writing
------------------------------------------------------------

/- A value of a form with further members. -/
def formJson
    (form : String)
    (members : List (String × Json)) : Json :=
  .object (("kind", .text form) :: members)

mutual

def toJson : Reflected → Json
  | .bool => formJson "bool" []
  | .int bits => formJson "int" [("bits", .nat bits)]
  | .uint bits => formJson "uint" [("bits", .nat bits)]
  | .float bits => formJson "float" [("bits", .nat bits)]
  | .string => formJson "string" []
  | .interface => formJson "interface" []
  | .slice elem => formJson "slice" [("elem", toJson elem)]
  | .array len elem =>
      formJson "array"
        [("len", .nat len), ("elem", toJson elem)]
  | .map key value =>
      formJson "map"
        [("key", toJson key), ("value", toJson value)]
  | .pointer elem => formJson "pointer" [("elem", toJson elem)]
  | .struct fields =>
      formJson "struct" [("fields", .array (fieldsToJson fields))]
  | .named space name =>
      formJson "named"
        [("package", .text space), ("name", .text name)]
  | .unsupported => formJson "unsupported" []

def fieldsToJson :
    List (ReflectedField Reflected) → List Json
  | [] => []
  | f :: rest => fieldToJson f :: fieldsToJson rest

def fieldToJson : ReflectedField Reflected → Json
  | ⟨name, type, tag, embedded⟩ =>
      .object
        [("name", .text name), ("type", toJson type),
          ("tag", .text tag), ("anonymous", .bool embedded)]

end

end Reflected

------------------------------------------------------------
-- Catalogs
------------------------------------------------------------

def CatalogEntry.ofJson? (j : Json) : Option CatalogEntry := do
  let v ← j.view? ["package", "name", "underlying"]
  some
    { space := ← v.required? "package" Json.text?
      name := ← v.required? "name" Json.text?
      shape := ← v.required? "underlying" Reflected.ofJson? }

def CatalogEntry.toJson (e : CatalogEntry) : Json :=
  .object
    [("package", .text e.space), ("name", .text e.name),
      ("underlying", e.shape.toJson)]

namespace Catalog

def ofJson? (j : Json) : Option Catalog := do
  let v ← j.view? ["types"]
  let entries ←
    v.required? "types" (Json.list? CatalogEntry.ofJson?)
  some { entries }

/- The catalog in a document. -/
def ofDocument? (text : String) : Option Catalog :=
  (Json.parse? text).bind ofJson?

def toJson (c : Catalog) : Json :=
  .object [("types", .array (c.entries.map CatalogEntry.toJson))]

end Catalog

end WireSchema
