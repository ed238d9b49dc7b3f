import WireSchema.Schema.Basic
import WireSchema.Json.Printer

/-
  Schemas as JSON documents.

  Members stand in a fixed order, the form of a type first.
  Empty lists of parameters and parents, empty documentation,
  absent places and a bit width of zero are left out.

  Key definitions include:
    * `WireType.toJson`
    * `Schema.toJson`
-/

namespace WireSchema

------------------------------------------------------------
-- Names and Documentation
------------------------------------------------------------

def TypeName.members (id : TypeName) : List (String × Json) :=
  [("name", .text id.name), ("namespace", .text id.space)]

def TypeName.toJson (id : TypeName) : Json :=
  .object id.members

/- A member that is only written when it says something. -/
def memberIf
    (present : Bool)
    (name : String)
    (value : Json) : List (String × Json) :=
  if present then [(name, value)] else []

def memberOf? (name : String) :
    Option Json → List (String × Json)
  | none => []
  | some v => [(name, v)]

def Doc.toJson (d : Doc) : Json :=
  .object
    ([("summary", .text d.summary), ("body", .text d.body)]
      ++ memberOf? "deprecated" (d.deprecated.map .text))

def Doc.asMember (d : Doc) : List (String × Json) :=
  memberIf (!d.isEmpty) "doc" d.toJson

def SourcePlace.toJson (p : SourcePlace) : Json :=
  .object
    [("file", .text p.file), ("line", .nat p.line),
      ("column", .nat p.column)]

------------------------------------------------------------
-- Types
------------------------------------------------------------

def Literal.toJson : Literal → Json
  | .text s => .text s
  | .int n => .int n
  | .float x => .number (.float x)

def EnumMember.toJson (m : EnumMember) : Json :=
  .object
    ([("name", .text m.name), ("value", m.value.toJson)]
      ++ m.doc.asMember)

namespace WireType

mutual

def toJson : WireType → Json
  | .record ⟨id, params, fields, parents, doc, source⟩ =>
      .object
        (("kind", .text "record") :: ("id", id.toJson)
          :: (memberIf (!params.isEmpty) "typeParams"
                (.array (paramsToJson params))
              ++ [("fields", .array (fieldsToJson fields))]
              ++ memberIf (!parents.isEmpty) "extends"
                (.array (parents.map TypeName.toJson))
              ++ doc.asMember
              ++ memberOf? "source"
                (source.map SourcePlace.toJson)))
  | .synonym ⟨id, params, body, doc, source⟩ =>
      .object
        (("kind", .text "alias") :: ("id", id.toJson)
          :: (memberIf (!params.isEmpty) "typeParams"
                (.array (paramsToJson params))
              ++ [("underlying", toJson body)]
              ++ doc.asMember
              ++ memberOf? "source"
                (source.map SourcePlace.toJson)))
  | .enum d =>
      .object
        (("kind", .text "enum") :: ("id", d.id.toJson)
          :: ("members", .array (d.members.map EnumMember.toJson))
          :: (d.doc.asMember
              ++ memberOf? "source"
                (d.source.map SourcePlace.toJson)))
  | .base kind bits =>
      .object
        (("kind", .text "primitive")
          :: ("primitiveKind", .text kind.name)
          :: memberIf (bits != 0) "bitSize" (.nat bits))
  | .array elem len =>
      .object
        [("kind", .text "array"), ("elem", toJson elem),
          ("len", .nat len)]
  | .map key value =>
      .object
        [("kind", .text "map"), ("key", toJson key),
          ("value", toJson value)]
  | .reference id =>
      .object (("kind", .text "reference") :: id.members)
  | .pointer elem =>
      .object [("kind", .text "pointer"), ("elem", toJson elem)]
  | .union members =>
      .object
        [("kind", .text "union"),
          ("members", .array (typesToJson members))]
  | .param p =>
      .object
        (("kind", .text "typeParameter") :: paramMembers p)

def typesToJson : List WireType → List Json
  | [] => []
  | t :: rest => toJson t :: typesToJson rest

def paramsToJson : List (TypeParam WireType) → List Json
  | [] => []
  | p :: rest => .object (paramMembers p) :: paramsToJson rest

def paramMembers : TypeParam WireType → List (String × Json)
  | ⟨name, bound⟩ => ("name", .text name) :: boundMember bound

def boundMember : Option WireType → List (String × Json)
  | none => []
  | some t => [("constraint", toJson t)]

def fieldsToJson : List (Field WireType) → List Json
  | [] => []
  | f :: rest => fieldToJson f :: fieldsToJson rest

def fieldToJson : Field WireType → Json
  | ⟨name, t, wireName, optional, stringEncoded, skip, rules,
      doc⟩ =>
      .object
        ([("name", .text name), ("type", toJson t),
          ("wireName", .text wireName),
          ("optional", .bool optional),
          ("stringEncoded", .bool stringEncoded),
          ("skip", .bool skip)]
          ++ memberIf (!rules.isEmpty) "rawValidationTag"
            (.text rules)
          ++ doc.asMember)

end

end WireType

------------------------------------------------------------
-- Services, Warnings, Schemas
------------------------------------------------------------

def Endpoint.toJson (e : Endpoint) : Json :=
  .object
    ([("name", .text e.name), ("fullName", .text e.fullName),
      ("httpVerb", .text e.verb), ("path", .text e.path)]
      ++ memberOf? "request" (e.request.map WireType.toJson)
      ++ [("response", e.response.toJson)]
      ++ e.doc.asMember)

def Service.toJson (v : Service) : Json :=
  .object
    ([("name", .text v.name),
      ("endpoints", .array (v.endpoints.map Endpoint.toJson))]
      ++ v.doc.asMember)

def Warning.members (w : Warning) : List (String × Json) :=
  [("code", .text w.kind.code), ("message", .text w.message)]
    ++ memberOf? "location" (w.place.map SourcePlace.toJson)
    ++ memberOf? "typeName" (w.typeName.map .text)

def Warning.toJson (w : Warning) : Json :=
  .object w.members

def Schema.toJson (s : Schema) : Json :=
  .object
    [("version", .nat s.version),
      ("types", .array (s.types.map WireType.toJson)),
      ("services", .array (s.services.map Service.toJson)),
      ("warnings", .array (s.warnings.map Warning.toJson))]

/- The document of a schema, indented. -/
def Schema.document (s : Schema) : String :=
  s.toJson.pretty

end WireSchema
