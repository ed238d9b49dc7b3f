import WireSchema.Emit.Scope

/-
  Declarations of types and services.

  Key definitions include:
    * `EmitScope.recordText`, `synonymText`, `enumText`
    * `EmitScope.declarationText`
    * `EmitScope.servicesText`
-/

namespace WireSchema

namespace EmitScope

------------------------------------------------------------
-- Type Parameters
------------------------------------------------------------

/- A bound that every type meets. -/
def isTrivialBound : WireType → Bool
  | .base .any _ => true
  | _ => false

/- A parameter with its bound, which is also its default. -/
def paramText (x : EmitScope) (p : TypeParam WireType) :
    Except EmitError String :=
  match p.bound with
  | none => .ok (p.name ++ " = unknown")
  | some bound =>
      if isTrivialBound bound then .ok (p.name ++ " = unknown")
      else do
        let bound ← x.expression bound
        .ok (p.name ++ " extends " ++ bound ++ " = " ++ bound)

/- The parameters in angle brackets; none leave no brackets. -/
def paramsText (x : EmitScope)
    (params : List (TypeParam WireType)) :
    Except EmitError String :=
  if params.isEmpty then .ok ""
  else do
    let parts ← params.mapM x.paramText
    .ok ("<" ++ Text.joinWith ", " parts ++ ">")

------------------------------------------------------------
-- Records
------------------------------------------------------------

/- The type of a field; null is added by its pointers. -/
def fieldType (x : EmitScope) (f : Field WireType) :
    Except EmitError String :=
  if f.stringEncoded then
    .ok (if f.type.isPointer then "string | null" else "string")
  else x.expression f.type

def fieldText (x : EmitScope) (f : Field WireType) :
    Except EmitError String := do
  let type ← x.fieldType f
  let null :=
    if f.optional && x.options.absentMark == .null
      && !f.type.isPointer then " | null"
    else ""
  let mark := if f.optional then "?: " else ": "
  .ok
    (x.memberComment f.doc "  " ++ "  "
      ++ propertyKey f.wireName ++ mark ++ type ++ null ++ ";\n")

/- The fields that travel. -/
def sentFields (d : RecordDecl WireType) :
    List (Field WireType) :=
  d.fields.filter fun f => !f.skip

def recordText (x : EmitScope) (d : RecordDecl WireType) :
    Except EmitError String := do
  let name ← x.name d.id
  let params ← x.paramsText d.params
  let parents ← d.parents.mapM x.name
  let fields ← (sentFields d).mapM x.fieldText
  let heritage :=
    if parents.isEmpty then ""
    else " extends " ++ Text.joinWith ", " parents
  .ok
    (x.typeComment d.doc "" ++ "export interface " ++ name
      ++ params ++ heritage ++ " \x7b\n" ++ String.join fields
      ++ "\x7d\n")

------------------------------------------------------------
-- Synonyms and Enumerations
------------------------------------------------------------

def synonymText (x : EmitScope) (d : SynonymDecl WireType) :
    Except EmitError String := do
  let name ← x.name d.id
  let params ← x.paramsText d.params
  let target ← x.expression d.target
  .ok
    (x.typeComment d.doc "" ++ "export type " ++ name ++ params
      ++ " = " ++ target ++ ";\n")

/- Alternatives; without any there is no value. -/
def alternatives (parts : List String) : String :=
  if parts.isEmpty then "never"
  else Text.joinWith " | " parts

/-
  The name of a member inside its enumeration: the name of
  the enumeration is dropped from its front if an upper case
  letter follows.
-/
def memberName (enumName member : String) : String :=
  match Text.afterHead? enumName.toList member.toList with
  | some (c :: rest) =>
      if c.isUpper then String.ofList (c :: rest) else member
  | _ => member

/- A member of an enumeration with names of its own. -/
def nativeMember
    (x : EmitScope)
    (enumName : String)
    (m : EnumMember) : String :=
  x.memberComment m.doc "  " ++ "  "
    ++ memberName enumName m.name ++ " = " ++ m.value.code
    ++ ",\n"

/- A member as a constant beside the type. -/
def constantMember (x : EmitScope) (m : EnumMember) : String :=
  x.memberComment m.doc "" ++ "export const " ++ m.name ++ " = "
    ++ m.value.code ++ ";\n"

def enumBody
    (x : EmitScope)
    (name : String)
    (members : List EnumMember) : String :=
  match x.options.enumStyle with
  | .taggedUnion =>
      "export type " ++ name ++ " = "
        ++ alternatives (members.map fun m => m.value.code)
        ++ ";\n"
  | .nativeEnum =>
      "export enum " ++ name ++ " \x7b\n"
        ++ String.join (members.map (x.nativeMember name))
        ++ "\x7d\n"
  | .flatConstants =>
      String.join (members.map x.constantMember)
        ++ "export type " ++ name ++ " = "
        ++ alternatives
          (members.map fun m => "typeof " ++ m.name)
        ++ ";\n"

def enumText (x : EmitScope) (d : EnumDecl) :
    Except EmitError String := do
  let name ← x.name d.id
  .ok (x.typeComment d.doc "" ++ x.enumBody name d.members)

/- The declaration of a type. -/
def declarationText (x : EmitScope) :
    WireType → Except EmitError String
  | .record d => x.recordText d
  | .synonym d => x.synonymText d
  | .enum d => x.enumText d
  | t => .error (.unsupported t.kindName)

------------------------------------------------------------
-- Services
------------------------------------------------------------

/- A method that promises the answer to a request. -/
def endpointText (x : EmitScope) (e : Endpoint) :
    Except EmitError String := do
  let response ← x.expression e.response
  let request ←
    match e.request with
    | some t => do
        let t ← x.expression t
        .ok ("request: " ++ t)
    | none => .ok ""
  .ok
    (x.typeComment e.doc "  " ++ "  " ++ e.name ++ "("
      ++ request ++ "): Promise<" ++ response ++ ">;\n")

def serviceText (x : EmitScope) (v : Service) :
    Except EmitError String := do
  let methods ← v.endpoints.mapM x.endpointText
  .ok
    (x.typeComment v.doc "" ++ "export interface " ++ v.name
      ++ "Service \x7b\n" ++ String.join methods ++ "\x7d\n\n")

def routeText (e : Endpoint) : String :=
  "  " ++ Text.quote e.fullName ++ ": \x7b verb: "
    ++ Text.quote e.verb ++ ", path: " ++ Text.quote e.path
    ++ " \x7d,\n"

/- All endpoints of a schema, service by service. -/
def endpoints (x : EmitScope) : List Endpoint :=
  x.schema.services.flatMap Service.endpoints

/- The table of routes; without endpoints there is none. -/
def routesText (x : EmitScope) : String :=
  if x.endpoints.isEmpty then ""
  else
    "export const routes = \x7b\n"
      ++ String.join (x.endpoints.map routeText)
      ++ "\x7d as const;\n"

/- The interfaces of the services and the table of routes. -/
def servicesText (x : EmitScope) :
    Except EmitError String := do
  let services ← x.schema.services.mapM x.serviceText
  .ok (String.join services ++ x.routesText)

end EmitScope

end WireSchema
