import WireSchema.Emit.Files
import WireSchema.Proofs.Validator.Program

/-
  The files of the base types as a program.

  A program has a module of declarations for each namespace
  and an index with the services.  Declarations and services
  say which types they mention by name, and each file says
  which names it imports from which module.

  Key definitions include:
    * `TypeTerm`, `TypeTerm.mentions`
    * `BaseDeclaration`, `ServiceTerm`
    * `BaseModule`, `BaseProgram`
    * `EmitScope.programOf`
-/

namespace WireSchema

------------------------------------------------------------
-- Type Expressions
------------------------------------------------------------

/-
  A type expression.  A declared type is the only thing that
  it mentions; parameters belong to the declaration around.
-/
inductive TypeTerm where
  | base (kind : BaseKind)
  | null
  | param (name : String)
  | named (target : SchemaRef)
  | array (elem : TypeTerm)
  | dictionary (value : TypeTerm)
  | nullable (inner : TypeTerm)
  | union (members : List TypeTerm)

namespace TypeTerm

mutual

def text : TypeTerm → String
  | .base kind => baseExpression kind
  | .null => "null"
  | .param name => name
  | .named target => target.name
  | .array elem => arrayExpression (text elem)
  | .dictionary value => "Record<string, " ++ text value ++ ">"
  | .nullable inner => text inner ++ " | null"
  | .union members => Text.joinWith " | " (texts members)

def texts : List TypeTerm → List String
  | [] => []
  | e :: rest => text e :: texts rest

end

mutual

/- The types whose names stand in an expression, in order. -/
def mentions : TypeTerm → List SchemaRef
  | .base _ => []
  | .null => []
  | .param _ => []
  | .named target => [target]
  | .array elem => mentions elem
  | .dictionary value => mentions value
  | .nullable inner => mentions inner
  | .union members => mentionsInAll members

def mentionsInAll : List TypeTerm → List SchemaRef
  | [] => []
  | e :: rest => mentions e ++ mentionsInAll rest

end

/- What stands in an expression that may be absent. -/
def mentionsIn? (e : Option TypeTerm) : List SchemaRef :=
  e.elim [] mentions

end TypeTerm

------------------------------------------------------------
-- Declarations
------------------------------------------------------------

/- A type parameter; one without a bound may be anything. -/
structure ParamTerm where
  name : String
  bound : Option TypeTerm

namespace ParamTerm

def text (p : ParamTerm) : String :=
  match p.bound with
  | none => p.name ++ " = unknown"
  | some bound =>
      p.name ++ " extends " ++ bound.text ++ " = " ++ bound.text

def mentions (p : ParamTerm) : List SchemaRef :=
  TypeTerm.mentionsIn? p.bound

/- Parameters in angle brackets; none leave no brackets. -/
def listText (params : List ParamTerm) : String :=
  if params.isEmpty then ""
  else "<" ++ Text.joinWith ", " (params.map text) ++ ">"

end ParamTerm

/- A property, with what stands before its type. -/
structure PropertyTerm where
  label : String
  value : TypeTerm

def PropertyTerm.text (p : PropertyTerm) : String :=
  p.label ++ p.value.text ++ ";\n"

/-
  What a type is declared as.  An enumeration mentions no
  other type, so it is the text around its name.
-/
inductive BaseBody where
  | object (parents : List SchemaRef) (properties : List PropertyTerm)
  | synonym (value : TypeTerm)
  | enumeration (front back : String)

def BaseBody.mentions : BaseBody → List SchemaRef
  | .object parents properties =>
      parents ++ properties.flatMap fun p => p.value.mentions
  | .synonym value => value.mentions
  | .enumeration .. => []

/- The declaration of a type. -/
structure BaseDeclaration where
  target : SchemaRef
  comment : String
  params : List ParamTerm
  body : BaseBody

namespace BaseDeclaration

def text (d : BaseDeclaration) : String :=
  let opening := d.target.name ++ ParamTerm.listText d.params
  match d.body with
  | .object parents properties =>
      let heritage :=
        if parents.isEmpty then ""
        else
          " extends "
            ++ Text.joinWith ", " (parents.map SchemaRef.name)
      d.comment ++ "export interface " ++ opening ++ heritage
        ++ " \x7b\n"
        ++ String.join (properties.map PropertyTerm.text)
        ++ "\x7d\n"
  | .synonym value =>
      d.comment ++ "export type " ++ opening ++ " = " ++ value.text
        ++ ";\n"
  | .enumeration front back =>
      d.comment ++ front ++ d.target.name ++ back

/- All types whose names stand in a declaration. -/
def mentions (d : BaseDeclaration) : List SchemaRef :=
  d.target :: (d.params.flatMap ParamTerm.mentions ++ d.body.mentions)

def chunk (d : BaseDeclaration) : Chunk :=
  { id := d.target.id, text := d.text }

end BaseDeclaration

------------------------------------------------------------
-- Services
------------------------------------------------------------

/- A method, with what stands before its parameter. -/
structure MethodTerm where
  label : String
  request : Option TypeTerm
  response : TypeTerm

namespace MethodTerm

def text (m : MethodTerm) : String :=
  let request :=
    match m.request with
    | some e => "request: " ++ e.text
    | none => ""
  m.label ++ "(" ++ request ++ "): Promise<" ++ m.response.text
    ++ ">;\n"

def mentions (m : MethodTerm) : List SchemaRef :=
  TypeTerm.mentionsIn? m.request ++ m.response.mentions

end MethodTerm

/- The interface of a service. -/
structure ServiceTerm where
  comment : String
  name : String
  methods : List MethodTerm

namespace ServiceTerm

def text (v : ServiceTerm) : String :=
  v.comment ++ "export interface " ++ v.name ++ "Service \x7b\n"
    ++ String.join (v.methods.map MethodTerm.text) ++ "\x7d\n\n"

def mentions (v : ServiceTerm) : List SchemaRef :=
  v.methods.flatMap MethodTerm.mentions

end ServiceTerm

------------------------------------------------------------
-- Files
------------------------------------------------------------

/- The file of a namespace. -/
structure BaseModule where
  space : String
  stem : String
  imports : List EmitScope.ImportGroup
  declarations : List BaseDeclaration

namespace BaseModule

/- Imports are from files in the same directory. -/
def file (baseName : String) (m : BaseModule) : OutputFile :=
  { path := baseName ++ "/" ++ m.stem ++ ".ts"
    contents :=
      fileHeader
        ++ String.join (m.imports.map (EmitScope.importLine "./"))
        ++ spacedChunks (m.declarations.map BaseDeclaration.chunk) }

/- The types that a module declares. -/
def declared (m : BaseModule) : List SchemaRef :=
  m.declarations.map BaseDeclaration.target

/- The types whose names stand in the declarations. -/
def mentions (m : BaseModule) : List SchemaRef :=
  m.declarations.flatMap BaseDeclaration.mentions

end BaseModule

/-
  The modules, and the file that exports all of them and has
  the services.
-/
structure BaseProgram where
  modules : List BaseModule
  exports : List String
  imports : List EmitScope.ImportGroup
  services : List ServiceTerm
  routes : String

namespace BaseProgram

/- The services and the table of routes. -/
def servicesText (p : BaseProgram) : String :=
  String.join (p.services.map ServiceTerm.text) ++ p.routes

/- Imports of the index are from the directory beside it. -/
def index (baseName : String) (p : BaseProgram) : OutputFile :=
  let exportLines := p.exports.map fun stem =>
    "export * from \"./" ++ baseName ++ "/" ++ stem ++ "\";\n"
  let imports :=
    String.join
      (p.imports.map
        (EmitScope.importLine ("./" ++ baseName ++ "/")))
  let rest :=
    if p.servicesText.isEmpty then ""
    else "\n" ++ imports ++ "\n" ++ p.servicesText
  { path := baseName ++ ".ts"
    contents := fileHeader ++ "\n" ++ String.join exportLines ++ rest }

def files (baseName : String) (p : BaseProgram) : List OutputFile :=
  p.modules.map (BaseModule.file baseName) ++ [p.index baseName]

/- The types whose names stand in the services. -/
def mentions (p : BaseProgram) : List SchemaRef :=
  p.services.flatMap ServiceTerm.mentions

end BaseProgram

------------------------------------------------------------
-- Expressions of Types
------------------------------------------------------------

namespace EmitScope

mutual

/- The expression for a type that is no declaration. -/
def typeTerm (x : EmitScope) :
    WireType → Except EmitError TypeTerm
  | .base kind _ => .ok (.base kind)
  | .array elem _ => do
      let elem ← typeTerm x elem
      .ok (.array elem)
  | .map _ value => do
      let value ← typeTerm x value
      .ok (.dictionary value)
  | .reference id => do
      let target ← x.refOf id
      .ok (.named target)
  | .pointer (.base .empty _) => .ok .null
  | .pointer elem => do
      let elem ← typeTerm x elem
      .ok (.nullable elem)
  | .union members => do
      let parts ← typeTerms x members
      .ok (.union parts)
  | .param p => .ok (.param p.name)
  | .record d => .error (inlineError (.record d))
  | .synonym d => .error (inlineError (.synonym d))
  | .enum d => .error (inlineError (.enum d))

def typeTerms (x : EmitScope) :
    List WireType → Except EmitError (List TypeTerm)
  | [] => .ok []
  | t :: rest => do
      let part ← typeTerm x t
      let parts ← typeTerms x rest
      .ok (part :: parts)

end

------------------------------------------------------------
-- Declarations of Types
------------------------------------------------------------

def paramTerm (x : EmitScope) (p : TypeParam WireType) :
    Except EmitError ParamTerm :=
  match p.bound with
  | none => .ok { name := p.name, bound := none }
  | some bound =>
      if isTrivialBound bound then
        .ok { name := p.name, bound := none }
      else do
        let bound ← x.typeTerm bound
        .ok { name := p.name, bound := some bound }

/- The type of a field; null is added by its pointers. -/
def fieldTerm (x : EmitScope) (f : Field WireType) :
    Except EmitError TypeTerm :=
  if f.stringEncoded then
    .ok
      (if f.type.isPointer then .nullable (.base .string)
        else .base .string)
  else x.typeTerm f.type

/- Null may stand for the value of an absent field. -/
def propertyTerm (x : EmitScope) (f : Field WireType) :
    Except EmitError PropertyTerm := do
  let value ← x.fieldTerm f
  let isNullable :=
    f.optional && x.options.absentMark == .null
      && !f.type.isPointer
  let mark := if f.optional then "?: " else ": "
  .ok
    { label :=
        x.memberComment f.doc "  " ++ "  "
          ++ propertyKey f.wireName ++ mark
      value := if isNullable then .nullable value else value }

/- The text before and behind the name of an enumeration. -/
def enumAround
    (x : EmitScope)
    (name : String)
    (members : List EnumMember) : BaseBody :=
  match x.options.enumStyle with
  | .taggedUnion =>
      .enumeration "export type "
        (" = " ++ alternatives (members.map fun m => m.value.code)
          ++ ";\n")
  | .nativeEnum =>
      .enumeration "export enum "
        (" \x7b\n" ++ String.join (members.map (x.nativeMember name))
          ++ "\x7d\n")
  | .flatConstants =>
      .enumeration
        (String.join (members.map x.constantMember)
          ++ "export type ")
        (" = "
          ++ alternatives
            (members.map fun m => "typeof " ++ m.name)
          ++ ";\n")

/- The declaration of a type. -/
def declarationOf (x : EmitScope) :
    WireType → Except EmitError BaseDeclaration
  | .record d => do
      let target ← x.refOf d.id
      let params ← d.params.mapM x.paramTerm
      let parents ← d.parents.mapM x.refOf
      let properties ← (sentFields d).mapM x.propertyTerm
      .ok
        { target
          comment := x.typeComment d.doc ""
          params
          body := .object parents properties }
  | .synonym d => do
      let target ← x.refOf d.id
      let params ← d.params.mapM x.paramTerm
      let value ← x.typeTerm d.target
      .ok
        { target
          comment := x.typeComment d.doc ""
          params
          body := .synonym value }
  | .enum d => do
      let target ← x.refOf d.id
      .ok
        { target
          comment := x.typeComment d.doc ""
          params := []
          body := x.enumAround target.name d.members }
  | t => .error (.unsupported t.kindName)

/- Declarations up to the first that there is none for. -/
def declarationsOf (x : EmitScope) :
    List WireType →
      Except (TypeName × EmitError) (List BaseDeclaration)
  | [] => .ok []
  | t :: rest =>
      match t.id? with
      | none => declarationsOf x rest
      | some id =>
          match x.declarationOf t with
          | .error e => .error (id, e)
          | .ok d => do
              let more ← declarationsOf (x.markEmitted id) rest
              .ok (d :: more)

def methodTerm (x : EmitScope) (e : Endpoint) :
    Except EmitError MethodTerm := do
  let response ← x.typeTerm e.response
  let request ←
    match e.request with
    | some t => (x.typeTerm t).map some
    | none => .ok none
  .ok
    { label := x.typeComment e.doc "  " ++ "  " ++ e.name
      request
      response }

def serviceTerm (x : EmitScope) (v : Service) :
    Except EmitError ServiceTerm := do
  let methods ← v.endpoints.mapM x.methodTerm
  .ok { comment := x.typeComment v.doc "", name := v.name, methods }

------------------------------------------------------------
-- Files of Declarations
------------------------------------------------------------

/- The namespaces of declarations. -/
def spacesOf (ds : List BaseDeclaration) : List String :=
  ds.map fun d => d.target.id.space

/- The stem of the file for each of these namespaces. -/
def stemsOf
    (x : EmitScope)
    (ds : List BaseDeclaration) : FileStems :=
  .ofNamespaces (spacesOf ds) x.options.strippedPaths

/- The file of the declarations of a namespace. -/
def moduleOf
    (x : EmitScope)
    (ds : List BaseDeclaration)
    (space : String) : Except EmitError BaseModule := do
  let own := ds.filter fun d => d.target.id.space == space
  let foreign :=
    x.foreignNames
      { space, chunks := own.map BaseDeclaration.chunk }
  let imports ←
    x.importGroups (x.stemsOf ds) [] (sortNames foreign)
  .ok
    { space
      stem := ((x.stemsOf ds).find? space).getD "types"
      imports
      declarations := own }

/- Import what the services mention, unless there are none. -/
def importServices
    (x : EmitScope)
    (files : FileStems)
    (p : BaseProgram) : Except EmitError BaseProgram :=
  if p.servicesText.isEmpty then .ok p
  else do
    let imports ←
      x.importGroups files [] (sortNames x.serviceNames)
    .ok { p with imports }

/- The files of declarations and of the services. -/
def programOf (x : EmitScope) (ds : List BaseDeclaration) :
    Except EmitError BaseProgram := do
  let services ← x.schema.services.mapM x.serviceTerm
  let modules ← (sortTexts (spacesOf ds)).mapM (x.moduleOf ds)
  let stems := (x.stemsOf ds).stems.map Prod.snd
  x.importServices (x.stemsOf ds)
    { modules
      exports := sortUpTo textUpTo stems
      imports := []
      services
      routes := x.routesText }

end EmitScope

/- The program of the base types of a schema. -/
def Schema.baseProgram
    (s : Schema)
    (o : EmitOptions) :
    Except EmissionFault BaseProgram := do
  let fault := fun subject cause =>
    EmissionFault.mk baseEmitterName subject cause
  let x := EmitScope.ofSchema s o
  let order := s.emitOrder x.names
  let declarations ←
    (x.declarationsOf order).mapError
      fun e => fault e.1.qualified e.2
  ((x.markAll order).programOf declarations).mapError
    (fault "services")

end WireSchema
