import WireSchema.Proofs.Validator.Rendering

/-
  What a file of base types exports, statement by statement.

  A statement exports one name.  An interface and a native
  enumeration have a line for each member under a key; in the
  flat style the members of an enumeration are statements of
  their own.  Put one behind the other, the statements are
  the text of the file.

  Key definitions include:
    * `MemberLine`, `ExportStatement`, `ExportOutline`
    * `EmitScope.exportsOf`
    * `EmitScope.serviceExports`, `EmitScope.serviceOutlines`
    * `Schema.exports`
    * `Schema.baseFiles_eq_exports`
-/

namespace WireSchema

------------------------------------------------------------
-- Statements
------------------------------------------------------------

/- A line for a member, with the comment in front of it. -/
structure MemberLine where
  comment : String
  key : String
  rest : String

def MemberLine.text (m : MemberLine) : String :=
  m.comment ++ "  " ++ m.key ++ m.rest

/- What a name is exported as. -/
inductive ExportForm where
  | interface
  | synonym
  | enumeration
  | constant
  deriving DecidableEq, Repr

def ExportForm.word : ExportForm → String
  | .interface => "interface"
  | .synonym => "type"
  | .enumeration => "enum"
  | .constant => "const"

/-
  The export of a name.  The front is what stands before the
  statement: empty lines and comments.
-/
structure ExportStatement where
  front : String
  form : ExportForm
  name : String
  opening : String
  members : List MemberLine := []
  closing : String := ""

/- The names in a statement, and what they are names of. -/
structure ExportOutline where
  form : ExportForm
  name : String
  keys : List String
  deriving DecidableEq, Repr

namespace ExportStatement

def text (e : ExportStatement) : String :=
  e.front ++ "export " ++ e.form.word ++ " " ++ e.name ++ e.opening
    ++ String.join (e.members.map MemberLine.text) ++ e.closing

/- Statements one behind the other. -/
def listText (es : List ExportStatement) : String :=
  String.join (es.map text)

/- The keys of the members. -/
def keys (e : ExportStatement) : List String :=
  e.members.map MemberLine.key

def outline (e : ExportStatement) : ExportOutline :=
  { form := e.form, name := e.name, keys := e.keys }

/- Put a text in front of the first of some statements. -/
def behind (front : String) :
    List ExportStatement → List ExportStatement
  | [] => []
  | e :: rest => { e with front := front ++ e.front } :: rest

variable {es : List ExportStatement}

theorem listText_append (es others : List ExportStatement) :
    listText (es ++ others) = listText es ++ listText others := by
  unfold listText
  rw [List.map_append, String.join_append]

theorem listText_singleton (e : ExportStatement) :
    listText [e] = e.text := by
  simp [listText]

theorem listText_behind
    (front : String)
    (h : es ≠ []) :
    listText (behind front es) = front ++ listText es := by
  cases es with
  | nil => exact absurd rfl h
  | cons e rest =>
      unfold listText behind
      rw [List.map_cons, List.map_cons, String.join_cons,
        String.join_cons, ← String.append_assoc]
      simp [text, String.append_assoc]

/- What does not depend on the front is the same behind it. -/
theorem map_behind
    {β : Type}
    {f : ExportStatement → β}
    (hf : ∀ e front, f { e with front } = f e)
    (front : String)
    (es : List ExportStatement) :
    (behind front es).map f = es.map f := by
  cases es with
  | nil => rfl
  | cons e rest =>
      unfold behind
      rw [List.map_cons, List.map_cons, hf]

theorem filterMap_behind
    {β : Type}
    {f : ExportStatement → Option β}
    (hf : ∀ e front, f { e with front } = f e)
    (front : String)
    (es : List ExportStatement) :
    (behind front es).filterMap f = es.filterMap f := by
  cases es with
  | nil => rfl
  | cons e rest =>
      unfold behind
      rw [List.filterMap_cons, List.filterMap_cons, hf]

theorem listText_isEmpty_iff :
    (listText es).isEmpty = true ↔ es = [] := by
  cases es with
  | nil => exact iff_of_true rfl rfl
  | cons e rest =>
      simp [listText, text, String.join_cons]

end ExportStatement

namespace EmitScope

variable {x : EmitScope}

------------------------------------------------------------
-- Types
------------------------------------------------------------

def fieldLine (x : EmitScope) (f : Field WireType) :
    Except EmitError MemberLine := do
  let type ← x.fieldType f
  let null :=
    if f.optional && x.options.absentMark == .null
      && !f.type.isPointer then " | null"
    else ""
  let mark := if f.optional then "?: " else ": "
  .ok
    { comment := x.memberComment f.doc "  "
      key := propertyKey f.wireName
      rest := mark ++ type ++ null ++ ";\n" }

def recordExport (x : EmitScope) (d : RecordDecl WireType) :
    Except EmitError ExportStatement := do
  let name ← x.name d.id
  let params ← x.paramsText d.params
  let parents ← d.parents.mapM x.name
  let members ← (sentFields d).mapM x.fieldLine
  let heritage :=
    if parents.isEmpty then ""
    else " extends " ++ Text.joinWith ", " parents
  .ok
    { front := x.typeComment d.doc ""
      form := .interface
      name
      opening := params ++ heritage ++ " \x7b\n"
      members
      closing := "\x7d\n" }

def synonymExport (x : EmitScope) (d : SynonymDecl WireType) :
    Except EmitError ExportStatement := do
  let name ← x.name d.id
  let params ← x.paramsText d.params
  let target ← x.expression d.target
  .ok
    { front := x.typeComment d.doc ""
      form := .synonym
      name
      opening := params ++ " = " ++ target ++ ";\n" }

/- A member of an enumeration with names of its own. -/
def nativeLine
    (x : EmitScope)
    (enumName : String)
    (m : EnumMember) : MemberLine :=
  { comment := x.memberComment m.doc "  "
    key := memberName enumName m.name
    rest := " = " ++ m.value.code ++ ",\n" }

def constantExport
    (x : EmitScope)
    (m : EnumMember) : ExportStatement :=
  { front := x.memberComment m.doc ""
    form := .constant
    name := m.name
    opening := " = " ++ m.value.code ++ ";\n" }

/- The type of the values of an enumeration. -/
def valuesExport
    (name : String)
    (values : List String) : ExportStatement :=
  { front := ""
    form := .synonym
    name
    opening := " = " ++ alternatives values ++ ";\n" }

/- The type of an enumeration, and its constants before it. -/
def enumExports
    (x : EmitScope)
    (name : String)
    (members : List EnumMember) : List ExportStatement :=
  match x.options.enumStyle with
  | .taggedUnion =>
      [valuesExport name (members.map fun m => m.value.code)]
  | .nativeEnum =>
      [{ front := ""
         form := .enumeration
         name
         opening := " \x7b\n"
         members := members.map (x.nativeLine name)
         closing := "\x7d\n" }]
  | .flatConstants =>
      members.map x.constantExport
        ++ [valuesExport name
          (members.map fun m => "typeof " ++ m.name)]

/- The statements that declare a type. -/
def exportsOf (x : EmitScope) :
    WireType → Except EmitError (List ExportStatement)
  | .record d => do
      let e ← x.recordExport d
      .ok [e]
  | .synonym d => do
      let e ← x.synonymExport d
      .ok [e]
  | .enum d => do
      let name ← x.name d.id
      .ok
        (ExportStatement.behind (x.typeComment d.doc "")
          (x.enumExports name d.members))
  | t => .error (.unsupported t.kindName)

/- Declarations up to the first that there is none for. -/
def typeExports (x : EmitScope) :
    List WireType →
      Except (TypeName × EmitError) (List ExportStatement)
  | [] => .ok []
  | t :: rest =>
      match t.id? with
      | none => typeExports x rest
      | some id =>
          match x.exportsOf t with
          | .error e => .error (id, e)
          | .ok es => do
              let more ← typeExports (x.markEmitted id) rest
              .ok (ExportStatement.behind "\n" es ++ more)

theorem fieldText_eq_line (f : Field WireType) :
    x.fieldText f = (x.fieldLine f).map MemberLine.text := by
  unfold fieldText fieldLine
  rw [map_of_bind]
  simp only [Except.map, MemberLine.text, String.append_assoc]

theorem recordText_eq_export (d : RecordDecl WireType) :
    x.recordText d =
      (x.recordExport d).map ExportStatement.text := by
  unfold recordText recordExport
  rw [mapM_map fieldText_eq_line]
  simp only [bind_of_map, map_of_bind]
  simp [Except.map, ExportStatement.text, ExportForm.word,
    String.append_assoc]

theorem synonymText_eq_export (d : SynonymDecl WireType) :
    x.synonymText d =
      (x.synonymExport d).map ExportStatement.text := by
  unfold synonymText synonymExport
  simp only [map_of_bind]
  simp [Except.map, ExportStatement.text, ExportForm.word,
    String.append_assoc]

theorem text_valuesStatement
    (name : String)
    (values : List String) :
    (valuesExport name values).text =
      "export type " ++ name ++ " = " ++ alternatives values
        ++ ";\n" := by
  simp [valuesExport, ExportStatement.text, ExportForm.word,
    String.append_assoc]

theorem enumBody_eq_exports
    (name : String)
    (members : List EnumMember) :
    x.enumBody name members =
      ExportStatement.listText (x.enumExports name members) := by
  have hConstants :
      String.join (members.map x.constantMember) =
        ExportStatement.listText
          (members.map x.constantExport) := by
    unfold ExportStatement.listText
    rw [List.map_map]
    congr 1
    apply List.map_congr_left
    intro m _
    simp [constantMember, constantExport, ExportStatement.text,
      ExportForm.word, String.append_assoc]
  have hLines : members.map (x.nativeMember name) =
      (members.map (x.nativeLine name)).map MemberLine.text := by
    rw [List.map_map]
    apply List.map_congr_left
    intro m _
    simp [nativeMember, nativeLine, MemberLine.text,
      String.append_assoc]
  unfold enumBody enumExports
  cases x.options.enumStyle with
  | taggedUnion =>
      dsimp only
      rw [ExportStatement.listText_singleton, text_valuesStatement]
  | nativeEnum =>
      dsimp only
      rw [ExportStatement.listText_singleton, hLines]
      simp [ExportStatement.text, ExportForm.word]
  | flatConstants =>
      dsimp only
      rw [hConstants, ExportStatement.listText_append,
        ExportStatement.listText_singleton, text_valuesStatement]
      simp only [String.append_assoc]

theorem enumExports_ne_nil
    (name : String)
    (members : List EnumMember) :
    x.enumExports name members ≠ [] := by
  unfold enumExports
  split
  · exact List.cons_ne_nil _ _
  · exact List.cons_ne_nil _ _
  · exact List.append_ne_nil_of_right_ne_nil _
      (List.cons_ne_nil _ _)

/- A declaration is the text of its statements. -/
theorem declarationText_eq_exports (t : WireType) :
    x.declarationText t =
      (x.exportsOf t).map ExportStatement.listText := by
  have hOne : ∀ r : Except EmitError ExportStatement,
      r.map ExportStatement.text =
        (r.map fun e => [e]).map ExportStatement.listText := by
    intro r
    cases r with
    | error e => rfl
    | ok e =>
        exact congrArg Except.ok
          (ExportStatement.listText_singleton e).symm
  cases t with
  | record d => exact (recordText_eq_export d).trans (hOne _)
  | synonym d => exact (synonymText_eq_export d).trans (hOne _)
  | enum d =>
      change x.enumText d = _
      unfold enumText exportsOf
      rw [map_of_bind]
      simp only [Except.map, enumBody_eq_exports,
        ExportStatement.listText_behind _
          (enumExports_ne_nil _ _)]
  | _ => rfl

theorem exportsOf_ne_nil
    {t : WireType}
    {es : List ExportStatement}
    (h : x.exportsOf t = .ok es) : es ≠ [] := by
  cases t with
  | record d =>
      rcases eq_ok_of_bind h with ⟨e, -, h⟩
      cases h
      exact List.cons_ne_nil _ _
  | synonym d =>
      rcases eq_ok_of_bind h with ⟨e, -, h⟩
      cases h
      exact List.cons_ne_nil _ _
  | enum d =>
      rcases eq_ok_of_bind h with ⟨name, -, h⟩
      cases h
      unfold ExportStatement.behind
      split
      · next hNone => exact absurd hNone (enumExports_ne_nil _ _)
      · exact List.cons_ne_nil _ _
  | _ => cases h

/- What is written is the text of the statements. -/
theorem writeAll_baseEmitter_eq_exports
    (x : EmitScope)
    (ts : List WireType) :
    (x.writeAll baseEmitter ts).map
        (fun w => (w.scope, spacedChunks w.chunks, w.warnings)) =
      (x.typeExports ts).map fun es =>
        (x.markAll ts, ExportStatement.listText es, []) := by
  induction ts generalizing x with
  | nil => rfl
  | cons t rest ih =>
      unfold writeAll typeExports
      cases hId : t.id? with
      | none =>
          rw [x.markAll_of_id?_eq_none hId]
          exact ih x
      | some id =>
          rw [x.markAll_of_id?_eq_some hId]
          dsimp only [baseEmitter]
          rw [declarationText_eq_exports]
          cases hOwn : x.exportsOf t with
          | error e => rfl
          | ok es =>
              have hText := ExportStatement.listText_behind "\n"
                (exportsOf_ne_nil hOwn)
              have hRest := ih (x.markEmitted id)
              revert hRest
              cases writeAll baseEmitter (x.markEmitted id) rest with
              | error e =>
                  cases (x.markEmitted id).typeExports rest with
                  | error e' =>
                      intro hRest
                      cases hRest
                      rfl
                  | ok more =>
                      intro hRest
                      cases hRest
              | ok w =>
                  cases (x.markEmitted id).typeExports rest with
                  | error e' =>
                      intro hRest
                      cases hRest
                  | ok more =>
                      intro hRest
                      simp only [Except.map, Except.ok.injEq,
                        Prod.mk.injEq] at hRest
                      rcases hRest with ⟨hScope, hChunks, hNone⟩
                      simp only [Except.map, bind, Except.bind,
                        hScope, hNone, List.append_nil,
                        ExportStatement.listText_append, hText,
                        ← hChunks]
                      simp [spacedChunks]

------------------------------------------------------------
-- Services
------------------------------------------------------------

/- A method that promises the answer to a request. -/
def methodLine (x : EmitScope) (e : Endpoint) :
    Except EmitError MemberLine := do
  let response ← x.expression e.response
  let request ←
    match e.request with
    | some t => do
        let t ← x.expression t
        .ok ("request: " ++ t)
    | none => .ok ""
  .ok
    { comment := x.typeComment e.doc "  "
      key := e.name
      rest := "(" ++ request ++ "): Promise<" ++ response ++ ">;\n" }

/- The name of the interface of a service. -/
def interfaceName (v : Service) : String :=
  v.name ++ "Service"

def serviceExport (x : EmitScope) (v : Service) :
    Except EmitError ExportStatement := do
  let members ← v.endpoints.mapM x.methodLine
  .ok
    { front := x.typeComment v.doc ""
      form := .interface
      name := interfaceName v
      opening := " \x7b\n"
      members
      closing := "\x7d\n\n" }

def routeLine (e : Endpoint) : MemberLine :=
  { comment := ""
    key := Text.quote e.fullName
    rest :=
      ": \x7b verb: " ++ Text.quote e.verb ++ ", path: "
        ++ Text.quote e.path ++ " \x7d,\n" }

/- The name of the table of routes. -/
def routesName : String := "routes"

/- The table of routes; without endpoints there is none. -/
def routeExports (x : EmitScope) : List ExportStatement :=
  if x.endpoints.isEmpty then []
  else
    [{ front := ""
       form := .constant
       name := routesName
       opening := " = \x7b\n"
       members := x.endpoints.map routeLine
       closing := "\x7d as const;\n" }]

def serviceExports (x : EmitScope) :
    Except EmitError (List ExportStatement) := do
  let services ← x.schema.services.mapM x.serviceExport
  .ok (services ++ x.routeExports)

def interfaceOutline (v : Service) : ExportOutline :=
  { form := .interface
    name := interfaceName v
    keys := v.endpoints.map Endpoint.name }

def routesOutline (endpoints : List Endpoint) : ExportOutline :=
  { form := .constant
    name := routesName
    keys := endpoints.map fun e => Text.quote e.fullName }

/- The names in the interfaces and in the table of routes. -/
def serviceOutlines (x : EmitScope) : List ExportOutline :=
  x.schema.services.map interfaceOutline
    ++ if x.endpoints.isEmpty then []
      else [routesOutline x.endpoints]

theorem outlines_of_serviceExports
    {es : List ExportStatement}
    (h : x.serviceExports = .ok es) :
    es.map ExportStatement.outline = x.serviceOutlines := by
  rcases eq_ok_of_bind h with ⟨services, hServices, h⟩
  cases h
  have hMethod : ∀ e m, x.methodLine e = .ok m → m.key = e.name := by
    intro e m hLine
    rcases eq_ok_of_bind hLine with ⟨response, -, hLine⟩
    dsimp only at hLine
    split at hLine
    · rcases eq_ok_of_bind hLine with ⟨request, -, hLine⟩
      cases hLine
      rfl
    · cases hLine
      rfl
  have hEach : ∀ v e, x.serviceExport v = .ok e →
      e.outline = interfaceOutline v := by
    intro v e hOne
    rcases eq_ok_of_bind hOne with ⟨members, hMembers, hOne⟩
    cases hOne
    have hKeys := map_eq_of_mapM hMembers
      fun m _ line hLine => hMethod m line hLine
    exact congrArg (ExportOutline.mk .interface (interfaceName v))
      hKeys
  rw [List.map_append,
    map_eq_of_mapM hServices fun v _ e hOne => hEach v e hOne]
  unfold serviceOutlines routeExports
  split
  · rfl
  · have hKeys : (x.endpoints.map routeLine).map MemberLine.key =
        x.endpoints.map fun e => Text.quote e.fullName := by
      rw [List.map_map]
      rfl
    rw [List.map_singleton]
    exact congrArg (fun keys => _ ++
      [ExportOutline.mk .constant routesName keys]) hKeys

theorem endpointText_eq_line (e : Endpoint) :
    x.endpointText e = (x.methodLine e).map MemberLine.text := by
  unfold endpointText methodLine
  rw [map_of_bind]
  cases e.request with
  | none =>
      simp [Except.map, bind, Except.bind, MemberLine.text,
        String.append_assoc]
  | some t =>
      simp only [map_of_bind]
      simp only [Except.map, MemberLine.text, String.append_assoc]

theorem serviceText_eq_export (v : Service) :
    x.serviceText v =
      (x.serviceExport v).map ExportStatement.text := by
  unfold serviceText serviceExport
  rw [mapM_map endpointText_eq_line, bind_of_map, map_of_bind]
  simp [Except.map, ExportStatement.text, ExportForm.word,
    interfaceName, String.append_assoc]

theorem routesText_eq_exports :
    x.routesText = ExportStatement.listText x.routeExports := by
  have hLines : x.endpoints.map routeText =
      (x.endpoints.map routeLine).map MemberLine.text := by
    rw [List.map_map]
    apply List.map_congr_left
    intro e _
    simp [routeText, routeLine, MemberLine.text,
      String.append_assoc]
  unfold routesText routeExports
  rw [hLines]
  split
  · rfl
  · rw [ExportStatement.listText_singleton]
    simp [ExportStatement.text, ExportForm.word, routesName]

theorem servicesText_eq_exports :
    x.servicesText =
      x.serviceExports.map ExportStatement.listText := by
  unfold servicesText serviceExports
  rw [mapM_map serviceText_eq_export, bind_of_map, map_of_bind,
    routesText_eq_exports]
  simp only [Except.map, ExportStatement.listText_append]
  rfl

/- Declarations and services in one file. -/
theorem layOut_eq_exports
    (hSingle : x.options.singleFile = true)
    (chunks : List Chunk) :
    x.layOut chunks =
      x.serviceExports.map fun es =>
        [{ path := x.options.baseName ++ ".ts"
           contents :=
             fileHeader ++ spacedChunks chunks
               ++ ExportStatement.listText
                 (ExportStatement.behind "\n" es) }] := by
  unfold layOut
  rw [servicesText_eq_exports, bind_of_map, hSingle]
  cases x.serviceExports with
  | error e => rfl
  | ok es =>
      dsimp only [Except.map, bind, Except.bind]
      rw [if_pos rfl]
      by_cases hNone : es = []
      · rw [hNone]
        rfl
      · rw [if_neg fun h =>
            hNone (ExportStatement.listText_isEmpty_iff.mp h),
          ExportStatement.listText_behind _ hNone]

end EmitScope

------------------------------------------------------------
-- Files
------------------------------------------------------------

namespace Schema

/- The statements of the file of a schema. -/
def exports (s : Schema) (o : EmitOptions) :
    Except EmissionFault (List ExportStatement) := do
  let x := EmitScope.ofSchema s o
  let order := s.emitOrder x.names
  let types ←
    (x.typeExports order).mapError
      fun e => ⟨baseEmitterName, e.1.qualified, e.2⟩
  let services ←
    (x.markAll order).serviceExports.mapError
      fun e => ⟨baseEmitterName, "services", e⟩
  .ok (types ++ ExportStatement.behind "\n" services)

/- The one file that holds given statements. -/
def exportFile
    (o : EmitOptions)
    (es : List ExportStatement) : OutputFile :=
  { path := o.baseName ++ ".ts"
    contents := fileHeader ++ ExportStatement.listText es }

/-
  The one file of the base types is the text of its
  statements.
-/
theorem baseFiles_eq_exports
    {o : EmitOptions}
    (hSingle : o.singleFile = true)
    (s : Schema) :
    s.baseFiles o =
      (s.exports o).map fun es => { files := [exportFile o es] } := by
  have hOptions : (EmitScope.ofSchema s o).options = o := rfl
  have hTypes :=
    (EmitScope.ofSchema s o).writeAll_baseEmitter_eq_exports
      (s.emitOrder (EmitScope.ofSchema s o).names)
  unfold baseFiles exports EmitScope.writeSchema
  dsimp only
  have hSchema : (EmitScope.ofSchema s o).schema = s := rfl
  rw [hSchema]
  generalize EmitScope.ofSchema s o = x at hOptions hTypes
  have hSame : (x.markAll (s.emitOrder x.names)).options = o := by
    rw [EmitScope.markAll_eq]
    exact hOptions
  revert hTypes
  cases x.writeAll EmitScope.baseEmitter (s.emitOrder x.names) with
  | error e =>
      cases x.typeExports (s.emitOrder x.names) with
      | error e' =>
          intro hTypes
          cases hTypes
          rfl
      | ok es => nofun
  | ok w =>
      cases x.typeExports (s.emitOrder x.names) with
      | error e' => nofun
      | ok es =>
          intro hTypes
          simp only [Except.map, Except.ok.injEq,
            Prod.mk.injEq] at hTypes
          rcases hTypes with ⟨hScope, hChunks, hNone⟩
          dsimp only [Except.mapError, bind, Except.bind]
          rw [hScope, hNone,
            EmitScope.layOut_eq_exports (by rw [hSame, hSingle]),
            hChunks, hSame]
          cases (x.markAll (s.emitOrder x.names)).serviceExports with
          | error e => rfl
          | ok vs =>
              simp [Except.map, exportFile,
                ExportStatement.listText_append,
                String.append_assoc]

end Schema

end WireSchema
