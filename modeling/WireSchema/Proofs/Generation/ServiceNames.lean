import WireSchema.Proofs.Emit.Exports
import WireSchema.Proofs.Emit.Identifiers
import WireSchema.Proofs.Generation.Emission
import WireSchema.Proofs.Generation.Schema

/-
  Names of services and methods where they are printed.

  A key of a route is split at its first dot, and both parts
  are printed as they are: one names an interface, the other
  is a key in it.  The key of a field is put in quotes where
  it is no identifier; that of a method is not.  So it is for
  the routes to have names that can be printed.

  Key definitions include:
    * `ClosesLiteral`, `IsStringLiteral`, `IsMemberKey`
    * `ExportOutline.IsLexical`
    * `RouteTable.HasLexicalNames`
    * `RouteTable.buildSchema_lexical_iff`
-/

namespace WireSchema

------------------------------------------------------------
-- String Literals
------------------------------------------------------------

/-
  What may stand behind the quote that opens a string literal
  of the emitted language, up to the quote that closes it.
  A backslash hides the character behind it.  Of the digits
  only a zero may stand there, with no other one behind it,
  and after an x or a u stands the number of a character.
-/
inductive ClosesLiteral (mark : Char) : List Char → Prop where
  | close : ClosesLiteral mark [mark]
  | plain {c : Char} {s : List Char} :
      c ∉ [mark, '\\', '\n', '\r'] →
      ClosesLiteral mark s → ClosesLiteral mark (c :: s)
  | hidden {c : Char} {s : List Char} :
      c.isDigit = false → c ∉ ['x', 'u'] →
      ClosesLiteral mark s → ClosesLiteral mark ('\\' :: c :: s)
  | line {s : List Char} :
      ClosesLiteral mark s →
      ClosesLiteral mark ('\\' :: '\r' :: '\n' :: s)
  | zero {s : List Char} :
      (∀ c ∈ s.head?, c.isDigit = false) →
      ClosesLiteral mark s → ClosesLiteral mark ('\\' :: '0' :: s)
  | byte {digits s : List Char} :
      digits.length = 2 → digits.all Source.isHex = true →
      ClosesLiteral mark s →
      ClosesLiteral mark ('\\' :: 'x' :: (digits ++ s))
  | unit {digits s : List Char} :
      digits.length = 4 → digits.all Source.isHex = true →
      ClosesLiteral mark s →
      ClosesLiteral mark ('\\' :: 'u' :: (digits ++ s))
  | point {digits s : List Char} {n : Nat} :
      Source.naturalOf? 16 digits = some n → n ≤ 0x10FFFF →
      ClosesLiteral mark s →
      ClosesLiteral mark
        ('\\' :: 'u' :: '\x7b' :: (digits ++ '\x7d' :: s))

/- A string literal, in quotes of either kind. -/
def IsStringLiteral (text : String) : Prop :=
  ∃ mark ∈ ['"', '\''], ∃ s,
    text.toList = mark :: s ∧ ClosesLiteral mark s

/- What can stand for the key of a member. -/
def IsMemberKey (key : String) : Prop :=
  isIdentifier key.toList = true ∨ IsStringLiteral key

theorem isHex_hexCharacter :
    ∀ n < 16, Source.isHex (Text.hexCharacter n) = true := by
  decide

/- A character is escaped such that the literal goes on. -/
theorem ClosesLiteral.escaped
    {s : List Char}
    (h : ClosesLiteral '"' s)
    (c : Char) :
    ClosesLiteral '"' (Text.escapeForQuote c ++ s) := by
  unfold Text.escapeForQuote
  split_ifs with hQuote hSlash hLine hReturn hTab hControl
  · exact .hidden rfl (by decide) h
  · exact .hidden rfl (by decide) h
  · exact .hidden rfl (by decide) h
  · exact .hidden rfl (by decide) h
  · exact .hidden rfl (by decide) h
  · have hHigh := isHex_hexCharacter (c.toNat / 16) (by omega)
    have hLow := isHex_hexCharacter (c.toNat % 16) (by omega)
    have hZero : Source.isHex '0' = true := rfl
    change ClosesLiteral '"' ('\\' :: 'u' :: (['0', '0', _, _] ++ s))
    exact .unit rfl (by simp [hZero, hHigh, hLow]) h
  · exact .plain (by simp [hQuote, hSlash, hLine, hReturn]) h

theorem isStringLiteral_quote (text : String) :
    IsStringLiteral (Text.quote text) := by
  refine ⟨'"', by decide, _, String.toList_ofList, ?_⟩
  induction text.toList with
  | nil => exact .close
  | cons c s ih =>
      rw [List.flatMap_cons, List.append_assoc]
      exact ih.escaped c

------------------------------------------------------------
-- Tables of Services
------------------------------------------------------------

/- Names that can all stand where they are printed. -/
structure ExportOutline.IsLexical (u : ExportOutline) : Prop where
  name : isIdentifier u.name.toList = true
  keys : ∀ key ∈ u.keys, IsMemberKey key

namespace EmitScope

variable {x : EmitScope}

/- What stands behind the name of a service is harmless. -/
theorem isLexical_interfaceOutline_iff
    {v : Service}
    (hName : v.name ≠ "") :
    (interfaceOutline v).IsLexical ↔
      isIdentifier v.name.toList = true
        ∧ ∀ e ∈ v.endpoints, IsMemberKey e.name := by
  have hSome : v.name.toList ≠ [] := by
    rwa [ne_eq, String.toList_eq_nil_iff]
  have hTail : ("Service".toList.all fun c =>
      c.isAlphanum || c == '_' || c == '$') = true := by
    decide
  have hOwn : isIdentifier (interfaceOutline v).name.toList =
      isIdentifier v.name.toList := by
    change isIdentifier (v.name ++ "Service").toList = _
    rw [String.toList_append, isIdentifier_append hSome
      (List.all_eq_true.mp hTail)]
  have hKeys : (∀ key ∈ (interfaceOutline v).keys, IsMemberKey key) ↔
      ∀ e ∈ v.endpoints, IsMemberKey e.name :=
    List.forall_mem_map
  rw [← hKeys, ← hOwn]
  exact ⟨fun h => ⟨h.name, h.keys⟩, fun h => ⟨h.1, h.2⟩⟩

/- The table of routes has all its keys in quotes. -/
theorem isLexical_routesOutline (endpoints : List Endpoint) :
    (routesOutline endpoints).IsLexical := by
  have hName : isIdentifier routesName.toList = true := by decide
  refine ⟨hName, ?_⟩
  intro key hKey
  rcases List.mem_map.mp hKey with ⟨e, -, rfl⟩
  exact .inr (isStringLiteral_quote e.fullName)

theorem serviceOutlines_lexical_iff :
    (∀ u ∈ x.serviceOutlines, u.IsLexical) ↔
      ∀ v ∈ x.schema.services, (interfaceOutline v).IsLexical := by
  have hRoutes : ∀ u ∈
      (if x.endpoints.isEmpty then []
        else [routesOutline x.endpoints]), u.IsLexical := by
    intro u hu
    split at hu
    · cases hu
    · rw [List.mem_singleton.mp hu]
      exact isLexical_routesOutline _
  unfold serviceOutlines
  rw [List.forall_mem_append, List.forall_mem_map]
  exact and_iff_left hRoutes

/- The statements of services that can be written. -/
theorem exists_serviceExports
    (h : x.Serves) :
    ∃ es, x.servicesText = .ok (ExportStatement.listText es)
      ∧ es.map ExportStatement.outline = x.serviceOutlines := by
  rcases succeeds_servicesText h with ⟨text, hText⟩
  rw [servicesText_eq_exports] at hText ⊢
  rcases eq_ok_of_map hText with ⟨es, hExports, -⟩
  rw [hExports]
  exact ⟨es, rfl, outlines_of_serviceExports hExports⟩

end EmitScope

------------------------------------------------------------
-- Routes
------------------------------------------------------------

namespace RouteTable

open EmitScope

variable {t : RouteTable}
variable {known : WellKnown}
variable {services : List Service}

/- A key with two names that can stand where they do. -/
def HasLexicalNames (key : String) : Prop :=
  ∃ service method, splitKey key = .ok (service, method)
    ∧ isIdentifier service.toList = true ∧ IsMemberKey method

/- Services as good as the keys of the routes. -/
theorem services_lexical_iff
    (h : t.services known = .ok services) :
    (∀ v ∈ services, (interfaceOutline v).IsLexical) ↔
      ∀ e ∈ t.entries, HasLexicalNames e.1 := by
  rcases eq_ok_of_bind h with ⟨ns, hNamed, h⟩
  cases h
  rcases named_eq_ok hNamed with ⟨hEntries, hSplit⟩
  have hKey : ∀ n ∈ ns, HasLexicalNames n.key ↔
      isIdentifier n.service.toList = true
        ∧ IsMemberKey n.method := by
    intro n hn
    constructor
    · rintro ⟨service, method, hOther, hNames⟩
      cases (hSplit n hn).symm.trans hOther
      exact hNames
    · intro hNames
      exact ⟨n.service, n.method, hSplit n hn, hNames⟩
  have hSome : ∀ v ∈ group known ns, v.name ≠ "" := by
    intro v hv
    rcases exists_service_of_mem_group hv with ⟨n, hn, hName⟩
    rw [← hName]
    exact (splitKey_eq_ok (hSplit n hn)).2.2.1
  rw [← hEntries, List.forall_mem_map]
  constructor
  · intro hAll n hn
    rcases exists_mem_group known hn with ⟨v, hv, hName, hEndpoint⟩
    have hOwn := (isLexical_interfaceOutline_iff (hSome v hv)).mp
      (hAll v hv)
    rw [hName] at hOwn
    exact (hKey n hn).mpr ⟨hOwn.1, hOwn.2 _ hEndpoint⟩
  · intro hAll v hv
    rw [isLexical_interfaceOutline_iff (hSome v hv)]
    constructor
    · rcases exists_service_of_mem_group hv with ⟨n, hn, hName⟩
      rw [← hName]
      exact ((hKey n hn).mp (hAll n hn)).1
    · intro e he
      rcases exists_route_of_mem_group hv he with ⟨n, hn, -, rfl⟩
      exact ((hKey n hn).mp (hAll n hn)).2

/- Services of routes only take and answer expressions. -/
theorem isExpression_of_mem_bodies
    {v : Service}
    {e : Endpoint}
    {b : BodyRole × WireType}
    (h : t.services known = .ok services)
    (hv : v ∈ services)
    (he : e ∈ v.endpoints)
    (hb : b ∈ Schema.bodies e) : b.2.IsExpression := by
  rcases eq_ok_of_bind h with ⟨ns, -, h⟩
  cases h
  rcases exists_route_of_mem_group hv he with ⟨n, -, -, rfl⟩
  rcases type_of_mem_bodies hb with hNull | ⟨y, -, hType⟩
  · rw [hNull]
    simp [WireType.nullAnswer]
  · rw [hType]
    exact (TypeExpr.isPlain_wireType y).1

/- All that the services of routes mention can be written. -/
theorem serves_of_validate_eq_nil
    {s : Schema}
    (h : t.services known = .ok s.services)
    (hValid : s.validate = [])
    (o : EmitOptions) : (ofSchema s o).Serves := by
  intro e he b hb
  rcases List.mem_flatMap.mp he with ⟨v, hv, he⟩
  constructor
  case plain => exact isExpression_of_mem_bodies h hv he hb
  case covered =>
    rw [covers_iff_ofSchema]
    exact (Schema.references_of_validate_eq_nil hValid).2.2
      v hv e he b hb

/-
  The services of a table of routes can be written whenever
  the schema is valid.  They are interfaces with the methods
  as keys, and a table of all routes.  The names and keys in
  them can stand where they do exactly if the key of each
  route begins with an identifier up to its first dot, and
  what follows is an identifier or a string literal.
-/
theorem buildSchema_lexical_iff
    {c : Config}
    {extract : Extractor}
    {s : Schema}
    (hNone : ∀ e, extract (t.request c) = .ok e → e.services = [])
    (hOk : t.buildSchema c extract = .ok s)
    (hValid : s.validate = [])
    (o : EmitOptions)
    (written : List WireType) :
    let x := (EmitScope.ofSchema s o).markAll written
    ∃ es, x.servicesText = .ok (ExportStatement.listText es)
      ∧ es.map ExportStatement.outline = x.serviceOutlines
      ∧ ((∀ e ∈ es, e.outline.IsLexical) ↔
        ∀ e ∈ t.entries, HasLexicalNames e.1) := by
  intro x
  cases hKnown : c.wellKnown with
  | error e =>
      unfold buildSchema at hOk
      rw [hKnown] at hOk
      cases hOk
  | ok known =>
      rcases buildSchema_eq_ok hKnown hOk with
        ⟨services, extracted, hServices, hExtracted, hWhole⟩
      have hAll : s.services = services := by
        rw [hWhole]
        simp [hNone extracted hExtracted]
      rw [← hAll] at hServices
      have hMarked : x =
          { ofSchema s o with emitted := x.emitted } :=
        markAll_eq _ _
      -- What has been written has no part in the services.
      have hServes : x.Serves := by
        rw [hMarked]
        exact serves_of_validate_eq_nil hServices hValid o
      have hSchema : x.schema = s := by
        rw [hMarked]
        rfl
      rcases exists_serviceExports hServes with
        ⟨es, hText, hOutlines⟩
      refine ⟨es, hText, hOutlines, ?_⟩
      rw [← services_lexical_iff hServices, ← hSchema,
        ← EmitScope.serviceOutlines_lexical_iff, ← hOutlines,
        List.forall_mem_map]

/- Routes of two services, all of whose names are plain. -/
theorem buildSchema_lexical_box :
    ∃ s,
      boxRoutes.buildSchema {} (boxCatalog.extract .default)
          = .ok s
        ∧ s.validate = []
        ∧ ∃ es,
          (EmitScope.ofSchema s {}).servicesText =
              .ok (ExportStatement.listText es)
            ∧ ∀ e ∈ es, e.outline.IsLexical := by
  have hKeys :
      boxRoutes.entries.map Prod.fst = ["Boxes.Put", "Users.List"] := by
    decide +kernel
  have hNames : ∀ e ∈ boxRoutes.entries, HasLexicalNames e.1 := by
    have hEach : ∀ key ∈ boxRoutes.entries.map Prod.fst,
        HasLexicalNames key := by
      simp only [hKeys, List.forall_mem_cons, List.not_mem_nil,
        false_imp_iff, implies_true, and_true]
      exact ⟨⟨"Boxes", "Put", by decide +kernel, by decide,
          .inl (by decide)⟩,
        ⟨"Users", "List", by decide +kernel, by decide,
          .inl (by decide)⟩⟩
    exact List.forall_mem_map.mp hEach
  have hValid :
      (boxRoutes.buildSchema {}
          (boxCatalog.extract .default)).toOption.map
            Schema.validate = some [] := by
    decide +kernel
  cases hRun :
      boxRoutes.buildSchema {} (boxCatalog.extract .default) with
  | error e =>
      rw [hRun] at hValid
      cases hValid
  | ok s =>
      rw [hRun] at hValid
      have hValid := Option.some.inj hValid
      have hNone : ∀ e,
          boxCatalog.extract .default (boxRoutes.request {}) = .ok e →
            e.services = [] :=
        fun _ h => (Extracts.catalog boxCatalog).services_eq_nil h
      rcases buildSchema_lexical_iff hNone hRun hValid {} [] with
        ⟨es, hText, -, hLexical⟩
      exact ⟨s, rfl, hValid, es, hText, hLexical.mpr hNames⟩

/- One route, neither of whose names is an identifier. -/
def dashRoutes : RouteTable :=
  ofList
    [("my-svc.get-it",
        { verb := "POST"
          path := "/my-svc/get-it"
          response := some (.builtin "string") })]

/- The interface of its service, and the table of routes. -/
def dashServices : String :=
  "export interface my-svcService \x7b\n"
    ++ "  get-it(): Promise<string>;\n"
    ++ "\x7d\n\n"
    ++ "export const routes = \x7b\n"
    ++ "  \"my-svc.get-it\": \x7b verb: \"POST\", "
    ++ "path: \"/my-svc/get-it\" \x7d,\n"
    ++ "\x7d as const;\n"

/-
  The names of a service and of a method are printed as they
  are, in quotes only in the table of routes.
-/
theorem dashServices_not_lexical :
    (∃ s,
      dashRoutes.buildSchema {} (boxCatalog.extract .default)
          = .ok s
        ∧ s.validate = []
        ∧ (EmitScope.ofSchema s {}).servicesText = .ok dashServices)
      ∧ isIdentifier "my-svcService".toList = false
      ∧ ¬IsMemberKey "get-it" := by
  refine ⟨?_, by decide, ?_⟩
  · have hOutcome :
        (dashRoutes.buildSchema {}
            (boxCatalog.extract .default)).toOption.map
              (fun s => (s.validate,
                (EmitScope.ofSchema s {}).servicesText.toOption)) =
          some ([], some dashServices) := by
      decide +kernel
    cases hRun :
        dashRoutes.buildSchema {} (boxCatalog.extract .default) with
    | error e =>
        rw [hRun] at hOutcome
        cases hOutcome
    | ok s =>
        rw [hRun] at hOutcome
        have hParts := Prod.mk.inj (Option.some.inj hOutcome)
        refine ⟨s, rfl, hParts.1, ?_⟩
        cases hText : (EmitScope.ofSchema s {}).servicesText with
        | error e =>
            rw [hText] at hParts
            cases hParts.2
        | ok text =>
            rw [hText] at hParts
            exact congrArg Except.ok (Option.some.inj hParts.2)
  · rintro (hIdentifier | ⟨mark, hMark, s, hText, -⟩)
    · exact absurd hIdentifier (by decide)
    · have hFirst := (List.cons.inj hText).1
      rw [← hFirst] at hMark
      exact absurd hMark (by decide)

end RouteTable

end WireSchema
