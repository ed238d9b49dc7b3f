import WireSchema.Generation.Extractor
import WireSchema.Proofs.Catalog.Extraction
import WireSchema.Proofs.Catalog.Keeping
import WireSchema.Proofs.Outcome
import WireSchema.Proofs.Route.Services
import WireSchema.Proofs.Source.Extraction
import WireSchema.Proofs.Source.Requests
import WireSchema.Proofs.TypeExpr.Order
import WireSchema.Proofs.TypeExpr.RoundTrip
import WireSchema.Proofs.Validation.Checks

/-
  Endpoints only refer to declared types.

  The services of a schema name types by the expressions in
  routes, and the extraction is asked for the same types in
  its own way: by names in source text, or by the names that
  values report.  Both ways lead to the same declarations.

  The routes of a table ask for whole namespaces, those of
  well-known types among them, and an extraction looks for
  something in each.  That a type is well-known only helps
  where it is a root.

  Key definitions include:
    * `Extracts`
    * `RouteTable.buildSchema_complete`
    * `RouteTable.buildSchema_eq_error_iff`
    * `RouteTable.buildSchema_unresolved`
-/

namespace WireSchema

------------------------------------------------------------
-- Extractions
------------------------------------------------------------

/-
  Extraction from catalogs, or from sources with any limits,
  with known names.
-/
inductive Extracts (known : WellKnown) : Extractor → Prop where
  | sources
      (t : FileTree)
      (read : Source.SourceReader)
      (root : String)
      (depth count : Nat) :
      Extracts known
        (t.extractWithin read root known depth count)
  | catalog (c : Catalog) :
      Extracts known (c.extract known)

/- A configuration asks for one of them. -/
theorem extracts_of_extractor_eq_ok
    {c : Config}
    {t : FileTree}
    {root : String}
    {known : WellKnown}
    {extract : Extractor}
    (hKnown : c.wellKnown = .ok known)
    (h : c.extractor t root = .ok extract) :
    Extracts known extract := by
  unfold Config.extractor at h
  simp only [hKnown, Except.mapError, bind, Except.bind] at h
  split at h
  · cases h
    exact .sources t Source.FileSource.parse? _ _ _
  · split at h
    · cases h
    · next path _ =>
        cases hRead : t.readCatalog (Path.join root path) with
        | error e =>
            rw [hRead] at h
            cases h
        | ok catalog =>
            rw [hRead] at h
            cases h
            exact .catalog catalog

/- What is extracted has all that the roots refer to. -/
theorem Extracts.outcome
    {known : WellKnown}
    {extract : Extractor}
    {r : ExtractionRequest}
    {s : Schema}
    (hExtract : Extracts known extract)
    (hNamed : ∀ x ∈ r.roots, x.isWellNamed = true)
    (hOk : extract r = .ok s) :
    s.services = [] ∧ s.IsComplete
      ∧ ∀ x ∈ r.roots,
        (x.wireType known).references ⊆ s.names := by
  cases hExtract with
  | sources t read root depth count =>
      rcases FileTree.extractWithin_outcome hOk with
        ⟨y, hSound, hQueue, rfl, hRoots⟩
      refine ⟨hSound.services, hSound.isComplete hQueue, ?_⟩
      intro x hx
      exact List.Subset.trans (hRoots x hx)
        (hSound.taken_perm hQueue).subset
  | catalog c =>
      rcases Catalog.extract_outcome c known r with
        ⟨e, hError, -⟩
          | ⟨spent, y, hEnd, hReaches, hQueue, hRoots⟩
      · rw [hError] at hOk
        cases hOk
      · rw [hEnd] at hOk
        cases hOk
        have hSound := (Catalog.ready_of_reaches hReaches).sound
        refine ⟨hSound.services, hSound.isComplete hQueue, ?_⟩
        intro x hx
        rw [← TypeExpr.asked_eq_references (hNamed x hx)]
        exact List.Subset.trans (hRoots x hx)
          (hSound.taken_perm hQueue).subset

/- No service is extracted. -/
theorem Extracts.services_eq_nil
    {known : WellKnown}
    {extract : Extractor}
    {r : ExtractionRequest}
    {s : Schema}
    (hExtract : Extracts known extract)
    (hOk : extract r = .ok s) : s.services = [] := by
  cases hExtract with
  | sources t read root depth count =>
      rcases FileTree.extractWithin_outcome hOk with
        ⟨y, hSound, -, rfl, -⟩
      exact hSound.services
  | catalog c =>
      rcases Catalog.extract_outcome c known r with
        ⟨e, hError, -⟩ | ⟨spent, y, hEnd, hReaches, -⟩
      · rw [hError] at hOk
        cases hOk
      · rw [hEnd] at hOk
        cases hOk
        exact (Catalog.ready_of_reaches hReaches).sound.services

------------------------------------------------------------
-- Routes
------------------------------------------------------------

namespace RouteTable

variable {t : RouteTable}
variable {known : WellKnown}

/- The roots are the types that routes mention. -/
theorem mem_roots {x : TypeExpr} :
    x ∈ t.roots ↔ ∃ e ∈ t.entries, x ∈ e.2.types := by
  unfold roots
  rw [mem_sortDistinct TypeExpr.tellsApart_before,
    List.mem_flatMap]

/- The bodies of an endpoint are the types of its route. -/
theorem type_of_mem_bodies
    {n : NamedRoute}
    {b : BodyRole × WireType}
    (hb : b ∈ Schema.bodies (endpoint known n)) :
    b.2 = .nullAnswer
      ∨ ∃ x ∈ n.route.types, b.2 = x.wireType known := by
  unfold Route.types
  unfold Schema.bodies endpoint at hb
  rcases List.mem_append.mp hb with hb | hb
  · cases hRequest : n.route.request with
    | none => simp [hRequest] at hb
    | some x =>
        simp only [hRequest, Option.map_some,
          List.mem_singleton] at hb
        exact .inr ⟨x, by simp, by rw [hb]⟩
  · rw [List.mem_singleton.mp hb]
    cases hResponse : n.route.response with
    | none => exact .inl (by simp only [hResponse])
    | some x => exact .inr ⟨x, by simp, by simp only [hResponse]⟩

theorem references_subset_of_mem_bodies
    {n : NamedRoute}
    {names : List TypeName}
    {b : BodyRole × WireType}
    (hTypes : ∀ x ∈ n.route.types,
      (x.wireType known).references ⊆ names)
    (hb : b ∈ Schema.bodies (endpoint known n)) :
    b.2.references ⊆ names := by
  rcases type_of_mem_bodies hb with hNull | ⟨x, hx, hType⟩
  · rw [hNull]
    exact List.nil_subset _
  · rw [hType]
    exact hTypes x hx

------------------------------------------------------------
-- Schemas
------------------------------------------------------------

theorem foldl_addService (services : List Service) (s : Schema) :
    services.foldl Schema.addService s =
      { s with services := s.services ++ services } := by
  induction services generalizing s with
  | nil => simp
  | cons v rest ih =>
      rw [List.foldl_cons, ih]
      simp [Schema.addService]

/- A built schema is an extracted one with services. -/
theorem buildSchema_eq_ok
    {c : Config}
    {extract : Extractor}
    {s : Schema}
    (hKnown : c.wellKnown = .ok known)
    (hOk : t.buildSchema c extract = .ok s) :
    ∃ services extracted,
      t.services known = .ok services
        ∧ extract (t.request c) = .ok extracted
        ∧ s =
          { extracted with
            services := extracted.services ++ services } := by
  unfold buildSchema at hOk
  rw [hKnown] at hOk
  rcases eq_ok_of_bind hOk with ⟨_, hSame, hOk⟩
  cases hSame
  rcases eq_ok_of_bind hOk with ⟨services, hServices, hOk⟩
  rcases eq_ok_of_bind hOk with ⟨extracted, hExtract, hOk⟩
  cases hOk
  exact ⟨services, extracted, eq_ok_of_mapError hServices,
    eq_ok_of_mapError hExtract,
    foldl_addService services extracted⟩

/- What the validation can find in complete services. -/
theorem code_of_mem_validate
    {s : Schema}
    (hComplete : s.IsComplete)
    (hServes : t.Serves known s.services)
    (hBodies : ∀ v ∈ s.services, ∀ e ∈ v.endpoints,
      ∀ b ∈ Schema.bodies e, b.2.references ⊆ s.names) :
    ∀ x ∈ s.validate,
      x.code ∉
        ["duplicate_endpoint", "invalid_fullname",
          "missing_type_reference"] := by
  have hChecks := hComplete.checks_eq_nil
  intro x hx
  unfold Schema.validate at hx
  rw [hChecks.1, hChecks.2.1, hChecks.2.2] at hx
  simp only [List.nil_append, List.append_nil,
    List.mem_append] at hx
  rcases hx with ((hx | hx) | hx) | hx
  · rw [Schema.code_of_mem_encodingFaults hx]
    decide
  · rw [Schema.code_of_mem_circularInheritance hx]
    decide
  · rcases List.mem_flatMap.mp hx with ⟨v, hv, hx⟩
    have hNodup : (v.endpoints.map Endpoint.name).Nodup := by
      rw [List.Nodup, List.pairwise_map]
      exact (hServes.methods v hv).imp fun h => ne_of_lt h
    have hFullNames : ∀ e ∈ v.endpoints,
        e.fullName = v.name ++ "." ++ e.name := by
      intro e he
      exact (hServes.keys v hv e he).1
    rw [Schema.code_of_mem_endpointsFaults hNodup
      (fun _ _ => List.not_mem_nil) hFullNames (hBodies v hv)
      hx]
    decide
  · rw [Schema.code_of_mem_unionFaults hx]
    decide

/-
  In the schema of a table of routes every type that an
  endpoint takes or answers refers to declared types only, for
  both ways of extraction.  The endpoints are those of the
  routes, each under its key, with services and methods in
  order.  The validation therefore finds no endpoint twice, no
  wrong name of one, and no reference that is not declared.
-/
theorem buildSchema_complete
    {c : Config}
    {extract : Extractor}
    {s : Schema}
    (hSorted : t.IsSorted)
    (hNamed : ∀ e ∈ t.entries, ∀ x ∈ e.2.types,
      x.isWellNamed = true)
    (hKnown : c.wellKnown = .ok known)
    (hExtract : Extracts known extract)
    (hOk : t.buildSchema c extract = .ok s) :
    (∀ v ∈ s.services, ∀ e ∈ v.endpoints,
      ∀ b ∈ Schema.bodies e, ∀ id ∈ b.2.references,
        id ∈ s.names)
      ∧ t.Serves known s.services
      ∧ ∀ x ∈ s.validate,
        x.code ∉
          ["duplicate_endpoint", "invalid_fullname",
            "missing_type_reference"] := by
  rcases buildSchema_eq_ok hKnown hOk with
    ⟨services, extracted, hServices, hExtracted, rfl⟩
  have hRoots : ∀ x ∈ t.roots, x.isWellNamed = true := by
    intro x hx
    rcases mem_roots.mp hx with ⟨e, he, hx⟩
    exact hNamed e he x hx
  rcases hExtract.outcome hRoots hExtracted with
    ⟨hNone, hComplete, hDeclared⟩
  have hServes := serves_of_services_eq_ok hSorted hServices
  have hBodies : ∀ v ∈ services, ∀ e ∈ v.endpoints,
      ∀ b ∈ Schema.bodies e,
        b.2.references ⊆ extracted.names := by
    intro v hv e he b hb
    rcases hServes.routes v hv e he with ⟨r, hr, hEndpoint⟩
    rw [hEndpoint] at hb
    apply references_subset_of_mem_bodies ?_ hb
    intro x hx
    exact hDeclared x (mem_roots.mpr ⟨_, hr, hx⟩)
  rw [hNone, List.nil_append]
  have hWhole :
      ({ extracted with services } : Schema).IsComplete :=
    ⟨hComplete.distinct, hComplete.closed⟩
  exact ⟨hBodies, hServes,
    code_of_mem_validate hWhole hServes hBodies⟩

/- One route of a generic type and one of a list. -/
def boxRoutes : RouteTable :=
  ofList
    [("Users.List",
        { verb := "POST"
          path := "/Users/List"
          response := some (.slice (.named "m" "User" [])) }),
      ("Boxes.Put",
        { verb := "POST"
          path := "/Boxes/Put"
          request :=
            some (.pointer
              (.named "m" "Box" [.named "m" "User" []])) })]

/- The types of these routes, under their reported names. -/
def boxCatalog : Catalog :=
  { entries :=
      [{ space := "m", name := "User", shape := .struct [] },
        { space := "m"
          name := "Box[m.User]"
          shape :=
            .struct
              [{ name := "Value", type := .named "m" "User" }] }] }

theorem buildSchema_complete_box :
    ∃ s,
      boxRoutes.buildSchema {} (boxCatalog.extract .default)
          = .ok s
        ∧ boxRoutes.Serves .default s.services
        ∧ ∀ v ∈ s.services, ∀ e ∈ v.endpoints,
          ∀ b ∈ Schema.bodies e, ∀ id ∈ b.2.references,
            id ∈ s.names := by
  have hNames :
      (boxRoutes.buildSchema {}
          (boxCatalog.extract .default)).toOption.map
            (fun s => (s.names.map TypeName.name,
              s.services.map Service.name))
        = some (["User", "Box_m_User"], ["Boxes", "Users"]) := by
    decide +kernel
  have hNamed : ∀ e ∈ boxRoutes.entries, ∀ x ∈ e.2.types,
      x.isWellNamed = true := by
    decide +kernel
  cases hRun :
      boxRoutes.buildSchema {} (boxCatalog.extract .default) with
  | error e =>
      rw [hRun] at hNames
      cases hNames
  | ok s =>
      have hWhole :=
        buildSchema_complete (isSorted_ofList _) hNamed rfl
          (.catalog boxCatalog) hRun
      exact ⟨s, rfl, hWhole.2.1, hWhole.1⟩

end RouteTable

------------------------------------------------------------
-- Unresolved Names
------------------------------------------------------------

open Source Walk

namespace RouteTable

variable {t : RouteTable}
variable {c : Config}
variable {known : WellKnown}
variable {services : List Service}

/- A build only has the resolution faults of its extraction. -/
theorem buildSchema_eq_error_iff
    {extract : Extractor}
    {e : ExtractionFault}
    (hKnown : c.wellKnown = .ok known)
    (hServices : t.services known = .ok services) :
    t.buildSchema c extract = .error (.extraction e) ↔
      extract (t.request c) = .error e := by
  unfold buildSchema
  rw [hKnown]
  simp only [Except.mapError, hServices, bind, Except.bind]
  cases extract (t.request c) with
  | error e' => simp
  | ok s => simp

/- Every type that a route mentions is as a condition says. -/
def Mentions (t : RouteTable) (Good : TypeExpr → Prop) : Prop :=
  ∀ e ∈ t.entries, ∀ x ∈ e.2.types, Good x

theorem Mentions.roots
    {Good : TypeExpr → Prop}
    (h : t.Mentions Good) : ∀ x ∈ t.roots, Good x := by
  intro x hx
  rcases mem_roots.mp hx with ⟨e, he, hx⟩
  exact h e he x hx

/-
  If every type of a route is answered, the namespace that
  fails to resolve is the first of the scope in which the
  catalog has nothing, or which is no package of the module.
  If there is such a namespace, there is no schema, even if
  it is only mentioned for a type that is well-known.
-/
theorem buildSchema_unresolved
    (hKnown : c.wellKnown = .ok known)
    (hServices : t.services known = .ok services) :
    (∀ catalog : Catalog,
      t.Mentions (catalog.Answers known) →
      ∀ space,
        let first? := (t.scope c.extraScope).find? catalog.lacks
        let built := t.buildSchema c (catalog.extract known)
        (built = .error (.extraction (.unresolved space)) →
          first? = some space)
        ∧ (first? = some space →
          ∃ e, built = .error (.extraction e)
            ∧ (e = .unresolved space ∨ IsClash e)))
    ∧ ∀ (v : ModuleView) (root : String) (depth count : Nat),
      v.known = known →
      ModuleSource.open? v.tree root = .ok v.module →
      t.Mentions v.Answers →
      ∀ space,
        let first? := (t.scope c.extraScope).find? v.lacks
        let built :=
          t.buildSchema c
            (v.tree.extractWithin v.read root known depth count)
        (built = .error (.extraction (.unresolved space)) →
          first? = some space ∨ v.Misfit space)
        ∧ (first? = some space →
          ∃ e, built = .error (.extraction e)
            ∧ (e = .unresolved space
              ∨ v.Unread (t.scope c.extraScope) e)) := by
  constructor
  · intro catalog hAnswers space first? built
    have hBuilt := fun e =>
      @buildSchema_eq_error_iff t c known services
        (catalog.extract known) e hKnown hServices
    simp only [built, hBuilt]
    exact ⟨Catalog.find?_lacks_of_extract hAnswers.roots,
      Catalog.extract_of_find?_lacks (r := t.request c)⟩
  · intro v root depth count hView hOpen hAnswers space first?
      built
    subst hView
    have hBuilt := fun e =>
      @buildSchema_eq_error_iff t c v.known services
        (v.tree.extractWithin v.read root v.known depth count) e
        hKnown hServices
    simp only [built, hBuilt]
    exact ⟨FileTree.find?_lacks_of_extractWithin hOpen
        hAnswers.roots,
      FileTree.extractWithin_of_find?_lacks
        (r := t.request c) hOpen⟩

------------------------------------------------------------
-- Well-Known Types
------------------------------------------------------------

/- One route, which answers with a well-known type. -/
def clockRoutes : RouteTable :=
  ofList
    [("Clock.Now",
        { verb := "POST"
          path := "/Clock/Now"
          response := some (.named "time" "Time" []) })]

/- A module in which there is no package of that name. -/
def boxView : ModuleView :=
  { read := FileSource.parse?
    tree := boxTree
    module := { root := "/", path := "m" }
    known := .default }

theorem eq_time_of_mem_clockRoutes :
    clockRoutes.Mentions fun x => x = .named "time" "Time" [] := by
  have hEach : ∀ e ∈ clockRoutes.entries, ∀ x ∈ e.2.types,
      (x == .named "time" "Time" []) = true := by
    decide +kernel
  intro e he x hx
  exact eq_of_beq (hEach e he x hx)

/- Neither a catalog nor a module has to declare the type. -/
theorem clockRoutes_answered (catalog : Catalog) :
    clockRoutes.Mentions (catalog.Answers .default)
      ∧ clockRoutes.Mentions boxView.Answers := by
  have hKnown :
      (WellKnown.default.find? "time" "Time").isSome := by
    decide +kernel
  constructor
  · intro e he x hx
    rw [eq_time_of_mem_clockRoutes e he x hx]
    exact .inl hKnown
  · intro e he x hx
    rw [eq_time_of_mem_clockRoutes e he x hx]
    exact .inl hKnown

theorem open_boxTree :
    ModuleSource.open? boxView.tree "/" = .ok boxView.module := by
  decide +kernel

theorem buildSchema_unresolved_clock :
    (∃ e,
      clockRoutes.buildSchema {} (boxCatalog.extract .default)
          = .error (.extraction e)
        ∧ (e = .unresolved "time" ∨ IsClash e))
    ∧ ∃ e,
      clockRoutes.buildSchema {}
          (boxTree.extractSources "/" .default)
          = .error (.extraction e)
        ∧ (e = .unresolved "time"
          ∨ boxView.Unread (clockRoutes.scope []) e) := by
  have hServes :
      (clockRoutes.services .default).isOk = true := by
    decide +kernel
  cases hServices : clockRoutes.services .default with
  | error e =>
      rw [hServices] at hServes
      cases hServes
  | ok services =>
      have hBoth :=
        @buildSchema_unresolved clockRoutes {} .default services
          rfl hServices
      have hAnswered := clockRoutes_answered boxCatalog
      constructor
      · apply (hBoth.1 boxCatalog hAnswered.1 "time").2
        decide +kernel
      · apply (hBoth.2 boxView "/" _ _ rfl open_boxTree
          hAnswered.2 "time").2
        decide +kernel

/-
  All types of these routes are answered, and still the
  namespace of one that is well-known fails to resolve.
-/
theorem clockRoutes_unresolved :
    (clockRoutes.Mentions (boxCatalog.Answers .default)
      ∧ clockRoutes.buildSchema {} (boxCatalog.extract .default)
        = .error (.extraction (.unresolved "time")))
    ∧ clockRoutes.Mentions boxView.Answers
      ∧ clockRoutes.buildSchema {}
          (boxTree.extractSources "/" .default)
        = .error (.extraction (.unresolved "time")) := by
  have hAnswered := clockRoutes_answered boxCatalog
  refine ⟨⟨hAnswered.1, ?_⟩, hAnswered.2, ?_⟩
  · apply eq_error_of_map (f := fun _ => ())
    decide +kernel
  · apply eq_error_of_map (f := fun _ => ())
    decide +kernel

end RouteTable

end WireSchema
