import WireSchema.Proofs.Emit.Names
import WireSchema.Proofs.Emit.Files
import WireSchema.Proofs.Emit.Mentions
import WireSchema.Proofs.Generation.Artifacts

/-
  Files that import what they mention.

  With a file for each namespace, a name that stands in a
  declaration or in a service is declared in exactly one file.
  Every other file that mentions it has one line of imports
  that names it, and the line is for the file that declares it.

  Key definitions include:
    * `BaseProgram.IsHome`, `BaseProgram.IsClosed`
    * `EmitScope.Links`
    * `Schema.baseFiles_isClosed`
-/

namespace WireSchema

------------------------------------------------------------
-- Closed Programs
------------------------------------------------------------

namespace BaseProgram

open EmitScope

/- The one module that declares a type. -/
def IsHome
    (p : BaseProgram)
    (r : SchemaRef)
    (home : BaseModule) : Prop :=
  ∀ m, (m ∈ p.modules ∧ r ∈ m.declared) ↔ m = home

/-
  What a module mentions is declared there and not imported,
  or one line imports it from its home.  The index declares
  nothing, so one line imports whatever its services mention.
-/
structure IsClosed (p : BaseProgram) : Prop where
  modules :
    ∀ m ∈ p.modules, ∀ r ∈ m.mentions, ∃ home, p.IsHome r home
      ∧ ((home = m ∧ linesFor m.imports r.name = [])
        ∨ (home ≠ m ∧ ∃ line,
          linesFor m.imports r.name = [line]
            ∧ line.stem = home.stem))
  index :
    ∀ r ∈ p.mentions, ∃ home, p.IsHome r home
      ∧ ∃ line,
        linesFor p.imports r.name = [line]
          ∧ line.stem = home.stem

end BaseProgram

------------------------------------------------------------
-- Linked Declarations
------------------------------------------------------------

namespace EmitScope

variable {x : EmitScope}
variable {ds : List BaseDeclaration}

/-
  Declarations of all types with names, each of which mentions
  only its type and what the type depends on.
-/
structure Links (x : EmitScope) (ds : List BaseDeclaration) :
    Prop where
  apart : x.NamesApart
  declares :
    ∀ r : SchemaRef, x.name r.id = .ok r.name ↔
      ∃ d ∈ ds, d.target = r
  refers :
    ∀ d ∈ ds, ∃ t, x.schema.find? d.target.id = some t
      ∧ x.RefersTo (d.target.id :: t.dependencies) d.mentions

/- The declarations of types, and what they mention. -/
theorem parts_of_declarationsOf
    {ts : List WireType}
    (h : x.declarationsOf ts = .ok ds) :
    (ds.map fun d => d.target.id) = ts.filterMap WireType.id?
      ∧ ∀ d ∈ ds, x.name d.target.id = .ok d.target.name
        ∧ ∃ t ∈ ts, t.id? = some d.target.id
          ∧ x.RefersTo (d.target.id :: t.dependencies)
            d.mentions := by
  induction ts generalizing x ds with
  | nil =>
      cases h
      exact ⟨rfl, List.forall_mem_nil _⟩
  | cons t rest ih =>
      unfold declarationsOf at h
      cases hId : t.id? with
      | none =>
          rw [hId] at h
          rw [List.filterMap_cons_none hId]
          rcases ih h with ⟨hIds, hEach⟩
          refine ⟨hIds, ?_⟩
          intro d hd
          rcases hEach d hd with ⟨hName, u, hu, hRefers⟩
          exact ⟨hName, u, List.mem_cons_of_mem t hu, hRefers⟩
      | some id =>
          rw [hId] at h
          dsimp only at h
          cases hDecl : x.declarationOf t with
          | error e =>
              rw [hDecl] at h
              cases h
          | ok d =>
              rw [hDecl] at h
              rcases eq_ok_of_bind h with ⟨more, hMore, h⟩
              cases h
              rcases ih hMore with ⟨hIds, hEach⟩
              rcases target_of_declarationOf hDecl with
                ⟨hTarget, hName⟩
              rw [List.map_cons, List.filterMap_cons_some hTarget,
                hIds]
              refine ⟨rfl, List.forall_mem_cons.mpr
                ⟨⟨hName, t, List.mem_cons_self, hTarget,
                  refersTo_declarationOf hDecl⟩, ?_⟩⟩
              intro d' hd'
              rcases hEach d' hd' with ⟨hName', u, hu, hRefers⟩
              exact ⟨hName', u, List.mem_cons_of_mem t hu, hRefers⟩

------------------------------------------------------------
-- Modules
------------------------------------------------------------

/- Asked for is what declarations depend on elsewhere. -/
theorem mem_foreignNames_iff
    {own : List BaseDeclaration}
    {space : String}
    {id : TypeName} :
    id ∈ x.foreignNames
        { space, chunks := own.map BaseDeclaration.chunk } ↔
      id.space ≠ space
        ∧ ∃ d ∈ own, ∃ t, x.schema.find? d.target.id = some t
          ∧ id ∈ t.dependencies := by
  unfold foreignNames
  rw [List.mem_filter, List.mem_flatMap, and_comm, bne_iff_ne]
  apply and_congr_right
  intro _
  dsimp only
  constructor
  · rintro ⟨c, hc, hId⟩
    rcases List.mem_map.mp hc with ⟨d, hd, rfl⟩
    cases hFound : x.schema.find? d.target.id with
    | none => simp [BaseDeclaration.chunk, hFound] at hId
    | some t =>
        refine ⟨d, hd, t, hFound, ?_⟩
        simpa [BaseDeclaration.chunk, hFound] using hId
  · rintro ⟨d, hd, t, hFound, hId⟩
    refine ⟨d.chunk, List.mem_map_of_mem hd, ?_⟩
    simpa [BaseDeclaration.chunk, hFound] using hId

/- What a module has, and which names it asks for. -/
theorem parts_of_moduleOf
    {space : String}
    {m : BaseModule}
    (h : x.moduleOf ds space = .ok m) :
    m.space = space
      ∧ m.stem = ((x.stemsOf ds).find? space).getD "types"
      ∧ (∀ d, d ∈ m.declarations ↔
        d ∈ ds ∧ d.target.id.space = space)
      ∧ x.importGroups (x.stemsOf ds) []
          (sortNames
            (x.foreignNames
              { space
                chunks :=
                  m.declarations.map BaseDeclaration.chunk })) =
        .ok m.imports := by
  rcases eq_ok_of_bind h with ⟨imports, hImports, h⟩
  cases h
  refine ⟨rfl, rfl, ?_, hImports⟩
  intro d
  rw [List.mem_filter, beq_iff_eq]

section Program

variable {p : BaseProgram}
variable
  (hModules :
    (sortTexts (spacesOf ds)).mapM (x.moduleOf ds) =
      .ok p.modules)

include hModules

/- A declared type has its home where its namespace is filed. -/
theorem exists_isHome
    {d : BaseDeclaration}
    (hd : d ∈ ds) :
    ∃ home, p.IsHome d.target home
      ∧ home.space = d.target.id.space
      ∧ (x.stemsOf ds).find? d.target.id.space =
        some home.stem := by
  have hSpace : d.target.id.space ∈ spacesOf ds :=
    List.mem_map.mpr ⟨d, hd, rfl⟩
  rcases exists_mem_of_mapM hModules
    ((mem_sortTexts _ _).mpr hSpace) with ⟨home, hHome, hMade⟩
  rcases parts_of_moduleOf hMade with ⟨hOf, hStem, hOwn, -⟩
  refine ⟨home, ?_, hOf, ?_⟩
  · intro m
    constructor
    · rintro ⟨hm, hDeclares⟩
      rcases List.mem_map.mp hDeclares with ⟨d', hd', hTarget⟩
      rcases exists_of_mem_mapM hModules hm with
        ⟨space, -, hMade'⟩
      have hSame := ((parts_of_moduleOf hMade').2.2.1 d').mp hd'
      rw [← hSame.2, hTarget] at hMade'
      exact Except.ok.inj (hMade'.symm.trans hMade)
    · rintro rfl
      exact ⟨hHome, List.mem_map.mpr
        ⟨d, (hOwn d).mpr ⟨hd, rfl⟩, rfl⟩⟩
  · unfold stemsOf at hStem ⊢
    rw [FileStems.find?_ofNamespaces _ hSpace] at hStem ⊢
    rw [hStem]
    rfl

variable (hLinks : x.Links ds)

include hLinks

/- Whatever has a name is declared in its home. -/
theorem exists_isHome_of_name
    {r : SchemaRef}
    (hName : x.name r.id = .ok r.name) :
    ∃ home, p.IsHome r home
      ∧ home.space = r.id.space
      ∧ (x.stemsOf ds).find? r.id.space = some home.stem := by
  rcases (hLinks.declares r).mp hName with ⟨d, hd, rfl⟩
  exact exists_isHome hModules hd

/- Types have homes under the names they are emitted under. -/
theorem exists_isHome_iff {r : SchemaRef} :
    (∃ home, p.IsHome r home) ↔ x.name r.id = .ok r.name := by
  constructor
  · rintro ⟨home, hHome⟩
    rcases (hHome home).mpr rfl with ⟨hMem, hDeclares⟩
    rcases exists_of_mem_mapM hModules hMem with ⟨space, -, hMade⟩
    rcases List.mem_map.mp hDeclares with ⟨d, hd, hTarget⟩
    have hOwn := ((parts_of_moduleOf hMade).2.2.1 d).mp hd
    exact (hLinks.declares r).mpr ⟨d, hOwn.1, hTarget⟩
  · intro hName
    rcases exists_isHome_of_name hModules hLinks hName with
      ⟨home, hHome, -⟩
    exact ⟨home, hHome⟩

/- A module has a line for what is declared elsewhere. -/
theorem isClosed_module
    {m : BaseModule}
    {r : SchemaRef}
    (hm : m ∈ p.modules)
    (hr : r ∈ m.mentions) :
    ∃ home, p.IsHome r home
      ∧ ((home = m ∧ linesFor m.imports r.name = [])
        ∨ (home ≠ m ∧ ∃ line,
          linesFor m.imports r.name = [line]
            ∧ line.stem = home.stem)) := by
  rcases exists_of_mem_mapM hModules hm with ⟨space, -, hMade⟩
  rcases parts_of_moduleOf hMade with ⟨hOf, -, hOwn, hImports⟩
  rcases List.mem_flatMap.mp hr with ⟨d, hd, hr⟩
  have hSpace := ((hOwn d).mp hd).2
  rcases hLinks.refers d ((hOwn d).mp hd).1 with
    ⟨t, hFound, hRefers⟩
  rcases hRefers r hr with ⟨hId, hName⟩
  rcases exists_isHome_of_name hModules hLinks hName with
    ⟨home, hHome, hHomeSpace, hFile⟩
  refine ⟨home, hHome, ?_⟩
  by_cases hHere : r.id.space = space
  · left
    rcases (hLinks.declares r).mp hName with ⟨d', hd', hTarget⟩
    have hDeclared : r ∈ m.declared := by
      rw [← hTarget] at hHere ⊢
      exact List.mem_map.mpr ⟨d', (hOwn d').mpr ⟨hd', hHere⟩, rfl⟩
    refine ⟨((hHome m).mp ⟨hm, hDeclared⟩).symm, ?_⟩
    apply linesFor_of_not_mem hLinks.apart hImports hName
    rw [mem_foreignNames_iff]
    exact fun hForeign => hForeign.1 hHere
  · right
    refine ⟨?_, ?_⟩
    · rintro rfl
      exact hHere (hHomeSpace.symm.trans hOf)
    · apply linesFor_of_mem hLinks.apart hImports hName _ hFile
      rw [mem_foreignNames_iff]
      refine ⟨hHere, d, hd, t, hFound, ?_⟩
      apply (List.mem_cons.mp hId).resolve_left
      intro hSame
      rw [hSame] at hHere
      exact hHere hSpace

end Program

------------------------------------------------------------
-- Programs
------------------------------------------------------------

/- What a program has, and which names its index asks for. -/
theorem parts_of_programOf
    {p : BaseProgram}
    (h : x.programOf ds = .ok p) :
    (sortTexts (spacesOf ds)).mapM (x.moduleOf ds) =
        .ok p.modules
      ∧ x.RefersTo x.serviceNames p.mentions
      ∧ (p.mentions = []
        ∨ x.importGroups (x.stemsOf ds) []
            (sortNames x.serviceNames) = .ok p.imports) := by
  rcases eq_ok_of_bind h with ⟨services, hServices, h⟩
  rcases eq_ok_of_bind h with ⟨modules, hModules, h⟩
  rcases parts_of_importServices h with ⟨hProgram, hImports⟩
  have hSame : p.modules = modules := by rw [hProgram]
  have hTerms : p.services = services := by rw [hProgram]
  unfold BaseProgram.mentions
  rw [hSame, hTerms]
  refine ⟨hModules, refersTo_serviceTerms hServices, ?_⟩
  rcases hImports with hNone | hImports
  · have hNone : services = [] := hNone
    exact .inl (by rw [hNone]; rfl)
  · exact .inr hImports

/- The program of linked declarations is closed. -/
theorem isClosed_programOf
    {p : BaseProgram}
    (hLinks : x.Links ds)
    (h : x.programOf ds = .ok p) : p.IsClosed := by
  rcases parts_of_programOf h with ⟨hModules, hRefers, hImports⟩
  constructor
  · intro m hm r hr
    exact isClosed_module hModules hLinks hm hr
  · intro r hr
    rcases hRefers r hr with ⟨hId, hName⟩
    rcases exists_isHome_of_name hModules hLinks hName with
      ⟨home, hHome, -, hFile⟩
    refine ⟨home, hHome, ?_⟩
    rcases hImports with hNone | hImports
    · rw [hNone] at hr
      cases hr
    · exact linesFor_of_mem hLinks.apart hImports hName hId hFile

end EmitScope

------------------------------------------------------------
-- Schemas
------------------------------------------------------------

namespace Schema

variable {s : Schema}
variable {o : EmitOptions}

/- All declarations of distinctly named types are linked. -/
theorem links_of_declarationsOf
    {ds : List BaseDeclaration}
    (hDistinct : s.names.Nodup)
    (h :
      (EmitScope.ofSchema s o).declarationsOf
          (s.emitOrder (EmitScope.ofSchema s o).names) = .ok ds) :
    ((EmitScope.ofSchema s o).markAll
      (s.emitOrder (EmitScope.ofSchema s o).names)).Links ds := by
  rcases EmitScope.parts_of_declarationsOf h with ⟨hIds, hEach⟩
  constructor
  case apart =>
    intro id other text hId hOther
    rw [EmitScope.name_markAll, EmitScope.name_eq_ok_iff]
      at hId hOther
    exact EmittedNames.find?_inj hId hOther
  case declares =>
    intro r
    rw [EmitScope.name_markAll]
    constructor
    · intro hName
      have hMem := mem_names_of_name_eq hName
      rw [← mem_ids_emitOrder, ← hIds] at hMem
      rcases List.mem_map.mp hMem with ⟨d, hd, hSame⟩
      exact ⟨d, hd, EmitScope.eq_of_id_eq (hEach d hd).1 hName hSame⟩
    · rintro ⟨d, hd, rfl⟩
      exact (hEach d hd).1
  case refers =>
    intro d hd
    rcases (hEach d hd).2 with ⟨t, ht, hId, hRefers⟩
    refine ⟨t, ?_, ?_⟩
    · rw [EmitScope.markAll_eq]
      exact find?_eq_some hDistinct
        (mem_types_of_mem_emitOrder ht).1 hId
    · intro r hr
      rw [EmitScope.name_markAll]
      exact hRefers r hr

/-
  A flat schema without violations has a program of base
  types.  If no two namespaces have one stem, each module of
  the program is a file of its own; each declared type, by the
  name that it is emitted under, has its home among them; and
  the files import what they mention and do not declare.
-/
theorem baseFiles_isClosed
    (hValid : s.validate = [])
    (hFlat : s.IsFlat)
    (hMany : o.singleFile = false)
    (hStems : FileStems.StemsApart s.spaces o.strippedPaths) :
    ∃ p, s.baseProgram o = .ok p
      ∧ s.baseFiles o = .ok { files := p.files o.baseName }
      ∧ ((p.files o.baseName).map OutputFile.path).Nodup
      ∧ (∀ r : SchemaRef, (∃ home, p.IsHome r home) ↔
        (EmittedNames.ofSchema s o.strippedPaths).find? r.id =
          some r.name)
      ∧ p.IsClosed := by
  rcases succeeds_baseFiles hValid hFlat o with ⟨e, hFiles⟩
  have hSame := hFiles
  rw [baseFiles_eq hMany] at hSame
  rcases eq_ok_of_map hSame with ⟨p, hProgram, rfl⟩
  have hPaths := paths_of_baseFiles hFiles
  refine ⟨p, hProgram, hFiles, ?paths, ?_⟩
  case paths =>
    rw [hPaths, EmitOptions.nodup_basePaths_iff]
    exact fun _ => hStems
  rcases eq_ok_of_bind hProgram with ⟨ds, hDecls, hProgram⟩
  have hDecls := eq_ok_of_mapError hDecls
  have hProgram := eq_ok_of_mapError hProgram
  have hDistinct := (references_of_validate_eq_nil hValid).1
  have hLinks := links_of_declarationsOf hDistinct hDecls
  refine ⟨?homes, EmitScope.isClosed_programOf hLinks hProgram⟩
  case homes =>
    intro r
    rw [EmitScope.exists_isHome_iff
        (EmitScope.parts_of_programOf hProgram).1 hLinks,
      EmitScope.name_markAll, EmitScope.name_eq_ok_iff]
    rfl

/-
  Two types of one simple name in different namespaces, one of
  them a record with a bound, a parent, an encoded field and a
  field that is skipped, and a service that takes and answers
  both.
-/
def billSchema : Schema :=
  let base : TypeName := { name := "Base", space := "app/core" }
  let money : TypeName := { name := "Money", space := "app/core" }
  let bill : TypeName := { name := "Bill", space := "app/bills" }
  let old : TypeName := { name := "Bill", space := "app/old" }
  { types :=
      [.record
          { id := bill
            params :=
              [{ name := "T", bound := some (.reference money) }]
            fields :=
              [{ name := "Lines"
                 type := .array (.pointer (.param { name := "T" })) 0
                 wireName := "lines" },
                { name := "Number"
                  type := .base .int 64
                  wireName := "number"
                  stringEncoded := true },
                { name := "Origin"
                  type := .reference old
                  wireName := "-"
                  skip := true }]
            parents := [base] },
        .record { id := old },
        .record { id := base },
        .synonym { id := money, target := .base .int 64 }]
    services :=
      [{ name := "Bills"
         endpoints :=
           [{ name := "Renew"
              fullName := "Bills.Renew"
              verb := "POST"
              path := "/Bills/Renew"
              request := some (.reference old)
              response := .pointer (.reference bill) }] }] }

theorem billSchema_isFlat : billSchema.IsFlat := by
  constructor
  · simp [billSchema, WireType.IsFlat, WireType.id?,
      WireType.boundWalk]
  · simp only [billSchema, bodies, List.mem_singleton, forall_eq]
    simp

/- Its files are closed, with a file for each namespace. -/
theorem baseFiles_isClosed_billSchema :
    let o : EmitOptions :=
      { singleFile := false, strippedPaths := ["app/"] }
    billSchema.validate = []
      ∧ billSchema.IsFlat
      ∧ o.singleFile = false
      ∧ FileStems.StemsApart billSchema.spaces o.strippedPaths
      ∧ ∃ p, billSchema.baseProgram o = .ok p
        ∧ billSchema.baseFiles o =
          .ok { files := p.files o.baseName }
        ∧ ((p.files o.baseName).map OutputFile.path).Nodup
        ∧ (∀ r : SchemaRef, (∃ home, p.IsHome r home) ↔
          (EmittedNames.ofSchema billSchema
            o.strippedPaths).find? r.id = some r.name)
        ∧ p.IsClosed := by
  intro o
  have hValid : billSchema.validate = [] := by decide +kernel
  have hStems :
      FileStems.StemsApart billSchema.spaces o.strippedPaths := by
    decide +kernel
  exact ⟨hValid, billSchema_isFlat, rfl, hStems,
    baseFiles_isClosed hValid billSchema_isFlat rfl hStems⟩

end Schema

end WireSchema
