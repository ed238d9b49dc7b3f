import WireSchema.Proofs.Catalog.Nameless
import WireSchema.Proofs.Source.Nameless

/-
  What becomes of the structs without a name in a schema that
  is extracted.

  Their names are made of the places where they stand.  If
  such a name is free, it stands for exactly this struct.  If
  not, the struct is not declared, and the reference is one
  to whatever has taken the name: the type that the struct
  stands in, another type, or another struct.

  Key definitions include:
    * `orderCatalog`, `orderTree`: structs to be met
-/

namespace WireSchema

open Walk Source

/-
  Whenever the extraction of a schema, from a catalog or from
  sources, meets a struct without a name, the reference that
  it gives is to a name that the schema declares.

  If the name has been free until then, it is declared as a
  record of the fields and the parents that this struct is
  lowered to.  If it has been taken, and only then, the fields
  are not looked at and nothing changes.
-/
theorem namelessStructs_resolve
    (known : WellKnown)
    (r : ExtractionRequest)
    (s : Schema) :
    (∀ c : Catalog, c.extract known r = .ok s →
      ∀ a x, c.Meets known r a x → a.Resolves x s)
    ∧ ∀ (t : FileTree) read root module depth count,
      ModuleSource.open? t root = .ok module →
      t.extractWithin read root known depth count r = .ok s →
      ∀ a x,
        Meets { read, tree := t, module, known } depth r a x →
          a.Resolves x s := by
  constructor
  · intro c hOk a x hMeets
    exact Catalog.resolves_of_meets hOk hMeets
  · intro t read root module depth count hModule hOk a x hMeets
    rcases FileTree.run_of_extractWithin hOk with
      ⟨_, z, hSame, hRun, rfl⟩
    rw [hModule] at hSame
    cases hSame
    exact resolves_of_meets hRun hMeets

------------------------------------------------------------
-- A Catalog
------------------------------------------------------------

def lineFields : List (ReflectedField Reflected) :=
  [{ name := "A", type := .int 64 }]

def orderFields : List (ReflectedField Reflected) :=
  [{ name := "Line", type := .struct lineFields }]

def orderEntry : CatalogEntry :=
  { space := "m", name := "Order", shape := .struct orderFields }

def rowsEntry : CatalogEntry :=
  { space := "m", name := "Rows"
    shape := .slice (.struct lineFields) }

/-
  A struct without a name in a field, and one that a type is
  a list of.
-/
def orderCatalog : Catalog :=
  { entries := [orderEntry, rowsEntry] }

def orderRequest (name : String) : ExtractionRequest :=
  { roots := [.named "m" name []], scope := [] }

/- The walk when the declaration of the root begins. -/
def orderWalk (name : String) : Walk ReportedName Unit :=
  { taken := [{ name, space := "m" }]
    claims := [({ name, space := "m" }, ⟨"m", name⟩)]
    memory := () }

theorem orderCatalog_reaches
    {name : String}
    (hName : name ∈ ["Order", "Rows"]) :
    orderCatalog.Reaches .default (orderRequest name) []
      { orderWalk name with queue := [⟨"m", name⟩] } := by
  have hKnown : WellKnown.default.find? "m" name = none := by
    revert name
    decide +kernel
  have hReported : Catalog.reportedName name [] = name := by
    revert name
    decide +kernel
  refine ⟨_, ?_, .start⟩
  unfold Catalog.requests orderRequest
  simp only [List.forM_eq_forM, List.forM_nil, List.forM_cons,
    Catalog.require, hKnown, hReported]
  simp only [List.mem_cons, List.not_mem_nil, or_false] at hName
  rcases hName with rfl | rfl
  · rfl
  · rfl

/- The struct in the field is met with its name free. -/
theorem orderCatalog_meets :
    orderCatalog.Meets .default (orderRequest "Order")
      (orderCatalog.nameless .default "m" "Order_Line" lineFields)
      (orderWalk "Order") := by
  have hId :
      catalogName orderEntry.space orderEntry.name =
        { name := "Order", space := "m" } := by
    decide +kernel
  have hFound :
      orderCatalog.find? "m" "Order" = some orderEntry := by
    rfl
  have hRecord :
      orderCatalog.Enters .default
        (.item ⟨"m", "Order"⟩, orderWalk "Order")
        (.members "m" { name := "Order", space := "m" }
          orderFields, orderWalk "Order") := by
    have hStep := @Catalog.Enters.record orderCatalog .default
      (orderWalk "Order") ⟨"m", "Order"⟩ orderEntry orderFields
      hFound rfl
    rwa [hId] at hStep
  have hOwn :
      orderCatalog.Enters .default
        (.member "m" { name := "Order", space := "m" }
          { name := "Line", type := .struct lineFields },
          orderWalk "Order")
        (.shape "m" "Order_Line" (.struct lineFields),
          orderWalk "Order") :=
    .own (by decide) rfl (by decide +kernel)
  have hEnters := Relation.ReflTransGen.single hRecord
  exact .intro (orderCatalog_reaches (by decide)) rfl
    ((hEnters.tail .first).tail hOwn)

theorem find?_rows :
    orderCatalog.find? "m" "Rows" = some rowsEntry := by
  rfl

theorem rowsEntry_ne_struct
    (fs : List (ReflectedField Reflected)) :
    rowsEntry.shape ≠ .struct fs :=
  nofun

/- The struct in the list is met when its name is taken. -/
theorem rows_meets :
    orderCatalog.Meets .default (orderRequest "Rows")
      (orderCatalog.nameless .default "m" "Rows" lineFields)
      (orderWalk "Rows") := by
  have hId :
      (catalogName rowsEntry.space rowsEntry.name).name =
        "Rows" := by
    decide +kernel
  have hSynonym :
      orderCatalog.Enters .default
        (.item ⟨"m", "Rows"⟩, orderWalk "Rows")
        (.shape "m" "Rows" (.slice (.struct lineFields)),
          orderWalk "Rows") := by
    have hStep := @Catalog.Enters.synonym orderCatalog .default
      (orderWalk "Rows") ⟨"m", "Rows"⟩ rowsEntry find?_rows
      rowsEntry_ne_struct
    rwa [hId] at hStep
  have hEnters := Relation.ReflTransGen.single hSynonym
  exact .intro (orderCatalog_reaches (by decide)) rfl
    (hEnters.tail (.slice nofun))

------------------------------------------------------------
-- A Module
------------------------------------------------------------

/- The same struct in a field, in a source file. -/
def orderTree : FileTree :=
  { entries :=
      [(["go.mod"], .file "module m\n".toUTF8),
        (["order.go"],
          .file
            ("package m\n"
              ++ "type Order struct \x7b\n"
              ++ "Line struct \x7b A int \x7d\n"
              ++ "\x7d\n").toUTF8)] }

def orderView : ModuleView :=
  { read := FileSource.parse?
    tree := orderTree
    module := { root := "/", path := "m" }
    known := .default }

/- Whether a type is a struct with a struct in its field. -/
def isOrder : SourceType → Bool
  | .struct [⟨["Line"], .struct _, _, _⟩] => true
  | _ => false

/- Whether the run comes to the struct with its name free. -/
def meetsLine : ModuleStep Bool := do
  requests orderView (orderRequest "Order")
  let y ← get
  match y.queue with
  | [] => pure false
  | i :: rest => do
      set { y with queue := rest }
      let (x, d) ← located orderView i
      let z ← get
      let id : TypeName :=
        { name := syntheticName (i.id.name ++ "_" ++ "Line")
          space := x.package.path }
      pure
        (i.args.isEmpty && d.params.isEmpty && isOrder d.type
          && !z.taken.contains id)

/- What the run goes through when it comes to the struct. -/
theorem exists_of_run_meetsLine
    {w : Walk Instance Loaded}
    (hRun : meetsLine.run { memory := [] } = .ok (true, w)) :
    ∃ a x,
      Meets orderView orderTree.boundDepth (orderRequest "Order")
          a x
      ∧ a.id ∉ x.taken := by
  unfold meetsLine at hRun
  rcases run_bind_eq_ok hRun with ⟨_, y, hRequests, hRun⟩
  rcases run_bind_eq_ok hRun with ⟨_, _, hGet, hRun⟩
  cases hGet
  split at hRun
  · cases hRun
  · next i rest hQueue =>
    rcases run_bind_eq_ok hRun with ⟨_, _, hSet, hRun⟩
    cases hSet
    rcases run_bind_eq_ok hRun with ⟨⟨x, d⟩, z, hFound, hRun⟩
    rcases run_bind_eq_ok hRun with ⟨_, _, hGet, hRun⟩
    cases hGet
    have hAll := (Prod.mk.inj (Except.ok.inj hRun)).1
    simp only [Bool.and_eq_true, Bool.not_eq_true',
      List.contains_eq_mem, decide_eq_false_iff_not,
      List.isEmpty_iff] at hAll
    rcases hAll with ⟨⟨⟨hArgs, hNone⟩, hOrder⟩, hFree⟩
    unfold isOrder at hOrder
    split at hOrder
    · next fs tag doc hType =>
      have hParams :
          (itemParams orderView orderTree.boundDepth i x d).run z =
            .ok ([], z) := by
        unfold itemParams
        rw [hArgs, hNone]
        rfl
      have hNames :
          ["Line"].filter isExported = [] ++ "Line" :: [] := by
        decide +kernel
      have hLine :
          EntersType orderView
            (.member x i.id ⟨["Line"], .struct fs, tag, doc⟩, z)
            (.type x (i.id.name ++ "_" ++ "Line") (.struct fs),
              z) :=
        .named hNames rfl
      have hEnters := Relation.ReflTransGen.single
        (Enters.decl hFound hParams)
      have hMembers := hEnters.tail (.struct hType)
      have hMember := hMembers.tail (.type .first)
      have hReaches : Reaches orderView orderTree.boundDepth _ y :=
        ⟨y, [], hRequests, .start⟩
      exact ⟨_, z,
        .intro hReaches hQueue (hMember.tail (.type hLine)),
        hFree⟩
    · cases hOrder

theorem orderTree_meets :
    ∃ a x,
      Meets orderView orderTree.boundDepth (orderRequest "Order")
          a x
      ∧ a.id ∉ x.taken := by
  have hMeets :
      (meetsLine.run { memory := [] }).toOption.map (·.1) =
        some true := by
    decide +kernel
  cases hRun : meetsLine.run { memory := [] } with
  | error e =>
      rw [hRun] at hMeets
      cases hMeets
  | ok result =>
      rcases result with ⟨met, w⟩
      rw [hRun] at hMeets
      cases hMeets
      exact exists_of_run_meetsLine hRun

------------------------------------------------------------
-- Structs That Are Met
------------------------------------------------------------

/- Either way the struct in the field is declared. -/
theorem namelessStructs_resolve_order :
    (∃ s a x,
      orderCatalog.extract .default (orderRequest "Order") =
          .ok s
        ∧ orderCatalog.Meets .default (orderRequest "Order") a x
        ∧ a.IsDeclared x s)
    ∧ ∃ s a x,
      orderTree.extractSources "/" .default
          (orderRequest "Order") = .ok s
        ∧ Meets orderView orderTree.boundDepth
            (orderRequest "Order") a x
        ∧ a.IsDeclared x s := by
  constructor
  · have hSome :
        (orderCatalog.extract .default
          (orderRequest "Order")).isOk = true := by
      decide +kernel
    cases hOk : orderCatalog.extract .default
        (orderRequest "Order") with
    | error e =>
        rw [hOk] at hSome
        cases hSome
    | ok s =>
        have hAll := namelessStructs_resolve .default
          (orderRequest "Order") s
        have hResolves := hAll.1 _ hOk _ _ orderCatalog_meets
        have hFree := hResolves.free (by decide +kernel)
        exact ⟨s, _, _, rfl, orderCatalog_meets, hFree⟩
  · have hModule :
        ModuleSource.open? orderTree "/" =
          .ok orderView.module := by
      rfl
    have hSome :
        (orderTree.extractSources "/" .default
          (orderRequest "Order")).isOk = true := by
      decide +kernel
    cases hOk : orderTree.extractSources "/" .default
        (orderRequest "Order") with
    | error e =>
        rw [hOk] at hSome
        cases hSome
    | ok s =>
        rcases orderTree_meets with ⟨a, x, hMeets, hFree⟩
        have hAll := namelessStructs_resolve .default
          (orderRequest "Order") s
        have hResolves := hAll.2 _ _ _ _ _ _ hModule hOk a x
          hMeets
        exact ⟨s, a, x, rfl, hMeets, hResolves.free hFree⟩

/-
  The struct in the list is lost: its name is the one that
  the list is declared by.
-/
theorem rowsStruct_not_declared :
    ∃ s a x,
      orderCatalog.extract .default (orderRequest "Rows") =
          .ok s
        ∧ orderCatalog.Meets .default (orderRequest "Rows") a x
        ∧ ¬a.IsDeclared x s := by
  have hSome :
      (orderCatalog.extract .default
        (orderRequest "Rows")).isOk = true := by
    decide +kernel
  cases hOk : orderCatalog.extract .default
      (orderRequest "Rows") with
  | error e =>
      rw [hOk] at hSome
      cases hSome
  | ok s =>
      have hReaches :=
        orderCatalog_reaches (List.mem_cons_of_mem "Order"
          List.mem_cons_self)
      have hName :
          (orderCatalog.nameless .default "m" "Rows"
            lineFields).id = ReportedName.id ⟨"m", "Rows"⟩ := by
        decide +kernel
      refine ⟨s, _, _, rfl, rows_meets, ?_⟩
      exact Catalog.not_isDeclared_of_synonym hOk hReaches rfl
        find?_rows rowsEntry_ne_struct hName

end WireSchema
