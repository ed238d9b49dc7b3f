import WireSchema.Proofs.Extraction.Unwarned
import WireSchema.Proofs.Source.Parts
import WireSchema.Proofs.Source.Program
import WireSchema.Proofs.Source.Substitution

/-
  Instances, and declarations with arguments written in place
  of parameters.

  An instance is lowered from the declaration as it stands,
  in a scope that binds its parameters.  Up to warnings, that
  is what the declaration with the arguments written into it
  is lowered to, if the arguments are admitted in their
  places.

  Key definitions include:
    * `ModuleView.lowerings_agree`
-/

namespace WireSchema.Source

open Walk

variable {v : ModuleView}

------------------------------------------------------------
-- Steps of the Walk
------------------------------------------------------------

/- No call reads a warning. -/
theorem matches_call {β : Type} (c : Call β) :
    Matches (c.step v) (c.step v) := by
  cases c with
  | note w => exact matches_note w w
  | declare t => exact matches_declare t
  | takeName id => exact matches_takeName id
  | package path =>
      apply matches_get
      intro y ws
      rw [warned_memory]
      split
      · exact matches_pure _
      · apply (matches_liftM _).bind
        intro found
        exact (matches_modify fun _ _ => rfl).bind
          fun _ => matches_pure found
  | enqueue i =>
      have hQueued :
          Matches
            (do Walk.enqueue i.id i; pure i.id : ModuleStep _)
            (do Walk.enqueue i.id i; pure i.id) :=
        (matches_enqueue i.id i).bind fun _ => matches_pure i.id
      change Matches i.enqueue i.enqueue
      unfold Instance.enqueue
      split
      · exact (matches_claim _ _ _).bind fun _ => hQueued
      · exact hQueued
  | dequeue =>
      apply matches_get
      intro y ws
      rw [warned_queue]
      split
      · exact matches_pure none
      · exact (matches_set rfl).bind fun _ => matches_pure _

/- So no part of the walk does. -/
theorem Programmed.matches
    {α : Type}
    {m : ModuleStep α}
    (h : Programmed v m) : Matches m m := by
  rcases h with ⟨p, rfl⟩
  induction p with
  | pure a => exact matches_pure a
  | fault e hOther => exact matches_fault e
  | call c next ih => exact (matches_call c).bind ih

------------------------------------------------------------
-- Lowering
------------------------------------------------------------

section

variable {x : SourceScope}
variable {f : Filling}
variable {bindings : List (String × Binding)}

/- What has no wire form is any value, whatever it is. -/
theorem matches_unsupported
    {y : SourceScope}
    {hint hint' what what' : String} :
    Matches (ModuleView.unsupported x hint what)
      (ModuleView.unsupported y hint' what') :=
  (matches_note _ _).bind fun _ => matches_pure WireType.any

theorem matches_lowerNames
    {t : SourceType}
    (h : x.Stands f bindings)
    (hint : String) :
    Matches (v.lowerNames (x.bound bindings) hint t)
      (v.lowerNames x hint (t.put f)) := by
  unfold ModuleView.lowerNames
  rw [h.resolve?_put.1 t]
  cases x.resolve? (t.put f) with
  | some e => exact (programmed_expr _ e).matches
  | none => exact matches_unsupported

/- A parameter is lowered as the type that it stands for. -/
theorem matches_lower_ident
    {name : String}
    (h : x.Stands f bindings)
    (hAdmits : x.Admits f (.ident name))
    (hint : String) :
    Matches (v.lower (x.bound bindings) hint (.ident name))
      (v.lower x hint (SourceType.put f (.ident name))) := by
  have hName := h.resolveName?_put name
  rw [ModuleView.lower, ModuleView.lowerIdent, hName]
  rcases h.each name with
    ⟨hPut, -⟩ | ⟨a, e, hPut, -, hArg⟩
  · rw [SourceType.put, hPut, Option.getD_none,
      ModuleView.lower, ModuleView.lowerIdent,
      SourceScope.resolve?]
    cases x.resolveName? name with
    | some e => exact (programmed_expr _ e).matches
    | none => exact matches_unsupported
  · have hWays := ModuleView.lower_twoWays v hint hArg
    have hLower := hWays.same (hAdmits a hPut)
    rw [SourceType.put, hPut, Option.getD_some, hArg, hLower]
    exact (programmed_expr _ e).matches

/- The field that a name stands for, from its type. -/
theorem matches_namedField
    {field : SourceField SourceType}
    (hType : ∀ hint,
      Matches (v.lower (x.bound bindings) hint field.type)
        (v.lower x hint (field.type.put f)))
    (owner : TypeName)
    (name : String) :
    Matches
      (namedField v (x.bound bindings) owner field name)
      (namedField v x owner (field.put f) name) := by
  unfold namedField SourceField.put
  exact (hType _).map

/- The parent that an embedded type is, from that type. -/
theorem matches_parent?
    {field : SourceField SourceType}
    (hFilled : field.type.isFilled f = false)
    (hType : ∀ hint,
      Matches (v.lower (x.bound bindings) hint field.type)
        (v.lower x hint (field.type.put f)))
    (owner : TypeName)
    (name : String) :
    Matches (parent? v (x.bound bindings) owner field name)
      (parent? v x owner (field.put f) name) := by
  unfold parent? SourceField.put
  dsimp only
  rw [isStruct_put bindings hFilled]
  split
  · exact matches_pure none
  · apply (programmed_isStruct x _).matches.bind
    intro found
    cases found with
    | true => exact (hType _).map
    | false => exact matches_pure none

/- What a field adds, from its type. -/
theorem matches_lowerField
    {field : SourceField SourceType}
    (hFilled : field.names = [] →
      field.type.isFilled f = false)
    (hType : ∀ hint,
      Matches (v.lower (x.bound bindings) hint field.type)
        (v.lower x hint (field.type.put f)))
    (owner : TypeName) :
    Matches (v.lowerField (x.bound bindings) owner field)
      (v.lowerField x owner (field.put f)) := by
  have hNamed := matches_namedField hType owner
  rcases field with ⟨names, type, tag, doc⟩
  rw [SourceField.put] at hNamed ⊢
  by_cases hNames : names = []
  · have hFixed := hFilled hNames
    have hName := embeddedName?_put hFixed
    cases hOwn : ModuleView.embeddedName? type with
    | none =>
        rw [hOwn] at hName
        unfold ModuleView.lowerField
        rw [hNames, hOwn, hName]
        exact matches_pure ([], [])
    | some name =>
        rw [hOwn] at hName
        have hParent := matches_parent? hFixed hType owner name
        rw [lowerField_embedded hNames hOwn,
          lowerField_embedded hNames hName]
        dsimp only
        split
        · exact matches_pure ([], [])
        · apply hParent.bind
          intro parent?
          cases parent? with
          | some parent => exact matches_pure _
          | none =>
              dsimp only
              split
              · exact hNamed name
              · exact matches_pure ([], [])
  · rw [lowerField_named hNames, lowerField_named hNames]
    exact (matches_mapM hNamed _).map

/-
  With types in place of its parameters, a type is lowered to
  what it is lowered to when the parameters stand for them.
-/
theorem matches_lower (h : x.Stands f bindings) :
    (∀ t, x.Admits f t → ∀ hint,
      Matches (v.lower (x.bound bindings) hint t)
        (v.lower x hint (t.put f)))
      ∧ (∀ fields, x.AdmitsFields f fields → ∀ owner,
        Matches (v.lowerFields (x.bound bindings) owner fields)
          (v.lowerFields x owner (putFields f fields)))
      ∧ (∀ field, x.AdmitsField f field → ∀ owner,
        Matches (v.lowerField (x.bound bindings) owner field)
          (v.lowerField x owner (field.put f)))
      ∧ ∀ _ : List SourceType, True := by
  refine SourceType.put.mutual_induct _ _ _ (fun _ => True)
    ?ident ?qualified ?generic ?pointer ?slice ?array ?map
    ?struct ?interface ?union ?tilde ?unsupported ?noType ?types
    ?noField ?fields ?field
  case ident =>
    intro name hAdmits hint
    exact matches_lower_ident h hAdmits hint
  case qualified =>
    intro package name _ hint
    rw [SourceType.put, ModuleView.lower, ModuleView.lower]
    exact matches_lowerNames h hint
  case generic =>
    intro base args _ _ _ hint
    rw [SourceType.put, ModuleView.lower, ModuleView.lower]
    exact matches_lowerNames h hint
  case pointer =>
    intro elem hElem hAdmits hint
    rw [SourceType.put, ModuleView.lower, ModuleView.lower]
    exact (hElem hAdmits hint).map
  case slice =>
    intro elem hElem hAdmits hint
    rw [SourceType.put, ModuleView.lower_slice,
      ModuleView.lower_slice, h.isByte_put hAdmits]
    split
    · exact matches_pure _
    · exact (hElem hAdmits.2 hint).map
  case array =>
    intro len elem hElem hAdmits hint
    rw [SourceType.put, ModuleView.lower, ModuleView.lower]
    exact (hElem hAdmits hint).map
  case map =>
    intro key value hKey hValue hAdmits hint
    rw [SourceType.put, ModuleView.lower, ModuleView.lower]
    exact (hKey hAdmits.1 hint).bind
      fun _ => (hValue hAdmits.2 hint).map
  case struct =>
    intro fields hFields hAdmits hint
    rw [SourceType.put, ModuleView.lower, ModuleView.lower]
    apply (matches_takeName _).bind
    intro free
    cases free with
    | false => exact matches_pure _
    | true =>
        apply (hFields hAdmits _).bind
        rintro ⟨members, parents⟩
        exact (matches_declare _).map
  case interface =>
    intro elems hasMethods _ _ hint
    rw [SourceType.put, ModuleView.lower, ModuleView.lower]
    exact matches_pure _
  case union =>
    intro terms _ _ hint
    rw [SourceType.put, ModuleView.lower, ModuleView.lower]
    exact matches_pure _
  case tilde =>
    intro elem _ _ hint
    rw [SourceType.put, ModuleView.lower, ModuleView.lower]
    exact matches_pure _
  case unsupported =>
    intro text _ hint
    rw [SourceType.put, ModuleView.lower, ModuleView.lower]
    exact matches_unsupported
  case noType => trivial
  case types => exact fun _ _ _ _ => trivial
  case noField =>
    intro _ owner
    rw [putFields, ModuleView.lowerFields,
      ModuleView.lowerFields]
    exact matches_pure _
  case fields =>
    intro field rest hFirst hRest hAdmits owner
    rw [putFields, ModuleView.lowerFields,
      ModuleView.lowerFields]
    exact (hFirst hAdmits.1 owner).bind
      fun _ => (hRest hAdmits.2 owner).map
  case field =>
    intro names type tag doc hType hAdmits owner
    exact matches_lowerField hAdmits.1 (hType hAdmits.2) owner

------------------------------------------------------------
-- Declarations
------------------------------------------------------------

/- A declaration with types in place of its parameters. -/
def TypeSource.put (f : Filling) (d : TypeSource) : TypeSource :=
  { d with type := d.type.put f }

theorem programmed_enum?
    (x : SourceScope)
    (id : TypeName)
    (params : List (TypeParam WireType))
    (d : TypeSource) :
    Programmed v (enum? x id params d) := by
  unfold enum?
  split
  · exact programmed_enumeration _ _ _
  · exact programmed_pure none

/-
  A declaration that is not a parameter alone is lowered to
  what it is lowered to with its arguments written in place.
-/
theorem matches_lowerDecl
    {d : TypeSource}
    (h : x.Stands f bindings)
    (hAdmits : x.Admits f d.type)
    (hAlone : ∀ name, d.type = .ident name →
      f.types.lookup name = none)
    (id : TypeName) :
    Matches (v.lowerDecl (x.bound bindings) id [] d)
      (v.lowerDecl x id [] (d.put f)) := by
  by_cases hStruct : ∃ fs, d.type = .struct fs
  · rcases hStruct with ⟨fs, hType⟩
    rw [hType] at hAdmits
    unfold ModuleView.lowerDecl TypeSource.put
    rw [hType, SourceType.put]
    apply ((matches_lower h).2.1 fs hAdmits id).bind
    rintro ⟨members, parents⟩
    exact matches_pure _
  · have hOther : ∀ fs, d.type ≠ .struct fs :=
      fun fs hType => hStruct ⟨fs, hType⟩
    have hPut := put_ne_struct hAlone hOther
    rw [lowerDecl_eq hOther, lowerDecl_eq hPut]
    have hEnum :
        enum? (x.bound bindings) id [] d =
          enum? x id [] (d.put f) := by
      unfold enum? enumeration TypeSource.put
      rw [enumKind?_put hAlone]
    rw [hEnum]
    have hSame : Programmed v (enum? x id [] (d.put f)) :=
      programmed_enum? x id [] (d.put f)
    apply hSame.matches.bind
    intro t?
    cases t? with
    | some t => exact matches_pure t
    | none =>
        exact ((matches_lower h).1 d.type hAdmits _).map

end

------------------------------------------------------------
-- Agreement of the Lowerings
------------------------------------------------------------

/-
  A type and the expression that it is are lowered to one
  result exactly if both ways take all its parts alike.  So
  an instance of a generic declaration is lowered as the
  declaration with the arguments written into it, where what
  is written is admitted.
-/
theorem ModuleView.lowerings_agree
    (v : ModuleView)
    (x : SourceScope) :
    (∀ hint t e, x.resolve? t = some e →
      (x.AgreesOn t → v.lower x hint t = v.lowerExpr x.place e)
        ∧ (¬x.AgreesOn t →
          Differ (v.lower x hint t) (v.lowerExpr x.place e)))
      ∧ ∀ d id args f bindings,
        x.Instantiates (d.params.map (·.name)) args f bindings →
        x.Admits f d.type →
        (∀ name, d.type = .ident name →
          f.types.lookup name = none) →
        Matches (v.lowerDecl (x.bound bindings) id [] d)
          (v.lowerDecl x id [] (d.put f)) := by
  constructor
  · intro hint t e hResolve
    have hWays := lower_twoWays v hint hResolve
    exact ⟨hWays.same, hWays.differ⟩
  · intro d id args f bindings hInstance hAdmits hAlone
    exact matches_lowerDecl hInstance.stands hAdmits hAlone id

/- A generic struct with a list and a map of its parameter. -/
def crateDecl : TypeSource :=
  { name := "Crate"
    params := [{ name := "T", bound := .ident "any" }]
    type :=
      .struct
        [{ names := ["Items"], type := .slice (.ident "T") },
          { names := ["ByName"]
            type :=
              .map (.ident "string") (.pointer (.ident "T")) }]
    place := { file := "m.go", line := 2, column := 6 } }

def crateFile : FileSource :=
  { path := "m.go", package := "m", types := [crateDecl] }

def crateScope : SourceScope :=
  { package := { path := "m", files := [crateFile], values := [] }
    file := crateFile
    place := crateDecl.place }

/- One name for the parameter. -/
def crateFilling (name : String) : Filling :=
  { types := [("T", .ident name)], retext := id }

def crateBindings (name : String) : List (String × Binding) :=
  [("T", .argument (.builtin name))]

/- The same struct in a module, with bytes for the parameter. -/
def crateView : ModuleView :=
  { read := FileSource.parse?
    tree :=
      { entries :=
          [(["go.mod"], .file "module m\n".toUTF8),
            (["m.go"],
              .file
                ("package m\n"
                  ++ "type Crate[T any] struct \x7b Items []T \x7d\n"
                  ++ "type A struct \x7b\n"
                  ++ "B Crate[byte]\nC []byte\n\x7d\n").toUTF8)] }
    module := { root := "/", path := "m" }
    known := .default }

theorem instantiates_crate :
    crateScope.Instantiates (crateDecl.params.map (·.name))
      [.builtin "string"] (crateFilling "string")
      (crateBindings "string") where
  top := rfl
  some := by decide
  bound := rfl
  written := ⟨[.ident "string"], rfl, rfl⟩

theorem admits_crate :
    crateScope.Admits (crateFilling "string") crateDecl.type := by
  have hPut : ∀ name a,
      (crateFilling "string").types.lookup name = some a →
        crateScope.AgreesOn a ∧ crateScope.isByte a = false := by
    intro name a h
    simp only [crateFilling, List.lookup_cons,
      List.lookup_nil] at h
    split at h
    · cases h
      exact ⟨trivial, by decide⟩
    · cases h
  have hType : ∀ name,
      crateScope.Admits (crateFilling "string") (.ident name) :=
    fun name a h => (hPut name a h).1
  refine ⟨⟨nofun, ?_, hType "T"⟩,
    ⟨nofun, hType "string", hType "T"⟩, trivial⟩
  intro name a _ h
  exact (hPut name a h).2

theorem lowerings_agree_crate :
    (crateScope.AgreesOn (.slice (.ident "string"))
      ∧ crateView.lower crateScope "Items"
          (.slice (.ident "string")) =
        crateView.lowerExpr crateScope.place
          (.slice (.builtin "string")))
      ∧ (¬crateScope.AgreesOn (.struct [])
        ∧ ModuleView.Differ
          (crateView.lower crateScope "Items" (.struct []))
          (crateView.lowerExpr crateScope.place
            (.builtin "struct\x7b\x7d")))
      ∧ Matches
        (crateView.lowerDecl
          (crateScope.bound (crateBindings "string"))
          { name := "Crate_string", space := "m" } [] crateDecl)
        (crateView.lowerDecl crateScope
          { name := "Crate_string", space := "m" } []
          (crateDecl.put (crateFilling "string"))) := by
  rcases ModuleView.lowerings_agree crateView crateScope with
    ⟨hTypes, hDecls⟩
  have hSlice : crateScope.AgreesOn
      (.slice (.ident "string")) := by
    rw [SourceScope.agreesOn_slice_ident]
    exact fun hByte => absurd hByte (by decide)
  have hStruct : ¬crateScope.AgreesOn (.struct []) :=
    id
  refine ⟨⟨hSlice, (hTypes _ _ _ rfl).1 hSlice⟩,
    ⟨hStruct, (hTypes _ _ _ rfl).2 hStruct⟩, ?_⟩
  apply hDecls _ _ _ _ _ instantiates_crate admits_crate
  intro name hType
  cases hType

/- The fields of its records with the forms of their types. -/
def crateFields :
    Except ExtractionFault (List (String × String)) :=
  (crateView.tree.extractSources "/" .default
    { roots := [.named "m" "A" []], scope := [] }).map fun s =>
      s.types.flatMap fun t =>
        match t with
        | .record d => d.fields.map fun f =>
            (f.name, f.type.kindName)
        | _ => []

/-
  A list of a parameter that stands for a byte is no list of
  bytes, unlike its expression and unlike a list of the byte
  that is written in place of the parameter.
-/
theorem byteList_differs :
    (crateScope.bound (crateBindings "byte")).resolve?
        (.slice (.ident "T")) =
      some (.slice (.builtin "byte"))
    ∧ ((crateView.lower
          (crateScope.bound (crateBindings "byte")) "Crate_Items"
          (.slice (.ident "T"))).run' { memory := [] }) =
        .ok (.array (.base .uint 8) 0)
    ∧ ((crateView.lowerExpr crateScope.place
          (.slice (.builtin "byte"))).run' { memory := [] }) =
        .ok (.base .bytes 0)
    ∧ ((crateView.lower crateScope "Crate_Items"
          (.slice (SourceType.put (crateFilling "byte")
            (.ident "T")))).run' { memory := [] }) =
        .ok (.base .bytes 0)
    ∧ crateFields =
        .ok
          [("B", "reference"), ("C", "primitive"),
            ("Items", "array")] := by
  refine ⟨rfl, rfl, rfl, rfl, ?_⟩
  decide +kernel

end WireSchema.Source
