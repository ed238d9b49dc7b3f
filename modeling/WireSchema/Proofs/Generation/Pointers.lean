import WireSchema.Proofs.Catalog.Keeping
import WireSchema.Proofs.Source.Requests

/-
  Which pointers an extraction leaves in a schema.

  A pointer to a list, a map or bytes says nothing that the
  empty value does not, and in front of the type of a field
  it is dropped.  Pointers that stand further in, and those
  in front of what a synonym stands for, are kept.

  Main declarations:
    * `WireType.Collapsed`
    * `extracted_pointers`
-/

namespace WireSchema

open Source

------------------------------------------------------------
-- Fields
------------------------------------------------------------

namespace WireType

/-
  A field of a type with a given outline.  One pointer in
  front is dropped if it may be, and the field is optional
  then; all others are as in the outline.
-/
structure Collapsed
    (outline : WireType)
    (f : Field WireType) : Prop where
  front : f.type.collapses = false
  type : outline.collapse.Outlines f.type
  tight : f.type.IsTight ↔ outline.collapse.IsTight
  optional : outline.collapses = true → f.optional = true

theorem collapsed_taggedField
    {outline t : WireType}
    (h : outline.Outlines t)
    (name : String)
    (facts : FieldFacts)
    (doc : Doc) :
    outline.Collapsed (taggedField name facts t doc) where
  front := collapses_collapse t
  type := h.collapse
  tight := h.collapse.isTight_iff
  optional hCollapses := by
    rw [← h.collapses_eq] at hCollapses
    simp [taggedField, FieldFacts.apply, hCollapses]

/- The types of fields in a declaration, or its target. -/
def exposed : WireType → List WireType
  | .record d => d.fields.map Field.type
  | .synonym d => [d.target]
  | _ => []

end WireType

------------------------------------------------------------
-- Extractions
------------------------------------------------------------

/-
  Of the pointers in the type of a field, only one in front
  is dropped, and none of those in the target of a synonym.
  Such a type has a pointer to a list, a map or bytes in it
  exactly if what it is lowered from has one in such a place.
-/
theorem extracted_pointers
    (known : WellKnown)
    (r : ExtractionRequest)
    (s : Schema) :
    (∀ c : Catalog, c.extract known r = .ok s →
      (∀ d, .record d ∈ s.types → ∀ f ∈ d.fields,
        ∃ g ∈ c.allFields, f.name = g.name
          ∧ (g.type.outline known).Collapsed f)
      ∧ ∀ d, .synonym d ∈ s.types →
        ∃ e ∈ c.entries, d.id = catalogName e.space e.name
          ∧ (e.shape.outline known).Outlines d.target
          ∧ (d.target.IsTight ↔
            (e.shape.outline known).IsTight))
    ∧ ∀ (v : ModuleView) (root : String) (depth count : Nat),
      v.known = known →
      ModuleSource.open? v.tree root = .ok v.module →
      v.tree.extractWithin v.read root known depth count r =
        .ok s →
      (∀ d, .record d ∈ s.types → ∀ f ∈ d.fields,
        ∃ x g, v.HasField x g ∧ f.name ∈ fieldNames g
          ∧ (x.outline known g.type).Collapsed f)
      ∧ ∀ d, .synonym d ∈ s.types →
        ∃ i x source, v.Declares i x source ∧ d.id = i.id
          ∧ (x.outline known source.type).Outlines d.target
          ∧ (d.target.IsTight ↔
            (x.outline known source.type).IsTight) := by
  constructor
  · intro c hOk
    have hOutlined := Catalog.outlined_of_extract hOk
    constructor
    · intro d hd f hf
      rcases hOutlined _ hd f hf with ⟨g, hg, t, ht, rfl⟩
      exact ⟨g, hg, rfl,
        WireType.collapsed_taggedField ht _ _ _⟩
    · intro d hd
      rcases hOutlined _ hd with ⟨e, he, hName, hTarget⟩
      exact ⟨e, he, hName.symm, hTarget, hTarget.isTight_iff⟩
  · intro v root depth count hKnown hOpen hOk
    subst hKnown
    have hOutlined :=
      FileTree.outlined_of_extractWithin hOpen hOk
    constructor
    · intro d hd f hf
      rcases hOutlined _ hd f hf with
        ⟨x, g, hg, name, hName, t, ht, rfl⟩
      exact ⟨x, g, hg, hName,
        WireType.collapsed_taggedField ht _ _ _⟩
    · intro d hd
      rcases hOutlined _ hd with
        ⟨i, x, source, hDeclares, hId, hTarget⟩
      exact ⟨i, x, source, hDeclares, hId, hTarget,
        hTarget.isTight_iff⟩

/- A pointer in a list and one in front of a synonym. -/
def pointerCatalog : Catalog :=
  { entries :=
      [{ space := "m"
         name := "A"
         shape :=
          .struct
            [{ name := "Rows"
               type := .slice (.pointer (.slice (.int 64))) }] },
        { space := "m"
          name := "P"
          shape := .pointer (.map .string .string) }] }

/- The same types in the sources of a module. -/
def pointerView : ModuleView :=
  { read := FileSource.parse?
    tree :=
      { entries :=
          [(["go.mod"], .file "module m\n".toUTF8),
            (["m.go"],
              .file
                ("package m\n"
                  ++ "type A struct \x7b Rows []*[]int \x7d\n"
                  ++ "type P *map[string]string\n").toUTF8)] }
    module := { root := "/", path := "m" }
    known := .default }

def pointerRequest : ExtractionRequest :=
  { roots := [.named "m" "A" [], .named "m" "P" []]
    scope := [] }

/- Every declaration has a pointer that might be dropped. -/
def Schema.allLoose (s : Schema) : Bool :=
  s.types.all fun t => t.exposed.any fun u => !decide u.IsTight

theorem Schema.exists_not_isTight
    {s : Schema}
    (h : s.allLoose = true) :
    ∀ t ∈ s.types, ∃ u ∈ t.exposed, ¬u.IsTight := by
  simpa [allLoose] using h

def pointerNames : List TypeName :=
  [{ name := "A", space := "m" }, { name := "P", space := "m" }]

theorem loose_pointerCatalog :
    (pointerCatalog.extract .default pointerRequest).map
        (fun s => (s.names, s.allLoose)) =
      .ok (pointerNames, true) := by
  decide +kernel

theorem loose_pointerView :
    (pointerView.tree.extractSources "/" .default
        pointerRequest).map
        (fun s => (s.names, s.allLoose)) =
      .ok (pointerNames, true) := by
  decide +kernel

theorem open_pointerView :
    ModuleSource.open? pointerView.tree "/" =
      .ok pointerView.module := by
  decide +kernel

/- No field has such a pointer in front of its type. -/
theorem extracted_pointers_rows :
    (∃ s,
      pointerCatalog.extract .default pointerRequest = .ok s
        ∧ ∀ d, .record d ∈ s.types → ∀ f ∈ d.fields,
          f.type.collapses = false)
    ∧ ∃ s,
      pointerView.tree.extractSources "/" .default
          pointerRequest = .ok s
        ∧ ∀ d, .record d ∈ s.types → ∀ f ∈ d.fields,
          f.type.collapses = false := by
  constructor
  · rcases eq_ok_of_map loose_pointerCatalog with ⟨s, hOk, -⟩
    have hBoth := extracted_pointers .default pointerRequest s
    refine ⟨s, hOk, ?_⟩
    intro d hd f hf
    rcases (hBoth.1 _ hOk).1 d hd f hf with ⟨g, -, -, hField⟩
    exact hField.front
  · rcases eq_ok_of_map loose_pointerView with ⟨s, hOk, -⟩
    have hBoth := extracted_pointers .default pointerRequest s
    have hAll := hBoth.2 pointerView "/" _ _ rfl
      open_pointerView hOk
    refine ⟨s, hOk, ?_⟩
    intro d hd f hf
    rcases hAll.1 d hd f hf with ⟨x, g, -, -, hField⟩
    exact hField.front

/- Still, each of them has one further in, or as its target. -/
theorem pointers_not_collapsed :
    (∃ s,
      pointerCatalog.extract .default pointerRequest = .ok s
        ∧ s.names = pointerNames
        ∧ ∀ t ∈ s.types, ∃ u ∈ t.exposed, ¬u.IsTight)
    ∧ ∃ s,
      pointerView.tree.extractSources "/" .default
          pointerRequest = .ok s
        ∧ s.names = pointerNames
        ∧ ∀ t ∈ s.types, ∃ u ∈ t.exposed, ¬u.IsTight := by
  constructor
  · rcases eq_ok_of_map loose_pointerCatalog with
      ⟨s, hOk, hLoose⟩
    rcases Prod.mk.inj hLoose with ⟨hNames, hAll⟩
    exact ⟨s, hOk, hNames, s.exists_not_isTight hAll⟩
  · rcases eq_ok_of_map loose_pointerView with ⟨s, hOk, hLoose⟩
    rcases Prod.mk.inj hLoose with ⟨hNames, hAll⟩
    exact ⟨s, hOk, hNames, s.exists_not_isTight hAll⟩

end WireSchema
