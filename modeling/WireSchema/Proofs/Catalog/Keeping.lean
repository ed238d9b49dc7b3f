import WireSchema.Proofs.Catalog.Extraction
import WireSchema.Proofs.Extraction.Keeping
import WireSchema.Proofs.Schema.Parts

/-
  What is declared from the shapes of a catalog.

  The types of fields and synonyms are those of their shapes,
  with names in the place of named shapes.  Of pointers to
  what has an empty value, one in front of a field is
  dropped and no other.  All that is put in the queue has an
  entry, so that no declaration fails to resolve.

  Key definitions include:
    * `Reflected.outline`, `Catalog.allFields`
    * `Catalog.Outlined`
-/

namespace WireSchema

open Walk

------------------------------------------------------------
-- Shapes
------------------------------------------------------------

namespace Reflected

/- The type of a shape, with any value in place of names. -/
def outline (known : WellKnown) : Reflected → WireType
  | .bool => .base .bool 0
  | .int bits => .base .int bits
  | .uint bits => .base .uint bits
  | .float bits => .base .float bits
  | .string => .base .string 0
  | .interface => .any
  | .slice (.uint 8) => .base .bytes 0
  | .slice elem => .array (outline known elem) 0
  | .array len elem => .array (outline known elem) len
  | .map key value =>
      .map (outline known key) (outline known value)
  | .pointer elem => .pointer (outline known elem)
  | .struct [] => .base .empty 0
  | .struct (_ :: _) => .any
  | .named space name => (known.find? space name).getD .any
  | .unsupported => .any

mutual

/- All fields of structs in a shape, wherever they stand. -/
def allFields : Reflected → List (ReflectedField Reflected)
  | .slice elem => allFields elem
  | .array _ elem => allFields elem
  | .map key value => allFields key ++ allFields value
  | .pointer elem => allFields elem
  | .struct fields => fieldsOf fields
  | _ => []

def fieldsOf :
    List (ReflectedField Reflected) →
      List (ReflectedField Reflected)
  | [] => []
  | f :: rest => fieldsFrom f ++ fieldsOf rest

def fieldsFrom :
    ReflectedField Reflected → List (ReflectedField Reflected)
  | ⟨name, type, tag, embedded⟩ =>
      ⟨name, type, tag, embedded⟩ :: allFields type

end

end Reflected

namespace Catalog

variable {c : Catalog}
variable {known : WellKnown}

/- All fields in the entries of a catalog. -/
def allFields (c : Catalog) : List (ReflectedField Reflected) :=
  c.entries.flatMap fun e => e.shape.allFields

------------------------------------------------------------
-- Standards
------------------------------------------------------------

/- A field is made of a type that has the outline of one. -/
def FieldOutlined
    (c : Catalog)
    (known : WellKnown)
    (f : Field WireType) : Prop :=
  ∃ g ∈ c.allFields, ∃ t, (g.type.outline known).Outlines t
    ∧ f = taggedField g.name (.ofTag g.tag) t {}

/-
  Fields are outlined by fields of the catalog, and a synonym
  by the shape of its entry.
-/
def Outlined (c : Catalog) (known : WellKnown) :
    WireType → Prop
  | .record d => ∀ f ∈ d.fields, c.FieldOutlined known f
  | .synonym d =>
      ∃ e ∈ c.entries, catalogName e.space e.name = d.id
        ∧ (e.shape.outline known).Outlines d.target
  | _ => True

/- What is in the queue has an entry. -/
def standard (c : Catalog) (known : WellKnown) :
    Standard ReportedName Unit where
  type := c.Outlined known
  item n := (c.find? n.space n.name).isSome
  memory _ := True

/- A reported type may be asked for, unless names clash. -/
theorem keeps_reported
    {n : ReportedName}
    (hFound : (c.find? n.space n.name).isSome) :
    Keeps IsClash (c.standard known) (fun _ => True)
      n.enqueue := by
  apply (keeps_claim fun _ => ⟨_, _, _, rfl⟩).bind
  intro _ _
  exact (keeps_enqueue n.id hFound).map fun _ _ => trivial

------------------------------------------------------------
-- Lowering
------------------------------------------------------------

theorem keeps_named (space name : String) :
    Keeps Resolves (c.standard known)
      (((known.find? space name).getD .any).Outlines)
      (c.lowerNamed known space name) := by
  unfold lowerNamed
  split
  · next t hKnown =>
      apply keeps_pure
      rw [hKnown]
      exact WireType.outlines_of_find? hKnown
  · next hUnknown =>
      rw [hUnknown]
      split
      · exact keeps_noted _ (keeps_pure WireType.outlines_any)
      · next e hFound =>
          have hSome : (c.find? space name).isSome := by
            rw [hFound]
            rfl
          apply Keeps.allow _ fun _ => IsClash.resolves
          exact (keeps_reported hSome).map fun id _ =>
            .reference id

/-
  The type of a shape has its outline, and all fields on the
  way are outlined by their shapes.
-/
theorem keeps_shapes (space : String) :
    (∀ hint shape, shape.allFields ⊆ c.allFields →
      Keeps Resolves (c.standard known)
        (shape.outline known).Outlines
        (c.lower known space hint shape))
      ∧ (∀ owner fs,
        Reflected.fieldsOf fs ⊆ c.allFields →
        Keeps Resolves (c.standard known)
          (FieldsMeet (c.FieldOutlined known))
          (c.lowerFields known space owner fs))
      ∧ (∀ owner f,
        Reflected.fieldsFrom f ⊆ c.allFields →
        Keeps Resolves (c.standard known)
          (FieldsMeet (c.FieldOutlined known))
          (c.lowerField known space owner f)) := by
  have hField : ∀ {g : ReflectedField Reflected},
      g ∈ c.allFields →
      ∀ t, (g.type.outline known).Outlines t →
        c.FieldOutlined known
          (taggedField g.name (.ofTag g.tag) t {}) := by
    intro g hg t ht
    exact ⟨g, hg, t, ht, rfl⟩
  refine lower.mutual_induct c known space _ _ _
    ?bool ?int ?uint ?float ?string ?interface ?bytes ?slice
    ?array ?map ?pointer ?empty ?struct ?named ?unsupported
    ?noField ?field ?skipped ?embedded ?plain
  case bool | int | uint | float | string | interface
      | bytes | empty =>
    intros
    unfold lower
    exact keeps_pure (.base _ _)
  case slice =>
    intro hint elem hNotByte hElem hShapes
    rw [lower.eq_8 c known space hint elem hNotByte,
      Reflected.outline.eq_8 known elem hNotByte]
    exact (hElem hShapes).map fun t ht => .array 0 ht
  case array =>
    intro hint len elem hElem hShapes
    unfold lower
    exact (hElem hShapes).map fun t ht => .array len ht
  case map =>
    intro hint key value hKey hValue hShapes
    rw [Reflected.allFields, List.append_subset] at hShapes
    unfold lower
    apply (hKey hShapes.1).bind
    intro k hk
    exact (hValue hShapes.2).map fun v hv => .map hk hv
  case pointer =>
    intro hint elem hElem hShapes
    unfold lower
    exact (hElem hShapes).map fun t ht => .pointer ht
  case struct =>
    intro hint f rest id hFields hShapes
    unfold lower
    apply (keeps_struct (hFields hShapes) fun d h => h).imp
    rintro t rfl
    exact .reference id
  case named =>
    intro hint package name _
    unfold lower
    exact keeps_named package name
  case unsupported =>
    intro hint _
    unfold lower
    exact keeps_noted _ (keeps_pure WireType.outlines_any)
  case noField =>
    intro owner _
    unfold lowerFields
    exact keeps_pure (fieldsMeet_nil [])
  case field =>
    intro owner f rest hFirst hMore hShapes
    rw [Reflected.fieldsOf, List.append_subset] at hShapes
    unfold lowerFields
    exact keeps_append (hFirst hShapes.1) (hMore hShapes.2)
  case skipped =>
    intro owner name type tag embedded facts hSkip _
    unfold lowerField
    rw [if_pos hSkip]
    exact keeps_pure (fieldsMeet_nil [])
  case embedded =>
    intro owner name type tag embedded facts hKept hParent
      hOwn hType hShapes
    rw [Reflected.fieldsFrom, List.cons_subset] at hShapes
    have hSelf := keeps_exported (hOwn hShapes.2)
      (hField hShapes.1)
    unfold lowerField
    rw [if_neg hKept, if_pos hParent]
    apply (hType hShapes.2).bind
    intro t _
    exact keeps_parentOr (keeps_return _) hSelf
  case plain =>
    intro owner name type tag embedded facts hKept hParent
      hOwn hShapes
    rw [Reflected.fieldsFrom, List.cons_subset] at hShapes
    have hSelf := keeps_exported (hOwn hShapes.2)
      (hField hShapes.1)
    unfold lowerField
    rw [if_neg hKept, if_neg hParent]
    exact keeps_parentOr (keeps_return _) hSelf

------------------------------------------------------------
-- Declarations
------------------------------------------------------------

/- The fields in an entry are fields of the catalog. -/
theorem allFields_subset
    {e : CatalogEntry}
    (he : e ∈ c.entries) :
    e.shape.allFields ⊆ c.allFields :=
  fun _ h => List.mem_flatMap.mpr ⟨e, he, h⟩

theorem keeps_declareEntry
    {e : CatalogEntry}
    (he : e ∈ c.entries) :
    Keeps Resolves (c.standard known) (fun _ => True)
      (c.declareEntry known e) := by
  have hShapes := allFields_subset he
  have hLowered := @keeps_shapes c known e.space
  unfold declareEntry
  dsimp only
  split
  · next fields hStruct =>
      rw [hStruct, Reflected.allFields] at hShapes
      apply (hLowered.2.1 _ fields hShapes).bind
      rintro ⟨fields, parents⟩ hFields
      exact keeps_declare rfl hFields
  · apply (hLowered.1 _ e.shape hShapes).bind
    intro target hTarget
    have hDeclared :
        Keeps Resolves (c.standard known) (fun _ => True)
          (declare
            (.synonym
              { id := catalogName e.space e.name, target })) :=
      keeps_declare rfl ⟨e, he, rfl, hTarget⟩
    split
    · exact keeps_noted _ hDeclared
    · exact hDeclared

theorem keeps_declareName
    {n : ReportedName}
    (hFound : (c.find? n.space n.name).isSome) :
    Keeps Resolves (c.standard known) (fun _ => True)
      (c.declareName known n) := by
  unfold declareName
  split
  · next hNone =>
      rw [hNone] at hFound
      cases hFound
  · next e hEntry =>
      exact keeps_declareEntry (List.mem_of_find?_eq_some hEntry)

/- All that is in the queue is declared as the standard asks. -/
theorem keeps_declared (bound : Nat) :
    Keeps Resolves (c.standard known) (fun _ => True)
      (drain (c.declareName known) bound) :=
  keeps_drain resolves_unfinished
    (fun _ hItem => keeps_declareName hItem) bound

------------------------------------------------------------
-- Requests
------------------------------------------------------------

/- No type of a namespace is reported. -/
def lacks (c : Catalog) (space : String) : Bool :=
  !c.entries.any fun e => e.space == space

/- Every name that a root asks for is known or reported. -/
def Answers (c : Catalog) (known : WellKnown) :
    TypeExpr → Prop
  | .named space name args =>
      (known.find? space name).isSome
        ∨ (c.find? space (reportedName name args)).isSome
  | .pointer elem => Answers c known elem
  | .slice elem => Answers c known elem
  | .array _ elem => Answers c known elem
  | .map key value => Answers c known key ∧ Answers c known value
  | .builtin _ => True
  | .param _ => False

theorem lacks_eq_isEmpty (space : String) :
    c.lacks space =
      (c.entries.filter fun e => e.space == space).isEmpty := by
  rw [Bool.eq_iff_iff, List.isEmpty_iff, List.filter_eq_nil_iff]
  simp [lacks]

/-
  A namespace fails to resolve if nothing is in it, and else
  only if names clash.
-/
theorem keeps_requireSpace (space : String) :
    Keeps
      (fun e => e = .unresolved space ∧ c.lacks space = true
        ∨ IsClash e)
      (c.standard known) (fun _ => c.lacks space = false)
      (c.requireSpace space) := by
  rw [lacks_eq_isEmpty]
  unfold requireSpace
  dsimp only
  split
  · next hNone => exact keeps_fault (.inl ⟨rfl, hNone⟩)
  · next hSome =>
      have hEach :
          ∀ e ∈ c.entries.filter fun e => e.space == space,
            Keeps IsClash (c.standard known) (fun _ => True)
              (do
                let n : ReportedName := ⟨e.space, e.name⟩
                let _ ← n.enqueue) := by
        intro e he
        have hFound :=
          isSome_find?_of_mem (List.mem_filter.mp he).1
        exact (keeps_reported hFound).map fun _ _ => trivial
      apply ((keeps_forM hEach).allow fun _ => .inr).imp
      intro _ _
      exact Bool.eq_false_iff.mpr hSome

/- A root that is answered does not fail to resolve. -/
theorem keeps_require (t : TypeExpr) :
    Keeps (Blames fun _ => ¬c.Answers known t)
      (c.standard known) (fun _ => True)
      (c.require known t) := by
  fun_induction require c known t with
  | case1 space name args hKnown => exact keeps_return _
  | case2 space name args hUnknown reported hNone =>
      apply keeps_fault
      rintro what _ (hKnown | hFound)
      · exact hUnknown hKnown
      · rw [hNone] at hFound
        cases hFound
  | case3 space name args hUnknown reported e hFound =>
      have hSome : (c.find? space reported).isSome := by
        rw [hFound]
        rfl
      apply Keeps.allow _ fun _ h => (IsClash.resolves h).blames
      exact (keeps_reported hSome).map fun _ _ => trivial
  | case4 elem hElem => exact hElem
  | case5 elem hElem => exact hElem
  | case6 len elem hElem => exact hElem
  | case7 key value hKey hValue =>
      apply (hKey.blames_imp fun _ => mt And.left).bind
      intro _ _
      exact hValue.blames_imp fun _ => mt And.right
  | case8 name => exact keeps_return _
  | case9 name => exact keeps_fault fun _ _ => id

------------------------------------------------------------
-- Runs
------------------------------------------------------------

variable {r : ExtractionRequest}
variable {Missing : String → Prop}
variable {what : String}

/- The scope of a request, with the first that is lacking. -/
theorem keeps_spaces :
    Keeps
      (fun e =>
        (∃ what, e = .unresolved what
          ∧ r.scope.find? c.lacks = some what)
          ∨ IsClash e)
      (c.standard known)
      (fun _ => r.scope.find? c.lacks = none)
      (r.scope.forM c.requireSpace) :=
  keeps_scope fun space _ => keeps_requireSpace space

/- What is missing is in the scope, or asked for by a root. -/
theorem keeps_walk
    (hScope : ∀ what, r.scope.find? c.lacks = some what →
      Missing what)
    (hRoots : ∀ t ∈ r.roots, ¬c.Answers known t →
      ∀ what, Missing what) :
    Keeps (Blames Missing) (c.standard known) (fun _ => True)
      (c.walk known r) := by
  have hEach : ∀ t ∈ r.roots,
      Keeps (Blames Missing) (c.standard known) (fun _ => True)
        (c.require known t) := by
    intro t ht
    apply (keeps_require t).blames_imp
    intro what hNot
    exact hRoots t ht hNot what
  unfold walk
  apply (keeps_spaces.allow ?_).bind
  · intro _ _
    exact (keeps_forM hEach).bind fun _ _ =>
      (keeps_declared _).blames
  · rintro e (⟨what, rfl, hFirst⟩ | hClash)
    · rintro _ ⟨⟩
      exact hScope what hFirst
    · exact hClash.resolves.blames

theorem extract_eq_finish (hCheck : r.check = .ok ()) :
    c.extract known r = finish () (c.walk known r) := by
  unfold extract
  rw [hCheck]
  rfl

/-
  If all roots are answered, only the first namespace of the
  scope that is lacking fails to resolve.
-/
theorem find?_lacks_of_extract
    (hAnswers : ∀ t ∈ r.roots, c.Answers known t)
    (hError : c.extract known r = .error (.unresolved what)) :
    r.scope.find? c.lacks = some what := by
  have hKeeps : Keeps
      (Blames fun what => r.scope.find? c.lacks = some what)
      (c.standard known) (fun _ => True) (c.walk known r) :=
    keeps_walk (fun _ => id) fun t ht hNot =>
      absurd (hAnswers t ht) hNot
  rcases eq_error_of_bind hError with hCheck | ⟨_, _, hEnd⟩
  · exact absurd rfl (resolves_of_check hCheck what)
  · exact hKeeps.of_finish_eq_error trivial hEnd what rfl

/- It does, unless names in its scope clash. -/
theorem extract_of_find?_lacks
    (hFirst : r.scope.find? c.lacks = some what) :
    ∃ e, c.extract known r = .error e
      ∧ (e = .unresolved what ∨ IsClash e) := by
  have hKeeps : Keeps
      (fun e => e = .unresolved what ∨ IsClash e)
      (c.standard known) (fun _ => False)
      (c.walk known r) := by
    unfold walk
    apply (keeps_spaces.allow ?_).bind
    · intro _ hNone
      rw [hFirst] at hNone
      cases hNone
    · rintro e (⟨what', hError, hFirst'⟩ | hClash)
      · rw [hFirst] at hFirst'
        cases hFirst'
        exact .inl hError
      · exact .inr hClash
  rw [extract_eq_finish
    (check_of_mem_scope (List.mem_of_find?_eq_some hFirst))]
  exact hKeeps.exists_fault trivial

/- All that is extracted is outlined by the catalog. -/
theorem outlined_of_extract
    {s : Schema}
    (hOk : c.extract known r = .ok s) :
    ∀ t ∈ s.types, c.Outlined known t := by
  have hKeeps : Keeps (Blames fun _ => True)
      (c.standard known) (fun _ => True) (c.walk known r) :=
    keeps_walk (fun _ _ => trivial) fun _ _ _ _ => trivial
  rcases eq_ok_of_bind hOk with ⟨_, -, hEnd⟩
  exact (hKeeps.of_finish_eq_ok trivial hEnd).1

end Catalog

end WireSchema
