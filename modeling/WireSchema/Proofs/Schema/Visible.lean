import Mathlib.Data.List.Basic
import WireSchema.Emit.Options
import WireSchema.Proofs.Validation.Checks

/-
  What a comment policy lets be seen of a schema.

  The documentation that a policy does not let through is
  dropped, and so are all places in sources.  Names, the
  parts of types and the order of emission stay.

  Key definitions include:
    * `WireType.visible`, `Schema.visible`
    * `Schema.find?_visible`
    * `Schema.emitOrder_visible`
-/

namespace WireSchema

------------------------------------------------------------
-- Documentation
------------------------------------------------------------

namespace CommentPolicy

/- The documentation of a declaration, service or endpoint. -/
def typeDoc (p : CommentPolicy) (doc : Doc) : Doc :=
  if p = .none then {} else doc

/- The documentation of a field or a member. -/
def memberDoc (p : CommentPolicy) (doc : Doc) : Doc :=
  if p = .all then doc else {}

end CommentPolicy

------------------------------------------------------------
-- Types
------------------------------------------------------------

def EnumMember.visible
    (p : CommentPolicy)
    (m : EnumMember) : EnumMember :=
  { m with doc := p.memberDoc m.doc }

namespace WireType

mutual

/- The type without what a policy hides, anywhere inside it. -/
def visible (p : CommentPolicy) : WireType → WireType
  | .record ⟨id, params, fields, parents, doc, _⟩ =>
      .record
        ⟨id, visibleParams p params, visibleFields p fields,
          parents, p.typeDoc doc, none⟩
  | .synonym ⟨id, params, body, doc, _⟩ =>
      .synonym
        ⟨id, visibleParams p params, visible p body,
          p.typeDoc doc, none⟩
  | .enum ⟨id, members, doc, _⟩ =>
      .enum
        ⟨id, members.map (EnumMember.visible p), p.typeDoc doc,
          none⟩
  | .base kind bits => .base kind bits
  | .array elem len => .array (visible p elem) len
  | .map key value => .map (visible p key) (visible p value)
  | .reference id => .reference id
  | .pointer elem => .pointer (visible p elem)
  | .union members => .union (visibleTypes p members)
  | .param q => .param (visibleParam p q)

def visibleTypes (p : CommentPolicy) :
    List WireType → List WireType
  | [] => []
  | t :: rest => visible p t :: visibleTypes p rest

def visibleParams (p : CommentPolicy) :
    List (TypeParam WireType) → List (TypeParam WireType)
  | [] => []
  | q :: rest => visibleParam p q :: visibleParams p rest

def visibleParam (p : CommentPolicy) :
    TypeParam WireType → TypeParam WireType
  | ⟨name, bound⟩ => ⟨name, visibleBound p bound⟩

def visibleBound (p : CommentPolicy) :
    Option WireType → Option WireType
  | none => none
  | some t => some (visible p t)

def visibleFields (p : CommentPolicy) :
    List (Field WireType) → List (Field WireType)
  | [] => []
  | f :: rest => visibleField p f :: visibleFields p rest

def visibleField (p : CommentPolicy) :
    Field WireType → Field WireType
  | ⟨name, t, wireName, optional, encoded, skip, rules, doc⟩ =>
      ⟨name, visible p t, wireName, optional, encoded, skip,
        rules, p.memberDoc doc⟩

end

variable {p : CommentPolicy}

theorem visibleTypes_eq (ts : List WireType) :
    visibleTypes p ts = ts.map (visible p) := by
  induction ts with
  | nil => simp [visibleTypes]
  | cons t rest ih => simp [visibleTypes, ih]

theorem visibleParams_eq (qs : List (TypeParam WireType)) :
    visibleParams p qs = qs.map (visibleParam p) := by
  induction qs with
  | nil => simp [visibleParams]
  | cons q rest ih => simp [visibleParams, ih]

theorem visibleFields_eq (fs : List (Field WireType)) :
    visibleFields p fs = fs.map (visibleField p) := by
  induction fs with
  | nil => simp [visibleFields]
  | cons f rest ih => simp [visibleFields, ih]

@[simp] theorem name_visibleParam (q : TypeParam WireType) :
    (visibleParam p q).name = q.name := by
  cases q
  rfl

@[simp] theorem bound_visibleParam (q : TypeParam WireType) :
    (visibleParam p q).bound = q.bound.map (visible p) := by
  rcases q with ⟨name, _ | bound⟩
  · rfl
  · rfl

theorem visibleField_eq (f : Field WireType) :
    visibleField p f =
      { f with
        type := f.type.visible p
        doc := p.memberDoc f.doc } := by
  cases f
  rfl

------------------------------------------------------------
-- Types by Form
------------------------------------------------------------

@[simp] theorem visible_record (d : RecordDecl WireType) :
    (record d).visible p =
      record
        { d with
          params := d.params.map (visibleParam p)
          fields := d.fields.map (visibleField p)
          doc := p.typeDoc d.doc
          source := none } := by
  cases d
  simp [visible, visibleParams_eq, visibleFields_eq]

@[simp] theorem visible_synonym (d : SynonymDecl WireType) :
    (synonym d).visible p =
      synonym
        { d with
          params := d.params.map (visibleParam p)
          target := d.target.visible p
          doc := p.typeDoc d.doc
          source := none } := by
  cases d
  simp [visible, visibleParams_eq]

@[simp] theorem visible_enum (d : EnumDecl) :
    (enum d).visible p =
      enum
        { d with
          members := d.members.map (EnumMember.visible p)
          doc := p.typeDoc d.doc
          source := none } := by
  cases d
  rfl

@[simp] theorem visible_base (kind : BaseKind) (bits : Nat) :
    (base kind bits).visible p = base kind bits := rfl

@[simp] theorem visible_array (elem : WireType) (len : Nat) :
    (array elem len).visible p = array (elem.visible p) len := rfl

@[simp] theorem visible_map (key value : WireType) :
    (map key value).visible p =
      map (key.visible p) (value.visible p) := rfl

@[simp] theorem visible_reference (id : TypeName) :
    (reference id).visible p = reference id := rfl

@[simp] theorem visible_pointer (elem : WireType) :
    (pointer elem).visible p = pointer (elem.visible p) := rfl

@[simp] theorem visible_union (members : List WireType) :
    (union members).visible p =
      union (members.map (visible p)) := by
  simp [visible, visibleTypes_eq]

@[simp] theorem visible_param (q : TypeParam WireType) :
    (param q).visible p = param (visibleParam p q) := rfl

------------------------------------------------------------
-- What Stays
------------------------------------------------------------

@[simp] theorem id?_visible (t : WireType) :
    (t.visible p).id? = t.id? := by
  cases t with
  | _ => simp [id?]

@[simp] theorem isPointer_visible (t : WireType) :
    (t.visible p).isPointer = t.isPointer := by
  cases t with
  | _ => simp [isPointer]

@[simp] theorem parents_visible (t : WireType) :
    (t.visible p).parents = t.parents := by
  cases t with
  | _ => simp [parents]

@[simp] theorem target_visible (t : WireType) :
    (t.visible p).target = t.target.visible p := by
  fun_induction target t with
  | case1 elem ih =>
      rw [visible_pointer, target]
      exact ih
  | case2 t hNot =>
      cases t with
      | pointer elem => exact absurd rfl (hNot elem)
      | _ => simp [target]

/- Only a base type is seen as a base type. -/
theorem visible_eq_base_iff
    {t : WireType}
    {kind : BaseKind}
    {bits : Nat} :
    t.visible p = .base kind bits ↔ t = .base kind bits := by
  cases t with
  | _ => simp

theorem boundReferences_visible
    {q : TypeParam WireType}
    (h : ∀ b ∈ q.bound, (b.visible p).references = b.references) :
    boundReferences (visibleParam p q) = boundReferences q := by
  unfold boundReferences
  rw [bound_visibleParam]
  cases hBound : q.bound with
  | none => rfl
  | some b => exact h b hBound

/- A type refers to the same names. -/
@[simp] theorem references_visible (t : WireType) :
    (t.visible p).references = t.references := by
  induction t using inductionOnParts with
  | hRecord d hParams hFields =>
      rw [visible_record, references_record, references_record]
      simp only [List.flatMap_map]
      congr 1
      · refine List.flatMap_congr fun q hq => ?_
        exact boundReferences_visible (hParams q hq)
      · refine List.flatMap_congr fun f hf => ?_
        rw [visibleField_eq]
        exact hFields f hf
  | hSynonym d hParams hTarget =>
      rw [visible_synonym, references_synonym, references_synonym,
        hTarget]
      simp only [List.flatMap_map]
      congr 1
      refine List.flatMap_congr fun q hq => ?_
      exact boundReferences_visible (hParams q hq)
  | hUnion members hMembers =>
      rw [visible_union, references_union, references_union,
        List.flatMap_map]
      exact List.flatMap_congr hMembers
  | hParam q hBound =>
      rw [visible_param, references_param, references_param]
      exact boundReferences_visible hBound
  | hArray elem len hElem => simpa using hElem
  | hMap key value hKey hValue => simp [hKey, hValue]
  | hPointer elem hElem => simpa using hElem
  | hEnum | hBase | hReference => simp

@[simp] theorem dependencies_visible (t : WireType) :
    (t.visible p).dependencies = t.dependencies := by
  rw [dependencies_eq, dependencies_eq, parents_visible,
    references_visible]

end WireType

------------------------------------------------------------
-- Schemas
------------------------------------------------------------

def Endpoint.visible (p : CommentPolicy) (e : Endpoint) :
    Endpoint :=
  { e with
    request := e.request.map (WireType.visible p)
    response := e.response.visible p
    doc := p.typeDoc e.doc }

def Service.visible (p : CommentPolicy) (v : Service) : Service :=
  { v with
    endpoints := v.endpoints.map (Endpoint.visible p)
    doc := p.typeDoc v.doc }

def Warning.visible (w : Warning) : Warning :=
  { w with place := none }

namespace Schema

/- The schema without what a policy hides. -/
def visible (p : CommentPolicy) (s : Schema) : Schema :=
  { s with
    types := s.types.map (WireType.visible p)
    services := s.services.map (Service.visible p)
    warnings := s.warnings.map Warning.visible }

variable {p : CommentPolicy}
variable {s : Schema}

theorem names_visible : (s.visible p).names = s.names := by
  simp [names, visible, List.filterMap_map]

theorem find?_visible (id : TypeName) :
    (s.visible p).find? id =
      (s.find? id).map (WireType.visible p) := by
  simp only [find?, visible, List.find?_map, Function.comp_def,
    WireType.id?_visible]

theorem findLast?_visible (id : TypeName) :
    (s.visible p).findLast? id =
      (s.findLast? id).map (WireType.visible p) := by
  simp only [findLast?, visible, ← List.map_reverse, List.find?_map,
    Function.comp_def, WireType.id?_visible]

/- A search that has finished what can be seen of declarations. -/
def Search.visible (p : CommentPolicy) (state : Search) : Search :=
  { state with
    finished := state.finished.map (WireType.visible p) }

theorem foldl_visible
    {step step' : Search → TypeName → Search}
    (h : ∀ state id,
      step' (state.visible p) id = (step state id).visible p)
    (ids : List TypeName)
    (state : Search) :
    ids.foldl step' (state.visible p) =
      (ids.foldl step state).visible p := by
  induction ids generalizing state with
  | nil => rfl
  | cons id rest ih =>
      rw [List.foldl_cons, List.foldl_cons, h, ih]

/- A search goes the same way. -/
theorem visit_visible
    (depth : Nat)
    (state : Search)
    (id : TypeName) :
    (s.visible p).visit depth (state.visible p) id =
      (s.visit depth state id).visible p := by
  induction depth generalizing state id with
  | zero => rfl
  | succ depth ih =>
      have hSeen : (state.visible p).seen = state.seen := rfl
      unfold visit
      rw [findLast?_visible, hSeen]
      split
      · rfl
      · cases s.findLast? id with
        | none => rfl
        | some t =>
            dsimp only [Option.map_some]
            have hLeft := foldl_visible ih t.dependencies
              { state with seen := id :: state.seen }
            have hEntered : ({ state.visible p with
                seen := id :: state.seen } : Search) =
              ({ state with seen := id :: state.seen } :
                Search).visible p := rfl
            rw [WireType.dependencies_visible, hEntered, hLeft]
            simp [Search.visible]

/- Declarations are emitted in the same order. -/
theorem emitOrder_visible (names : EmittedNames) :
    (s.visible p).emitOrder names =
      (s.emitOrder names).map (WireType.visible p) := by
  have hRoots : (s.visible p).roots names = s.roots names := by
    unfold roots
    rw [names_visible]
  have hLength : (s.visible p).types.length = s.types.length := by
    simp [visible]
  have hRun := foldl_visible
    (s.visit_visible (p := p) (s.types.length + 1))
    (s.roots names) {}
  unfold emitOrder
  rw [hRoots, hLength]
  exact congrArg Search.finished hRun

end Schema

end WireSchema
