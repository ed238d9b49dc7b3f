import WireSchema.Proofs.Schema.Members
import WireSchema.Proofs.Schema.Parts

/-
  Types are read back from what they are written to.

  A type gives its form and what its form holds.  It is read
  back if the types directly inside it are, and these stand
  deeper in the document, so the bound on its depth is enough
  for all of them.

  Key definitions include:
    * `WireType.content`, `WireType.children`
    * `WireType.Fits`
    * `WireType.formOf?_content`
    * `WireType.ofJson?_toJson`
-/

namespace WireSchema

open Json (given givenIf)

------------------------------------------------------------
-- Types
------------------------------------------------------------

namespace WireType

def paramGiven (p : TypeParam WireType) :
    List (String × Option Json) :=
  [("name", some (.text p.name)),
    ("constraint", p.bound.map toJson)]

def fieldGiven (f : Field WireType) :
    List (String × Option Json) :=
  [("name", some (.text f.name)), ("type", some f.type.toJson),
    ("wireName", some (.text f.wireName)),
    ("optional", some (.bool f.optional)),
    ("stringEncoded", some (.bool f.stringEncoded)),
    ("skip", some (.bool f.skip)),
    ("rawValidationTag",
      givenIf (!f.rules.isEmpty) (.text f.rules)),
    ("doc", givenIf (!f.doc.isEmpty) f.doc.toJson)]

def paramJson (p : TypeParam WireType) : Json :=
  .object (given (paramGiven p))

def fieldJson (f : Field WireType) : Json :=
  .object (given (fieldGiven f))

/- What a type gives beside its form. -/
def content : WireType → List (String × Option Json)
  | .record d =>
      [("id", some d.id.toJson),
        ("typeParams",
          givenIf (!d.params.isEmpty)
            (.array (d.params.map paramJson))),
        ("fields", some (.array (d.fields.map fieldJson))),
        ("extends",
          givenIf (!d.parents.isEmpty)
            (.array (d.parents.map TypeName.toJson))),
        ("doc", givenIf (!d.doc.isEmpty) d.doc.toJson),
        ("source", d.source.map SourcePlace.toJson)]
  | .synonym d =>
      [("id", some d.id.toJson),
        ("typeParams",
          givenIf (!d.params.isEmpty)
            (.array (d.params.map paramJson))),
        ("underlying", some d.target.toJson),
        ("doc", givenIf (!d.doc.isEmpty) d.doc.toJson),
        ("source", d.source.map SourcePlace.toJson)]
  | .enum d =>
      [("id", some d.id.toJson),
        ("members",
          some (.array (d.members.map EnumMember.toJson))),
        ("doc", givenIf (!d.doc.isEmpty) d.doc.toJson),
        ("source", d.source.map SourcePlace.toJson)]
  | .base kind bits =>
      [("primitiveKind", some (.text kind.name)),
        ("bitSize", givenIf (bits != 0) (.nat bits))]
  | .array elem len =>
      [("elem", some elem.toJson), ("len", some (.nat len))]
  | .map key value =>
      [("key", some key.toJson), ("value", some value.toJson)]
  | .reference id => id.given
  | .pointer elem => [("elem", some elem.toJson)]
  | .union members =>
      [("members", some (.array (members.map toJson)))]
  | .param p => paramGiven p

theorem paramMembers_eq (p : TypeParam WireType) :
    paramMembers p = given (paramGiven p) := by
  rcases p with ⟨name, _ | bound⟩
  · rw [paramMembers, boundMember]
    rfl
  · rw [paramMembers, boundMember]
    rfl

theorem paramsToJson_eq (ps : List (TypeParam WireType)) :
    paramsToJson ps = ps.map paramJson := by
  induction ps with
  | nil => rw [paramsToJson, List.map_nil]
  | cons p rest ih =>
      rw [paramsToJson, List.map_cons, ih, paramMembers_eq]
      rfl

theorem fieldToJson_eq (f : Field WireType) :
    fieldToJson f = fieldJson f := by
  rcases f with
    ⟨name, type, wireName, optional, encoded, skip, rules, doc⟩
  rw [fieldToJson, Doc.asMember, memberIf_eq, memberIf_eq]
  simp only [fieldJson, fieldGiven, Json.given_cons_cons,
    Json.given_some, List.cons_append, List.nil_append]

theorem fieldsToJson_eq (fs : List (Field WireType)) :
    fieldsToJson fs = fs.map fieldJson := by
  induction fs with
  | nil => rw [fieldsToJson, List.map_nil]
  | cons f rest ih =>
      rw [fieldsToJson, List.map_cons, ih, fieldToJson_eq]

theorem typesToJson_eq (ts : List WireType) :
    typesToJson ts = ts.map toJson := by
  induction ts with
  | nil => rw [typesToJson, List.map_nil]
  | cons t rest ih => rw [typesToJson, List.map_cons, ih]

/- A type is written as its form and what it gives. -/
theorem toJson_eq (t : WireType) :
    t.toJson =
      .object (("kind", .text t.kindName) :: given t.content) := by
  cases t with
  | record d =>
      rcases d with ⟨id, params, fields, parents, doc, source⟩
      rw [toJson, Doc.asMember, memberIf_eq, memberIf_eq,
        memberIf_eq, memberOf?_eq, paramsToJson_eq,
        fieldsToJson_eq]
      simp only [content, Json.given_cons_cons, Json.given_some,
        List.append_assoc, List.cons_append, List.nil_append,
        kindName]
  | synonym d =>
      rcases d with ⟨id, params, target, doc, source⟩
      rw [toJson, Doc.asMember, memberIf_eq, memberIf_eq,
        memberOf?_eq, paramsToJson_eq]
      simp only [content, Json.given_cons_cons, Json.given_some,
        List.append_assoc, List.cons_append, List.nil_append,
        kindName]
  | enum d =>
      rw [toJson, Doc.asMember, memberIf_eq, memberOf?_eq]
      simp only [content, Json.given_cons_cons, Json.given_some,
        List.cons_append, List.nil_append, kindName]
  | base kind bits =>
      rw [toJson, memberIf_eq]
      rfl
  | array elem len =>
      rw [toJson]
      rfl
  | map key value =>
      rw [toJson]
      rfl
  | reference id =>
      rw [toJson, TypeName.members_eq]
      rfl
  | pointer elem =>
      rw [toJson]
      rfl
  | union members =>
      rw [toJson, typesToJson_eq]
      rfl
  | param p =>
      rw [toJson, paramMembers_eq]
      rfl

------------------------------------------------------------
-- Types Inside Types
------------------------------------------------------------

/- The bounds of parameters, where they have one. -/
def bounds (ps : List (TypeParam WireType)) : List WireType :=
  ps.flatMap fun p => p.bound.toList

/- The types that stand directly inside a type. -/
def children : WireType → List WireType
  | .record d => bounds d.params ++ d.fields.map Field.type
  | .synonym d => bounds d.params ++ [d.target]
  | .array elem _ => [elem]
  | .map key value => [key, value]
  | .pointer elem => [elem]
  | .union members => members
  | .param p => bounds [p]
  | _ => []

theorem mem_bounds
    {ps : List (TypeParam WireType)}
    {t : WireType} :
    t ∈ bounds ps ↔ ∃ p ∈ ps, p.bound = some t := by
  simp [bounds, Option.mem_toList]

/- What passes from the types inside holds of every type. -/
theorem inductionOnChildren
    {P : WireType → Prop}
    (h : ∀ t : WireType, (∀ u ∈ t.children, P u) → P t)
    (t : WireType) : P t := by
  have hBounds : ∀ ps : List (TypeParam WireType),
      (∀ p ∈ ps, ∀ b ∈ p.bound, P b) → ∀ u ∈ bounds ps, P u := by
    intro ps hParams u hu
    rcases mem_bounds.mp hu with ⟨p, hp, hBound⟩
    exact hParams p hp u hBound
  induction t using inductionOnParts with
  | hRecord d hParams hFields =>
      apply h
      intro u hu
      rcases List.mem_append.mp hu with hu | hu
      · exact hBounds d.params hParams u hu
      · rcases List.mem_map.mp hu with ⟨f, hf, rfl⟩
        exact hFields f hf
  | hSynonym d hParams hTarget =>
      apply h
      intro u hu
      rcases List.mem_append.mp hu with hu | hu
      · exact hBounds d.params hParams u hu
      · rw [List.mem_singleton.mp hu]
        exact hTarget
  | hEnum d => exact h _ nofun
  | hBase kind bits => exact h _ nofun
  | hArray elem len hElem => exact h _ (by simpa [children])
  | hMap key value hKey hValue =>
      exact h _ (by simp [children, hKey, hValue])
  | hReference id => exact h _ nofun
  | hPointer elem hElem => exact h _ (by simpa [children])
  | hUnion members hMembers => exact h _ hMembers
  | hParam p hBound =>
      exact h _ (hBounds [p] (by simpa using hBound))

/- The parts of a type inside are parts of the type. -/
theorem walk_subset_of_child
    {t u : WireType}
    (hu : u ∈ t.children) : u.walk ⊆ t.walk := by
  have hBounds : ∀ ps : List (TypeParam WireType),
      u ∈ bounds ps → u.walk ⊆ ps.flatMap boundWalk := by
    intro ps hBound w hw
    rcases mem_bounds.mp hBound with ⟨p, hp, hSome⟩
    apply List.mem_flatMap.mpr
    refine ⟨p, hp, ?_⟩
    unfold boundWalk
    rw [hSome]
    exact hw
  cases t with
  | record d =>
      rw [walk_record]
      apply List.subset_cons_of_subset
      rcases List.mem_append.mp hu with hu | hu
      · exact List.subset_append_of_subset_left _
          (hBounds d.params hu)
      · apply List.subset_append_of_subset_right
        rcases List.mem_map.mp hu with ⟨f, hf, rfl⟩
        intro w hw
        exact List.mem_flatMap.mpr ⟨f, hf, hw⟩
  | synonym d =>
      rw [walk_synonym]
      apply List.subset_cons_of_subset
      rcases List.mem_append.mp hu with hu | hu
      · exact List.subset_append_of_subset_left _
          (hBounds d.params hu)
      · rw [List.mem_singleton.mp hu]
        exact List.subset_append_right _ _
  | array elem len =>
      rw [List.mem_singleton.mp hu, walk_array]
      exact List.subset_cons_self _ _
  | map key value =>
      rw [walk_map]
      apply List.subset_cons_of_subset
      rcases List.mem_cons.mp hu with rfl | hu
      · exact List.subset_append_left _ _
      · rw [List.mem_singleton.mp hu]
        exact List.subset_append_right _ _
  | pointer elem =>
      rw [List.mem_singleton.mp hu, walk_pointer]
      exact List.subset_cons_self _ _
  | union members =>
      rw [walk_union]
      apply List.subset_cons_of_subset
      intro w hw
      exact List.mem_flatMap.mpr ⟨u, hu, hw⟩
  | param p =>
      rw [walk_param]
      apply List.subset_cons_of_subset
      simpa using hBounds [p] hu
  | enum d => cases hu
  | base kind bits => cases hu
  | reference id => cases hu

/- The numbers of a type itself fit their words. -/
def OwnFits : WireType → Prop
  | .record d => ∀ p ∈ d.source, p.Fits
  | .synonym d => ∀ p ∈ d.source, p.Fits
  | .enum d =>
      (∀ m ∈ d.members, m.value.Fits) ∧ ∀ p ∈ d.source, p.Fits
  | .base _ bits => bits ≤ Json.maxByte
  | .array _ len => len ≤ maxWord
  | _ => True

/- All numbers in a type fit their words. -/
def Fits (t : WireType) : Prop :=
  ∀ u ∈ t.walk, u.OwnFits

theorem Fits.own
    {t : WireType}
    (h : t.Fits) : t.OwnFits :=
  h t t.self_mem_walk

theorem Fits.child
    {t u : WireType}
    (h : t.Fits)
    (hu : u ∈ t.children) : u.Fits :=
  fun w hw => h w (walk_subset_of_child hu hw)

------------------------------------------------------------
-- Reading Forms
------------------------------------------------------------

section Reading

variable {read : Json → Option WireType}

theorem paramOf?_paramJson
    {p : TypeParam WireType}
    (hRead : ∀ b ∈ p.bound, read b.toJson = some b) :
    paramOf? read (paramJson p) = some p := by
  rcases Json.view?_given (paramGiven p)
    ["name", "constraint"] rfl (by decide)
    with ⟨v, hView, hGives⟩
  have hName : v.required? "name" Json.text? = some p.name :=
    hGives.required? (j := .text p.name) (by simp [paramGiven])
  have hBound : v.optional? "constraint" read = some p.bound := by
    apply hGives.optional? (w := toJson) (by simp [paramGiven])
    · intro b hNull
      rw [toJson_eq] at hNull
      cases hNull
    · exact hRead
  unfold paramOf? paramJson
  rw [hView]
  simp only [Option.bind_eq_bind, Option.bind_some, hName, hBound]

theorem fieldOf?_fieldJson
    {f : Field WireType}
    (hRead : read f.type.toJson = some f.type) :
    fieldOf? read (fieldJson f) = some f := by
  rcases Json.view?_given (fieldGiven f)
    ["name", "type", "wireName", "optional", "stringEncoded",
      "skip", "rawValidationTag", "doc"] rfl (by decide)
    with ⟨v, hView, hGives⟩
  have hName : v.required? "name" Json.text? = some f.name :=
    hGives.required? (j := .text f.name) (by simp [fieldGiven])
  have hType : v.required? "type" read = some f.type := by
    rw [hGives.required? (j := f.type.toJson)
      (by simp [fieldGiven]), hRead]
  have hWire : v.required? "wireName" Json.text? =
      some f.wireName :=
    hGives.required? (j := .text f.wireName)
      (by simp [fieldGiven])
  have hOptional : v.orElse? "optional" false Json.bool? =
      some f.optional :=
    hGives.orElse? (j := .bool f.optional) (by simp [fieldGiven])
  have hEncoded : v.orElse? "stringEncoded" false Json.bool? =
      some f.stringEncoded :=
    hGives.orElse? (j := .bool f.stringEncoded)
      (by simp [fieldGiven])
  have hSkip : v.orElse? "skip" false Json.bool? = some f.skip :=
    hGives.orElse? (j := .bool f.skip) (by simp [fieldGiven])
  have hRules : v.orElse? "rawValidationTag" "" Json.text? =
      some f.rules := by
    apply hGives.orElse?_if (b := !f.rules.isEmpty)
      (j := .text f.rules) (by simp [fieldGiven])
    · intro hNone
      simpa using hNone
    · rfl
  have hDoc : v.orElse? "doc" {} Doc.ofJson? = some f.doc :=
    hGives.doc (by simp [fieldGiven])
  unfold fieldOf? fieldJson
  rw [hView]
  simp only [Option.bind_eq_bind, Option.bind_some, hName, hType,
    hWire, hOptional, hEncoded, hSkip, hRules, hDoc]

theorem hasBounds
    {ps : List (TypeParam WireType)}
    (h : ∀ u ∈ bounds ps, read u.toJson = some u) :
    ∀ p ∈ ps, ∀ b ∈ p.bound, read b.toJson = some b :=
  fun p hp b hb => h b (mem_bounds.mpr ⟨p, hp, hb⟩)

theorem recordOf?_content
    {d : RecordDecl WireType}
    (hRead : ∀ u ∈ (record d).children, read u.toJson = some u)
    (hOwn : ∀ p ∈ d.source, p.Fits) :
    recordOf? read (.object (given (record d).content)) =
      some d := by
  have hParts := List.forall_mem_append.mp hRead
  rcases Json.view?_given (record d).content
    ["id", "typeParams", "fields", "extends", "doc",
      "source"] rfl (by decide)
    with ⟨v, hView, hGives⟩
  have hId : v.required? "id" TypeName.ofJson? = some d.id := by
    rw [hGives.required? (j := d.id.toJson) (by simp [content])]
    exact d.id.ofJson?_members
  have hParams :
      v.orElse? "typeParams" [] (Json.list? (paramOf? read)) =
        some d.params :=
    hGives.list (w := paramJson) (by simp [content])
      fun p hp => paramOf?_paramJson (hasBounds hParts.1 p hp)
  have hFields :
      v.required? "fields" (Json.list? (fieldOf? read)) =
        some d.fields := by
    rw [hGives.required? (j := .array (d.fields.map fieldJson))
      (by simp [content])]
    apply Json.list?_map
    intro f hf
    exact fieldOf?_fieldJson
      (hParts.2 f.type (List.mem_map_of_mem hf))
  have hParents :
      v.orElse? "extends" [] (Json.list? TypeName.ofJson?) =
        some d.parents :=
    hGives.list (w := TypeName.toJson) (by simp [content])
      fun id _ => id.ofJson?_members
  have hDoc : v.orElse? "doc" {} Doc.ofJson? = some d.doc :=
    hGives.doc (by simp [content])
  have hSource : v.optional? "source" SourcePlace.ofJson? =
      some d.source :=
    hGives.place (by simp [content]) hOwn
  unfold recordOf?
  rw [hView]
  simp only [Option.bind_eq_bind, Option.bind_some, hId, hParams,
    hFields, hParents, hDoc, hSource]

theorem synonymOf?_content
    {d : SynonymDecl WireType}
    (hRead : ∀ u ∈ (synonym d).children, read u.toJson = some u)
    (hOwn : ∀ p ∈ d.source, p.Fits) :
    synonymOf? read (.object (given (synonym d).content)) =
      some d := by
  have hParts := List.forall_mem_append.mp hRead
  rcases Json.view?_given (synonym d).content
    ["id", "typeParams", "underlying", "doc", "source"]
    rfl (by decide)
    with ⟨v, hView, hGives⟩
  have hId : v.required? "id" TypeName.ofJson? = some d.id := by
    rw [hGives.required? (j := d.id.toJson) (by simp [content])]
    exact d.id.ofJson?_members
  have hParams :
      v.orElse? "typeParams" [] (Json.list? (paramOf? read)) =
        some d.params :=
    hGives.list (w := paramJson) (by simp [content])
      fun p hp => paramOf?_paramJson (hasBounds hParts.1 p hp)
  have hTarget : v.required? "underlying" read =
      some d.target := by
    rw [hGives.required? (j := d.target.toJson)
      (by simp [content])]
    exact hParts.2 d.target List.mem_cons_self
  have hDoc : v.orElse? "doc" {} Doc.ofJson? = some d.doc :=
    hGives.doc (by simp [content])
  have hSource : v.optional? "source" SourcePlace.ofJson? =
      some d.source :=
    hGives.place (by simp [content]) hOwn
  unfold synonymOf?
  rw [hView]
  simp only [Option.bind_eq_bind, Option.bind_some, hId, hParams,
    hTarget, hDoc, hSource]

theorem enumOf?_content
    {d : EnumDecl}
    (hOwn : (enum d).OwnFits) :
    enumOf? (.object (given (enum d).content)) = some d := by
  rcases Json.view?_given (enum d).content
    ["id", "members", "doc", "source"] rfl (by decide)
    with ⟨v, hView, hGives⟩
  have hId : v.required? "id" TypeName.ofJson? = some d.id := by
    rw [hGives.required? (j := d.id.toJson) (by simp [content])]
    exact d.id.ofJson?_members
  have hMembers :
      v.required? "members" (Json.list? EnumMember.ofJson?) =
        some d.members := by
    rw [hGives.required?
      (j := .array (d.members.map EnumMember.toJson))
      (by simp [content])]
    apply Json.list?_map
    intro m hm
    exact EnumMember.ofJson?_toJson (hOwn.1 m hm)
  have hDoc : v.orElse? "doc" {} Doc.ofJson? = some d.doc :=
    hGives.doc (by simp [content])
  have hSource : v.optional? "source" SourcePlace.ofJson? =
      some d.source :=
    hGives.place (by simp [content]) hOwn.2
  unfold enumOf?
  rw [hView]
  simp only [Option.bind_eq_bind, Option.bind_some, hId, hMembers,
    hDoc, hSource]

theorem baseKindOfJson?_name (kind : BaseKind) :
    BaseKind.ofJson? (.text kind.name) = some kind :=
  BaseKind.ofName?_name kind

/- A form is read back if the types inside are. -/
theorem formOf?_content
    {t : WireType}
    (hRead : ∀ u ∈ t.children, read u.toJson = some u)
    (hOwn : t.OwnFits) :
    formOf? read t.kindName (.object (given t.content)) =
      some t := by
  cases t with
  | record d =>
      exact congrArg (Option.map record)
        (recordOf?_content hRead hOwn)
  | synonym d =>
      exact congrArg (Option.map synonym)
        (synonymOf?_content hRead hOwn)
  | enum d =>
      exact congrArg (Option.map enum) (enumOf?_content hOwn)
  | base kind bits =>
      rcases Json.view?_given (base kind bits).content
        ["primitiveKind", "bitSize"] rfl (by decide)
        with ⟨v, hView, hGives⟩
      have hKind : v.required? "primitiveKind" BaseKind.ofJson? =
          some kind := by
        rw [hGives.required? (j := .text kind.name)
          (by simp [content])]
        exact baseKindOfJson?_name kind
      have hBits :
          v.orElse? "bitSize" 0 (Json.natUpTo? Json.maxByte) =
            some bits := by
        apply hGives.orElse?_if (b := bits != 0)
          (j := .nat bits) (by simp [content])
        · simp
        · exact Json.natUpTo?_nat hOwn
      simp only [formOf?, kindName, hView, Option.bind_eq_bind,
        Option.bind_some, hKind, hBits]
  | array elem len =>
      rcases Json.view?_given (array elem len).content
        ["elem", "len"] rfl (by decide)
        with ⟨v, hView, hGives⟩
      have hElem : v.required? "elem" read = some elem := by
        rw [hGives.required? (j := elem.toJson)
          (by simp [content])]
        exact hRead elem List.mem_cons_self
      have hLen : v.orElse? "len" 0 (Json.natUpTo? maxWord) =
          some len := by
        rw [hGives.orElse? (j := .nat len) (by simp [content])]
        exact Json.natUpTo?_nat hOwn
      simp only [formOf?, kindName, hView, Option.bind_eq_bind,
        Option.bind_some, hElem, hLen]
  | map key value =>
      rcases Json.view?_given (map key value).content
        ["key", "value"] rfl (by decide)
        with ⟨v, hView, hGives⟩
      have hKey : v.required? "key" read = some key := by
        rw [hGives.required? (j := key.toJson)
          (by simp [content])]
        exact hRead key List.mem_cons_self
      have hValue : v.required? "value" read = some value := by
        rw [hGives.required? (j := value.toJson)
          (by simp [content])]
        exact hRead value (by simp [children])
      simp only [formOf?, kindName, hView, Option.bind_eq_bind,
        Option.bind_some, hKey, hValue]
  | reference id =>
      exact congrArg (Option.map reference) id.ofJson?_members
  | pointer elem =>
      rcases Json.view?_given (pointer elem).content
        ["elem"] rfl (by decide)
        with ⟨v, hView, hGives⟩
      have hElem : v.required? "elem" read = some elem := by
        rw [hGives.required? (j := elem.toJson)
          (by simp [content])]
        exact hRead elem List.mem_cons_self
      simp only [formOf?, kindName, hView, Option.bind_eq_bind,
        Option.bind_some, hElem, Option.map_some]
  | union members =>
      rcases Json.view?_given (union members).content
        ["members"] rfl (by decide)
        with ⟨v, hView, hGives⟩
      have hMembers : v.required? "members" (Json.list? read) =
          some members := by
        rw [hGives.required? (j := .array (members.map toJson))
          (by simp [content])]
        exact Json.list?_map hRead
      simp only [formOf?, kindName, hView, Option.bind_eq_bind,
        Option.bind_some, hMembers, Option.map_some]
  | param p =>
      have hBounds : ∀ q ∈ [p], ∀ b ∈ q.bound,
          read b.toJson = some b :=
        hasBounds hRead
      have hParam := paramOf?_paramJson
        (hBounds p List.mem_cons_self)
      exact congrArg (Option.map param) hParam

end Reading

------------------------------------------------------------
-- Depth
------------------------------------------------------------

theorem toJson_eq_given (t : WireType) :
    t.toJson =
      .object (given (("kind", some (.text t.kindName))
        :: t.content)) := by
  rw [toJson_eq]
  rfl

/- The bound of a parameter stands deeper than a declaration. -/
theorem depth_lt_of_bound
    {ps : List (TypeParam WireType)}
    {ms : List (String × Option Json)}
    {u : WireType}
    (hu : u ∈ bounds ps)
    (hMem :
      ("typeParams",
        givenIf (!ps.isEmpty) (.array (ps.map paramJson))) ∈ ms) :
    u.toJson.depth < (Json.object (given ms)).depth := by
  rcases mem_bounds.mp hu with ⟨p, hp, hBound⟩
  have hParam : u.toJson.depth < (paramJson p).depth := by
    have hGiven :
        ("constraint", some u.toJson) ∈ paramGiven p := by
      simp [paramGiven, hBound]
    exact Json.depth_lt_of_given hGiven
  have hItem := Json.depth_lt_of_item
    (List.mem_map_of_mem (f := paramJson) hp)
  have hSome : ps.isEmpty = false :=
    List.isEmpty_eq_false_iff.mpr (List.ne_nil_of_mem hp)
  rw [hSome] at hMem
  exact (hParam.trans hItem).trans (Json.depth_lt_of_given hMem)

/- A type inside another one stands deeper. -/
theorem depth_child
    {t u : WireType}
    (hu : u ∈ t.children) : u.toJson.depth < t.toJson.depth := by
  rw [t.toJson_eq_given]
  have hGiven : ∀ name {v}, (name, some v) ∈ t.content →
      v.depth <
        (Json.object (given (("kind", some (.text t.kindName))
          :: t.content))).depth :=
    fun _ _ h =>
      Json.depth_lt_of_given (List.mem_cons_of_mem _ h)
  cases t with
  | record d =>
      rcases List.mem_append.mp hu with hu | hu
      · exact depth_lt_of_bound hu (by simp [content])
      · rcases List.mem_map.mp hu with ⟨f, hf, rfl⟩
        have hField : f.type.toJson.depth < (fieldJson f).depth := by
          have hType :
              ("type", some f.type.toJson) ∈ fieldGiven f := by
            simp [fieldGiven]
          exact Json.depth_lt_of_given hType
        have hItem := Json.depth_lt_of_item
          (List.mem_map_of_mem (f := fieldJson) hf)
        exact (hField.trans hItem).trans
          (hGiven "fields" (by simp [content]))
  | synonym d =>
      rcases List.mem_append.mp hu with hu | hu
      · exact depth_lt_of_bound hu (by simp [content])
      · rw [List.mem_singleton.mp hu]
        exact hGiven "underlying" (by simp [content])
  | array elem len =>
      rw [List.mem_singleton.mp hu]
      exact hGiven "elem" (by simp [content])
  | map key value =>
      rcases List.mem_cons.mp hu with rfl | hu
      · exact hGiven "key" (by simp [content])
      · rw [List.mem_singleton.mp hu]
        exact hGiven "value" (by simp [content])
  | pointer elem =>
      rw [List.mem_singleton.mp hu]
      exact hGiven "elem" (by simp [content])
  | union members =>
      have hItem := Json.depth_lt_of_item
        (List.mem_map_of_mem (f := toJson) hu)
      exact hItem.trans
        (hGiven "members" (by simp [content, children]))
  | param p =>
      rcases mem_bounds.mp hu with ⟨q, hq, hBound⟩
      rw [List.mem_singleton.mp hq] at hBound
      apply hGiven "constraint"
      simp [content, paramGiven, hBound]
  | enum d => cases hu
  | base kind bits => cases hu
  | reference id => cases hu

------------------------------------------------------------
-- Whole Types
------------------------------------------------------------

/- The form of a type is not among what it gives. -/
theorem kind_notMem_content (t : WireType) :
    "kind" ∉ (given t.content).map Prod.fst := by
  intro hMem
  have hName := Json.given_names_sublist.subset hMem
  cases t <;> simp [content, paramGiven, TypeName.given] at hName

theorem splitTag?_toJson (t : WireType) :
    t.toJson.splitTag? "kind" =
      some (.text t.kindName, .object (given t.content)) := by
  rw [toJson_eq]
  exact Json.splitTag?_cons t.kind_notMem_content

/- A type is read back where it stands deep enough. -/
theorem ofJsonWithin?_toJson
    {t : WireType}
    {bound : Nat}
    (hFits : t.Fits)
    (hDepth : t.toJson.depth ≤ bound) :
    ofJsonWithin? bound t.toJson = some t := by
  induction bound generalizing t with
  | zero =>
      rw [toJson_eq, Json.depth] at hDepth
      cases hDepth
  | succ bound ih =>
      have hRead : ∀ u ∈ t.children,
          ofJsonWithin? bound u.toJson = some u := by
        intro u hu
        have hLess := depth_child hu
        exact ih (hFits.child hu) (by omega)
      unfold ofJsonWithin? Json.innerTagged?
      rw [splitTag?_toJson]
      exact formOf?_content hRead hFits.own

theorem prints_paramJson
    {p : TypeParam WireType}
    (h : ∀ b ∈ p.bound, Json.Prints b.toJson) :
    Json.Prints (paramJson p) := by
  apply Json.prints_given
  simp only [paramGiven, List.forall_mem_cons]
  exact ⟨Json.prints_some (.text _), Json.prints_map h, nofun⟩

theorem prints_params
    {ps : List (TypeParam WireType)}
    (h : ∀ u ∈ bounds ps, Json.Prints u.toJson) :
    Json.Prints (.array (ps.map paramJson)) := by
  apply Json.prints_list
  intro p hp
  apply prints_paramJson
  intro b hb
  exact h b (mem_bounds.mpr ⟨p, hp, hb⟩)

theorem prints_fieldJson
    {f : Field WireType}
    (h : Json.Prints f.type.toJson) :
    Json.Prints (fieldJson f) := by
  apply Json.prints_given
  simp only [fieldGiven, List.forall_mem_cons]
  exact ⟨Json.prints_some (.text _), Json.prints_some h,
    Json.prints_some (.text _), Json.prints_some (.bool _),
    Json.prints_some (.bool _), Json.prints_some (.bool _),
    Json.prints_if (.text _), Json.prints_if f.doc.prints_toJson,
    nofun⟩

/- All that a type gives can be read back. -/
theorem prints_content
    {t : WireType}
    (hChild : ∀ u ∈ t.children, Json.Prints u.toJson)
    (hOwn : t.OwnFits) :
    ∀ m ∈ t.content, ∀ v ∈ m.2, Json.Prints v := by
  have hSource : ∀ {source : Option SourcePlace},
      (∀ p ∈ source, p.Fits) →
        ∀ v ∈ source.map SourcePlace.toJson, Json.Prints v :=
    fun h => Json.prints_map fun p hp =>
      SourcePlace.prints_toJson (h p hp)
  cases t with
  | record d =>
      have hParts := List.forall_mem_append.mp hChild
      have hFields : ∀ f ∈ d.fields, Json.Prints (fieldJson f) :=
        fun f hf => prints_fieldJson
          (hParts.2 f.type (List.mem_map_of_mem hf))
      simp only [content, List.forall_mem_cons]
      exact ⟨Json.prints_some d.id.prints_members,
        Json.prints_if (prints_params hParts.1),
        Json.prints_some (Json.prints_list hFields),
        Json.prints_if (Json.prints_list fun id _ =>
          id.prints_members),
        Json.prints_if d.doc.prints_toJson, hSource hOwn, nofun⟩
  | synonym d =>
      have hParts := List.forall_mem_append.mp hChild
      simp only [content, List.forall_mem_cons]
      exact ⟨Json.prints_some d.id.prints_members,
        Json.prints_if (prints_params hParts.1),
        Json.prints_some (hParts.2 d.target List.mem_cons_self),
        Json.prints_if d.doc.prints_toJson, hSource hOwn, nofun⟩
  | enum d =>
      simp only [content, List.forall_mem_cons]
      exact ⟨Json.prints_some d.id.prints_members,
        Json.prints_some (Json.prints_list fun m hm =>
          EnumMember.prints_toJson (hOwn.1 m hm)),
        Json.prints_if d.doc.prints_toJson, hSource hOwn.2, nofun⟩
  | base kind bits =>
      have hByte : Json.maxByte ≤ maxWord := by decide
      simp only [content, List.forall_mem_cons]
      exact ⟨Json.prints_some (.text _),
        Json.prints_if (Json.prints_nat (hOwn.trans hByte)), nofun⟩
  | array elem len =>
      simp only [content, List.forall_mem_cons]
      exact ⟨Json.prints_some (hChild elem List.mem_cons_self),
        Json.prints_some (Json.prints_nat hOwn), nofun⟩
  | map key value =>
      have hParts := List.forall_mem_cons.mp hChild
      simp only [content, List.forall_mem_cons]
      exact ⟨Json.prints_some hParts.1,
        Json.prints_some (hParts.2 value List.mem_cons_self),
        nofun⟩
  | reference id =>
      simp only [content, TypeName.given, List.forall_mem_cons]
      exact ⟨Json.prints_some (.text _),
        Json.prints_some (.text _), nofun⟩
  | pointer elem =>
      simp only [content, List.forall_mem_cons]
      exact ⟨Json.prints_some (hChild elem List.mem_cons_self),
        nofun⟩
  | union members =>
      simp only [content, List.forall_mem_cons]
      exact ⟨Json.prints_some (Json.prints_list hChild), nofun⟩
  | param p =>
      have hBound : ∀ b ∈ p.bound, Json.Prints b.toJson :=
        fun b hb => hChild b
          (mem_bounds.mpr ⟨p, List.mem_cons_self, hb⟩)
      simp only [content, paramGiven, List.forall_mem_cons]
      exact ⟨Json.prints_some (.text _), Json.prints_map hBound,
        nofun⟩

theorem prints_toJson
    {t : WireType}
    (hFits : t.Fits) : Json.Prints t.toJson := by
  induction t using inductionOnChildren with
  | h t ih =>
      have hChild : ∀ u ∈ t.children, Json.Prints u.toJson :=
        fun u hu => ih u hu (hFits.child hu)
      rw [toJson_eq_given]
      apply Json.prints_given
      rw [List.forall_mem_cons]
      exact ⟨Json.prints_some (.text _),
        prints_content hChild hFits.own⟩

/- A type is read back unless it nests too deeply. -/
theorem ofJson?_toJson
    {t : WireType}
    (hFits : t.Fits)
    (hDepth : t.toJson.depth ≤ Json.maxDepth) :
    ofJson? t.toJson = some t := by
  have hRead : ∀ u ∈ t.children,
      ofJsonWithin? Json.maxDepth u.toJson = some u :=
    fun u hu => ofJsonWithin?_toJson (hFits.child hu)
      ((depth_child hu).le.trans hDepth)
  unfold ofJson? Json.tagged?
  rw [if_pos (prints_toJson hFits).isSound, splitTag?_toJson]
  exact formOf?_content hRead hFits.own

end WireType

end WireSchema
