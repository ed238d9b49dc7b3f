import WireSchema.Proofs.Emit.Exports
import WireSchema.Proofs.Emit.Names
import WireSchema.Proofs.Emit.Sequence
import WireSchema.Proofs.Generation.Emission

/-
  When no name is exported twice.

  Types are told apart when they are named, but the constants
  of enumerations, the interfaces of services and the table of
  routes are named by themselves, and they may have the names
  of types or of each other.  A member of a native enumeration
  that is shortened may be named as one that is not.

  Key definitions include:
    * `ShortensTo`
    * `Schema.ConstantsApart`, `Schema.ExportsApart`
    * `Schema.exports_distinct_iff`
-/

namespace WireSchema

open EmitScope

------------------------------------------------------------
-- Members
------------------------------------------------------------

/-
  The name of a member is that of its enumeration and a rest
  that begins with an upper case letter.
-/
def ShortensTo (enumName member rest : String) : Prop :=
  member = enumName ++ rest
    ∧ ∃ c s, rest.toList = c :: s ∧ c.isUpper = true

section Members

variable {enumName member rest : String}

theorem memberName_of_shortensTo
    (h : ShortensTo enumName member rest) :
    memberName enumName member = rest := by
  rcases h with ⟨rfl, c, s, hRest, hUpper⟩
  have hAfter :
      Text.afterHead? enumName.toList (enumName ++ rest).toList =
        some (c :: s) := by
    rw [Text.afterHead?_eq_some_iff, String.toList_append, hRest]
  unfold memberName
  rw [hAfter]
  dsimp only
  rw [if_pos hUpper, ← hRest, String.ofList_toList]

theorem memberName_of_not_shortensTo
    (h : ∀ rest, ¬ShortensTo enumName member rest) :
    memberName enumName member = member := by
  unfold memberName
  split
  · next c s hAfter =>
      split
      · next hUpper =>
          rw [Text.afterHead?_eq_some_iff] at hAfter
          refine absurd ?_ (h (String.ofList (c :: s)))
          refine ⟨?_, c, s, String.toList_ofList, hUpper⟩
          rw [← String.toList_inj, hAfter, String.toList_append,
            String.toList_ofList]
      · rfl
  · rfl

/- Two members that are shortened stay different. -/
theorem ShortensTo.inj
    {other : String}
    (h : ShortensTo enumName member rest)
    (hOther : ShortensTo enumName other rest) : member = other :=
  h.1.trans hOther.1.symm

/- A member is shortened, or printed as it is. -/
theorem memberName_cases (enumName member : String) :
    ShortensTo enumName member (memberName enumName member)
      ∨ (∀ rest, ¬ShortensTo enumName member rest)
        ∧ memberName enumName member = member := by
  by_cases hShort : ∃ rest, ShortensTo enumName member rest
  · rcases hShort with ⟨rest, hShort⟩
    left
    rwa [memberName_of_shortensTo hShort]
  · rw [not_exists] at hShort
    exact .inr ⟨hShort, memberName_of_not_shortensTo hShort⟩

end Members

namespace EnumDecl

def memberNames (d : EnumDecl) : List String :=
  d.members.map EnumMember.name

/- The names that members have inside a native enumeration. -/
def nativeNames (d : EnumDecl) (enumName : String) : List String :=
  d.memberNames.map (memberName enumName)

/- No member is shortened to another that is printed as it is. -/
def MembersApart (d : EnumDecl) (enumName : String) : Prop :=
  ∀ m ∈ d.memberNames, ∀ m' ∈ d.memberNames,
    ShortensTo enumName m m' → ∃ rest, ShortensTo enumName m' rest

theorem nodup_nativeNames_iff
    {d : EnumDecl}
    (hDistinct : d.memberNames.Nodup)
    (enumName : String) :
    (d.nativeNames enumName).Nodup ↔ d.MembersApart enumName := by
  unfold nativeNames
  rw [List.nodup_map_iff_inj_on hDistinct]
  constructor
  · intro hInj m hm m' hm' hShort
    by_contra hNot
    rw [not_exists] at hNot
    have hSame : memberName enumName m = memberName enumName m' := by
      rw [memberName_of_shortensTo hShort,
        memberName_of_not_shortensTo hNot]
    have hSame := hInj m hm m' hm' hSame
    rw [hSame] at hShort
    exact hNot m' hShort
  · intro hApart m hm m' hm' hSame
    rcases memberName_cases enumName m with hShort | ⟨hNot, hAsIs⟩
    · rcases memberName_cases enumName m' with
        hOther | ⟨hNot', hAsIs'⟩
      · rw [hSame] at hShort
        exact hShort.inj hOther
      · rw [hSame, hAsIs'] at hShort
        rcases hApart m hm m' hm' hShort with ⟨rest, hRest⟩
        exact absurd hRest (hNot' rest)
    · rcases memberName_cases enumName m' with
        hOther | ⟨-, hAsIs'⟩
      · rw [← hSame, hAsIs] at hOther
        rcases hApart m' hm' m hm hOther with ⟨rest, hRest⟩
        exact absurd hRest (hNot rest)
      · rwa [hAsIs, hAsIs'] at hSame

end EnumDecl
------------------------------------------------------------
-- Names of Declarations
------------------------------------------------------------

namespace WireType

def enum? : WireType → Option EnumDecl
  | .enum d => some d
  | _ => none

/- The constants beside a type. -/
def constants (style : EnumStyle) (t : WireType) : List String :=
  if style = .flatConstants then
    t.enum?.elim [] EnumDecl.memberNames
  else []

/- The name that a type is emitted under, if it is declared. -/
def emittedName? (names : EmittedNames) (t : WireType) :
    Option String :=
  t.id?.bind names.find?

/- What the declaration of a type exports. -/
def exportedNames
    (style : EnumStyle)
    (names : EmittedNames)
    (t : WireType) : List String :=
  t.constants style ++ (t.emittedName? names).toList

/- The names inside a native enumeration. -/
def nativeNames?
    (style : EnumStyle)
    (names : EmittedNames)
    (t : WireType) : Option (List String) :=
  if style = .nativeEnum then
    t.enum?.bind fun d => (names.find? d.id).map d.nativeNames
  else none

variable {style : EnumStyle}
variable {names : EmittedNames}
variable {t : WireType}

theorem enum?_of_id? (t : WireType) (h : t.id? = none) :
    t.enum? = none := by
  cases t with
  | enum d => cases h
  | _ => rfl

theorem constants_of_enum?_eq_none (h : t.enum? = none) :
    t.constants style = [] := by
  unfold constants
  rw [h]
  exact ite_self []

/- What has no name is no declaration and exports nothing. -/
theorem exportedNames_of_id?_eq_none (hId : t.id? = none) :
    t.exportedNames style names = [] := by
  unfold exportedNames emittedName?
  rw [constants_of_enum?_eq_none (t.enum?_of_id? hId), hId]
  rfl

theorem nativeNames?_of_enum?_eq_none (h : t.enum? = none) :
    t.nativeNames? style names = none := by
  unfold nativeNames?
  rw [h]
  exact ite_self none

end WireType

/- The keys of the members of a native enumeration. -/
def ExportStatement.nativeKeys? (e : ExportStatement) :
    Option (List String) :=
  if e.form = .enumeration then some e.keys else none

namespace EmitScope

variable {x : EmitScope}
variable {es : List ExportStatement}

/-
  Statements export the names of declarations and of their
  constants, and list the names inside native enumerations.
-/
structure Exports
    (x : EmitScope)
    (ts : List WireType)
    (es : List ExportStatement) : Prop where
  names :
    es.map ExportStatement.name =
      ts.flatMap
        (WireType.exportedNames x.options.enumStyle x.names)
  native :
    es.filterMap ExportStatement.nativeKeys? =
      ts.filterMap
        (WireType.nativeNames? x.options.enumStyle x.names)

theorem find?_of_name
    {id : TypeName}
    {name : String}
    (h : x.name id = .ok name) : x.names.find? id = some name := by
  unfold EmitScope.name at h
  split at h
  · next hFound =>
      cases h
      exact hFound
  · cases h

/- A declaration of one statement that is no enumeration. -/
theorem exports_singleton
    {t : WireType}
    {id : TypeName}
    {e : ExportStatement}
    (hId : t.id? = some id)
    (hPlain : t.enum? = none)
    (hName : x.name id = .ok e.name)
    (hForm : e.form ≠ .enumeration) : x.Exports [t] [e] := by
  have hFound : t.emittedName? x.names = some e.name := by
    unfold WireType.emittedName?
    rw [hId]
    exact find?_of_name hName
  have hConstants : t.constants x.options.enumStyle = [] :=
    WireType.constants_of_enum?_eq_none hPlain
  have hNative :
      t.nativeNames? x.options.enumStyle x.names = none :=
    WireType.nativeNames?_of_enum?_eq_none hPlain
  constructor
  · simp [WireType.exportedNames, hConstants, hFound]
  · simp [hNative, ExportStatement.nativeKeys?, hForm]

/- What stands in front of statements changes no name. -/
theorem Exports.behind
    {ts : List WireType}
    (h : x.Exports ts es)
    (front : String) :
    x.Exports ts (ExportStatement.behind front es) where
  names :=
    (ExportStatement.map_behind (fun _ _ => rfl) front es).trans
      h.names
  native :=
    (ExportStatement.filterMap_behind (fun _ _ => rfl) front
      es).trans h.native

theorem exports_enumExports
    {d : EnumDecl}
    {name : String}
    (hName : x.name d.id = .ok name) :
    x.Exports [.enum d] (x.enumExports name d.members) := by
  have hFound : (WireType.enum d).emittedName? x.names = some name :=
    find?_of_name hName
  have hBeside : (WireType.enum d).constants .flatConstants =
      d.memberNames :=
    rfl
  have hInside : (WireType.enum d).nativeNames? .nativeEnum x.names =
      some (d.nativeNames name) := by
    change (x.names.find? d.id).map d.nativeNames = _
    rw [find?_of_name hName]
    rfl
  have hKeys : (d.members.map (x.nativeLine name)).map
      MemberLine.key = d.nativeNames name := by
    unfold EnumDecl.nativeNames EnumDecl.memberNames
    rw [List.map_map, List.map_map]
    rfl
  have hConstants : (d.members.map x.constantExport).map
      ExportStatement.name = d.memberNames :=
    List.map_map
  have hNoKeys : (d.members.map x.constantExport).filterMap
      ExportStatement.nativeKeys? = [] := by
    rw [List.filterMap_map]
    exact List.filterMap_eq_nil_iff.mpr fun _ _ => rfl
  unfold enumExports
  cases hStyle : x.options.enumStyle with
  | taggedUnion =>
      constructor
      · simp [hStyle, hFound, WireType.exportedNames,
          WireType.constants, valuesExport]
      · simp [hStyle, WireType.nativeNames?, valuesExport,
          ExportStatement.nativeKeys?]
  | nativeEnum =>
      constructor
      · simp [hStyle, hFound, WireType.exportedNames,
          WireType.constants]
      · simp [hStyle, hInside, ExportStatement.nativeKeys?,
          ExportStatement.keys, hKeys]
  | flatConstants =>
      constructor
      · dsimp only
        rw [List.map_append, hConstants]
        simp [hStyle, hFound, hBeside, WireType.exportedNames,
          valuesExport]
      · dsimp only
        rw [List.filterMap_append, hNoKeys]
        simp [hStyle, WireType.nativeNames?, valuesExport,
          ExportStatement.nativeKeys?]

theorem exports_of_exportsOf
    {t : WireType}
    (h : x.exportsOf t = .ok es) : x.Exports [t] es := by
  cases t with
  | record d =>
      rcases eq_ok_of_bind h with ⟨e, hOne, h⟩
      cases h
      rcases eq_ok_of_bind hOne with ⟨name, hName, hOne⟩
      rcases eq_ok_of_bind hOne with ⟨params, -, hOne⟩
      rcases eq_ok_of_bind hOne with ⟨parents, -, hOne⟩
      rcases eq_ok_of_bind hOne with ⟨members, -, hOne⟩
      cases hOne
      exact exports_singleton rfl rfl hName nofun
  | synonym d =>
      rcases eq_ok_of_bind h with ⟨e, hOne, h⟩
      cases h
      rcases eq_ok_of_bind hOne with ⟨name, hName, hOne⟩
      rcases eq_ok_of_bind hOne with ⟨params, -, hOne⟩
      rcases eq_ok_of_bind hOne with ⟨target, -, hOne⟩
      cases hOne
      exact exports_singleton rfl rfl hName nofun
  | enum d =>
      rcases eq_ok_of_bind h with ⟨name, hName, h⟩
      cases h
      exact (exports_enumExports hName).behind _
  | _ => cases h

theorem Exports.append
    {ts us : List WireType}
    {fs : List ExportStatement}
    (h : x.Exports ts es)
    (hMore : x.Exports us fs) : x.Exports (ts ++ us) (es ++ fs) where
  names := by
    rw [List.map_append, List.flatMap_append, h.names, hMore.names]
  native := by
    rw [List.filterMap_append, List.filterMap_append, h.native,
      hMore.native]

theorem exports_nil
    {t : WireType}
    (hId : t.id? = none) : x.Exports [t] [] where
  names := by
    rw [List.flatMap_singleton,
      WireType.exportedNames_of_id?_eq_none hId]
    rfl
  native := by
    rw [List.filterMap_cons_none
      (WireType.nativeNames?_of_enum?_eq_none (t.enum?_of_id? hId))]
    rfl

theorem exports_of_typeExports
    {ts : List WireType}
    (h : x.typeExports ts = .ok es) : x.Exports ts es := by
  induction ts generalizing x es with
  | nil =>
      cases h
      exact ⟨rfl, rfl⟩
  | cons t rest ih =>
      unfold typeExports at h
      split at h
      · next hNone =>
          exact (exports_nil hNone).append (ih h)
      · next id hId =>
          split at h
          · cases h
          · next own hOwn =>
              rcases eq_ok_of_bind h with ⟨more, hMore, h⟩
              cases h
              have hFirst := (exports_of_exportsOf hOwn).behind "\n"
              have hRest := ih hMore
              exact hFirst.append ⟨hRest.names, hRest.native⟩

end EmitScope

------------------------------------------------------------
-- Names of a File
------------------------------------------------------------

namespace Schema

variable {s : Schema}
variable {o : EmitOptions}

def enums (s : Schema) : List EnumDecl :=
  s.types.filterMap WireType.enum?

/- The constants beside the types. -/
def constants (s : Schema) (style : EnumStyle) : List String :=
  s.types.flatMap (WireType.constants style)

/- The names that the types are emitted under. -/
def emittedNames (s : Schema) (stripped : List String) : List String :=
  s.types.filterMap
    (WireType.emittedName? (.ofSchema s stripped))

def interfaceNames (s : Schema) : List String :=
  s.services.map interfaceName

/- The name of the table of routes, if there are any. -/
def tableNames (s : Schema) : List String :=
  if (s.services.flatMap Service.endpoints).isEmpty then []
  else [routesName]

theorem names_of_serviceExports
    {x : EmitScope}
    {es : List ExportStatement}
    (h : x.serviceExports = .ok es) :
    es.map ExportStatement.name =
        x.schema.interfaceNames ++ x.schema.tableNames
      ∧ es.filterMap ExportStatement.nativeKeys? = [] := by
  have hOutlines := outlines_of_serviceExports h
  have hNames : es.map ExportStatement.name =
      x.serviceOutlines.map ExportOutline.name := by
    rw [← hOutlines, List.map_map]
    rfl
  have hForms : ∀ u ∈ x.serviceOutlines, u.form ≠ .enumeration := by
    intro u hu
    rcases List.mem_append.mp hu with hu | hu
    · rcases List.mem_map.mp hu with ⟨v, -, rfl⟩
      exact nofun
    · split at hu
      · cases hu
      · rw [List.mem_singleton.mp hu]
        exact nofun
  constructor
  · rw [hNames]
    unfold serviceOutlines
    rw [List.map_append, List.map_map]
    change _ = _ ++ (if x.endpoints.isEmpty then _ else _)
    split
    · rfl
    · rfl
  · rw [List.filterMap_eq_nil_iff]
    intro e he
    have hForm : e.form ≠ .enumeration := hForms e.outline
      (hOutlines ▸ List.mem_map_of_mem he)
    unfold ExportStatement.nativeKeys?
    rw [if_neg hForm]

/- What is dropped if it leads to nothing may stay. -/
theorem flatMap_filter_of_eq_nil
    {α β : Type}
    {p : α → Bool}
    {f : α → List β}
    (h : ∀ a, p a = false → f a = [])
    (xs : List α) : (xs.filter p).flatMap f = xs.flatMap f := by
  induction xs with
  | nil => rfl
  | cons a rest ih =>
      cases hKeep : p a with
      | true =>
          rw [List.filter_cons_of_pos hKeep, List.flatMap_cons,
            List.flatMap_cons, ih]
      | false =>
          rw [List.filter_cons_of_neg (by simp [hKeep]), ih,
            List.flatMap_cons, h a hKeep, List.nil_append]

/- The order of emission is another order of the types. -/
theorem flatMap_emitOrder_perm
    {β : Type}
    {f : WireType → List β}
    (hDistinct : s.names.Nodup)
    (names : EmittedNames)
    (h : ∀ t : WireType, t.id? = none → f t = []) :
    ((s.emitOrder names).flatMap f).Perm (s.types.flatMap f) := by
  have hDropped : ∀ t : WireType, t.id?.isSome = false → f t = [] :=
    fun t ht => h t (by simpa using ht)
  rw [← flatMap_filter_of_eq_nil hDropped s.types]
  exact (emitOrder_perm hDistinct names).flatMap_right f

/- All names that are exported, by what they are names of. -/
theorem names_of_exports
    {es : List ExportStatement}
    (hDistinct : s.names.Nodup)
    (h : s.exports o = .ok es) :
    (es.map ExportStatement.name).Perm
        (s.constants o.enumStyle
          ++ (s.emittedNames o.strippedPaths
            ++ (s.interfaceNames ++ s.tableNames)))
      ∧ (es.filterMap ExportStatement.nativeKeys?).Perm
        (s.types.filterMap
          (WireType.nativeNames? o.enumStyle
            (.ofSchema s o.strippedPaths))) := by
  rcases eq_ok_of_bind h with ⟨types, hTypes, h⟩
  rcases eq_ok_of_bind h with ⟨services, hServices, h⟩
  cases h
  have hTypes := exports_of_typeExports (eq_ok_of_mapError hTypes)
  have hServices :=
    names_of_serviceExports (eq_ok_of_mapError hServices)
  rw [EmitScope.markAll_eq] at hServices
  change _ = s.interfaceNames ++ s.tableNames ∧ _ at hServices
  have hMiddle := hTypes.names
  have hNative := hTypes.native
  change _ = List.flatMap (WireType.exportedNames o.enumStyle
    (.ofSchema s o.strippedPaths)) _ at hMiddle
  change _ = List.filterMap (WireType.nativeNames? o.enumStyle
    (.ofSchema s o.strippedPaths)) _ at hNative
  constructor
  · have hParts : (s.constants o.enumStyle
        ++ s.emittedNames o.strippedPaths).Perm
        (s.types.flatMap (WireType.exportedNames o.enumStyle
          (.ofSchema s o.strippedPaths))) := by
      unfold constants emittedNames
      rw [List.filterMap_eq_flatMap_toList]
      exact List.flatMap_append_perm _ _ _
    rw [List.map_append, ExportStatement.map_behind fun _ _ => rfl,
      hServices.1, hMiddle, ← List.append_assoc (s.constants _)]
    refine List.Perm.append_right _ (.trans ?_ hParts.symm)
    exact flatMap_emitOrder_perm hDistinct _
      fun t hId => WireType.exportedNames_of_id?_eq_none hId
  · rw [List.filterMap_append,
      ExportStatement.filterMap_behind fun _ _ => rfl,
      hServices.2, List.append_nil, hNative,
      List.filterMap_eq_flatMap_toList,
      List.filterMap_eq_flatMap_toList]
    apply flatMap_emitOrder_perm hDistinct
    intro t hId
    rw [WireType.nativeNames?_of_enum?_eq_none
      (t.enum?_of_id? hId)]
    rfl

------------------------------------------------------------
-- Distinct Names
------------------------------------------------------------

/-
  The constants of enumerations are none of each other and of
  no other name.
-/
structure ConstantsApart (s : Schema) (stripped : List String) :
    Prop where
  enums :
    ∀ d ∈ s.enums, ∀ d' ∈ s.enums, d ≠ d' →
      ∀ m ∈ d.memberNames, m ∉ d'.memberNames
  types :
    ∀ d ∈ s.enums, ∀ m ∈ d.memberNames,
      m ∉ s.emittedNames stripped
  services :
    ∀ d ∈ s.enums, ∀ v ∈ s.services,
      interfaceName v ∉ d.memberNames
  table :
    (∃ v ∈ s.services, v.endpoints ≠ []) →
      ∀ d ∈ s.enums, routesName ∉ d.memberNames

/-
  Services have different names.  Types are not named as the
  interfaces of services and, if there are endpoints, not as
  the table of routes.  Constants beside enumerations are kept
  apart from all names, and members inside of them are not
  shortened to each other.
-/
structure ExportsApart (s : Schema) (o : EmitOptions) : Prop where
  services : (s.services.map Service.name).Nodup
  interfaces :
    ∀ v ∈ s.services,
      interfaceName v ∉ s.emittedNames o.strippedPaths
  table :
    (∃ v ∈ s.services, v.endpoints ≠ []) →
      routesName ∉ s.emittedNames o.strippedPaths
  constants :
    o.enumStyle = .flatConstants → s.ConstantsApart o.strippedPaths
  members :
    o.enumStyle = .nativeEnum →
      ∀ d ∈ s.enums, ∀ name,
        (EmittedNames.ofSchema s o.strippedPaths).find? d.id =
            some name →
          d.MembersApart name

/- The names of types never coincide. -/
theorem nodup_emittedNames
    (hDistinct : s.names.Nodup)
    (stripped : List String) : (s.emittedNames stripped).Nodup := by
  have hNames : s.emittedNames stripped =
      s.names.filterMap (EmittedNames.ofSchema s stripped).find? :=
    List.filterMap_filterMap.symm
  rw [hNames]
  apply hDistinct.filterMap
  intro id other name hName hOther
  exact EmittedNames.find?_inj hName hOther

theorem mem_tableNames_iff {name : String} :
    name ∈ s.tableNames ↔
      name = routesName ∧ ∃ v ∈ s.services, v.endpoints ≠ [] := by
  unfold tableNames
  split
  · next hNone =>
    rw [List.isEmpty_iff, List.flatMap_eq_nil_iff] at hNone
    constructor
    · nofun
    · rintro ⟨-, v, hv, hSome⟩
      exact absurd (hNone v hv) hSome
  · next hSome =>
    rw [List.isEmpty_iff, List.flatMap_eq_nil_iff] at hSome
    push Not at hSome
    rw [List.mem_singleton, and_iff_left hSome]

/- No interface of a service is named as the table. -/
theorem interfaceName_ne_routesName (v : Service) :
    interfaceName v ≠ routesName := by
  intro hSame
  have hLast := congrArg (fun t => t.toList.getLast?) hSame
  simp [interfaceName, routesName] at hLast

theorem nodup_serviceNames_iff :
    (s.interfaceNames ++ s.tableNames).Nodup ↔
      (s.services.map Service.name).Nodup := by
  have hInterfaces : s.interfaceNames =
      (s.services.map Service.name).map (· ++ "Service") := by
    rw [List.map_map]
    rfl
  have hInjective : Function.Injective (· ++ "Service") :=
    fun a b h => (String.append_left_inj "Service").mp h
  have hTable : s.tableNames.Nodup := by
    unfold tableNames
    split
    · exact List.nodup_nil
    · exact List.nodup_singleton _
  have hApart : ∀ a ∈ s.interfaceNames, ∀ b ∈ s.tableNames,
      a ≠ b := by
    intro a ha b hb
    rcases List.mem_map.mp ha with ⟨v, -, rfl⟩
    rw [(mem_tableNames_iff.mp hb).1]
    exact interfaceName_ne_routesName v
  rw [List.nodup_append, and_iff_left ⟨hTable, hApart⟩, hInterfaces,
    List.nodup_map_iff hInjective]

theorem nodup_enums (hDistinct : s.names.Nodup) :
    s.enums.Nodup := by
  unfold names List.Nodup at hDistinct
  unfold enums List.Nodup
  rw [List.pairwise_filterMap] at hDistinct ⊢
  apply hDistinct.imp
  rintro t u hApart d hd _ hd' rfl
  have hId : ∀ {v : WireType}, v.enum? = some d →
      v.id? = some d.id := by
    intro v hEnum
    cases v with
    | enum d' =>
        cases hEnum
        rfl
    | _ => cases hEnum
  exact hApart d.id (hId hd) d.id (hId hd') rfl

theorem constants_eq (s : Schema) :
    s.constants .flatConstants =
      s.enums.flatMap EnumDecl.memberNames := by
  unfold constants enums
  rw [List.filterMap_eq_flatMap_toList, List.flatMap_assoc]
  congr 1
  funext t
  unfold WireType.constants
  rw [if_pos rfl]
  cases t.enum? with
  | none => rfl
  | some d => exact (List.append_nil _).symm

theorem nodup_constants_iff
    (hDistinct : s.names.Nodup)
    (hMembers : ∀ d ∈ s.enums, d.memberNames.Nodup) :
    (s.constants .flatConstants).Nodup ↔
      ∀ d ∈ s.enums, ∀ d' ∈ s.enums, d ≠ d' →
        ∀ m ∈ d.memberNames, m ∉ d'.memberNames := by
  rw [constants_eq, List.nodup_flatMap, and_iff_right hMembers]
  constructor
  · intro hApart d hd d' hd' hNe
    have hSymm : Std.Symm
        (Function.onFun List.Disjoint EnumDecl.memberNames) :=
      ⟨fun _ _ h _ hm hm' => h hm' hm⟩
    exact hApart.forall hd hd' hNe
  · intro hApart
    exact (nodup_enums hDistinct).pairwise_of_forall_ne
      fun d hd d' hd' hNe m hm => hApart d hd d' hd' hNe m hm

/- Constants are apart from each other and all other names. -/
theorem constantsApart_iff
    {stripped : List String}
    (hDistinct : s.names.Nodup)
    (hMembers : ∀ d ∈ s.enums, d.memberNames.Nodup) :
    s.ConstantsApart stripped ↔
      (s.constants .flatConstants).Nodup
        ∧ ∀ a ∈ s.constants .flatConstants,
          ∀ b ∈ s.emittedNames stripped
            ++ (s.interfaceNames ++ s.tableNames), a ≠ b := by
  rw [nodup_constants_iff hDistinct hMembers, constants_eq]
  constructor
  · intro h
    refine ⟨h.enums, ?_⟩
    rintro a ha b hb rfl
    rcases List.mem_flatMap.mp ha with ⟨d, hd, hm⟩
    rcases List.mem_append.mp hb with hb | hb
    · exact h.types d hd a hm hb
    · rcases List.mem_append.mp hb with hb | hb
      · rcases List.mem_map.mp hb with ⟨v, hv, rfl⟩
        exact h.services d hd v hv hm
      · rcases mem_tableNames_iff.mp hb with ⟨rfl, hSome⟩
        exact h.table hSome d hd hm
  · rintro ⟨hEnums, hApart⟩
    have hOther : ∀ d ∈ s.enums, ∀ m ∈ d.memberNames,
        m ∉ s.emittedNames stripped
          ++ (s.interfaceNames ++ s.tableNames) :=
      fun d hd m hm hMem =>
        hApart m (List.mem_flatMap.mpr ⟨d, hd, hm⟩) m hMem rfl
    refine ⟨hEnums, ?_, ?_, ?_⟩
    · intro d hd m hm hMem
      exact hOther d hd m hm (List.mem_append_left _ hMem)
    · intro d hd v hv hm
      exact hOther d hd _ hm (List.mem_append_right _
        (List.mem_append_left _ (List.mem_map_of_mem hv)))
    · intro hSome d hd hm
      exact hOther d hd _ hm (List.mem_append_right _
        (List.mem_append_right _
          (mem_tableNames_iff.mpr ⟨rfl, hSome⟩)))

/- Names of types and of services, apart from constants. -/
theorem nodup_namesBeside_iff
    {stripped : List String}
    (hDistinct : s.names.Nodup) :
    (s.emittedNames stripped
        ++ (s.interfaceNames ++ s.tableNames)).Nodup ↔
      (s.services.map Service.name).Nodup
        ∧ (∀ v ∈ s.services,
          interfaceName v ∉ s.emittedNames stripped)
        ∧ ((∃ v ∈ s.services, v.endpoints ≠ []) →
          routesName ∉ s.emittedNames stripped) := by
  rw [List.nodup_append, nodup_serviceNames_iff,
    and_iff_right (nodup_emittedNames hDistinct stripped)]
  refine and_congr Iff.rfl ?_
  constructor
  · intro hApart
    constructor
    · intro v hv hMem
      exact hApart _ hMem _
        (List.mem_append_left _ (List.mem_map_of_mem hv)) rfl
    · intro hSome hMem
      exact hApart _ hMem _ (List.mem_append_right _
        (mem_tableNames_iff.mpr ⟨rfl, hSome⟩)) rfl
  · rintro ⟨hInterfaces, hTable⟩ a ha b hb rfl
    rcases List.mem_append.mp hb with hb | hb
    · rcases List.mem_map.mp hb with ⟨v, hv, rfl⟩
      exact hInterfaces v hv ha
    · rcases mem_tableNames_iff.mp hb with ⟨rfl, hSome⟩
      exact hTable hSome ha

/- Of the styles only the flat one has constants. -/
theorem nodup_exported_iff
    {style : EnumStyle}
    {stripped : List String}
    (hDistinct : s.names.Nodup)
    (hMembers : ∀ d ∈ s.enums, d.memberNames.Nodup) :
    (s.constants style
        ++ (s.emittedNames stripped
          ++ (s.interfaceNames ++ s.tableNames))).Nodup ↔
      (style = .flatConstants → s.ConstantsApart stripped)
        ∧ (s.emittedNames stripped
          ++ (s.interfaceNames ++ s.tableNames)).Nodup := by
  by_cases hFlat : style = .flatConstants
  · rw [hFlat, forall_prop_of_true rfl,
      constantsApart_iff hDistinct hMembers, List.nodup_append]
    rw [and_right_comm, and_assoc]
  · have hNone : s.constants style = [] := by
      unfold constants WireType.constants
      simp only [if_neg hFlat]
      exact List.flatMap_eq_nil_iff.mpr fun _ _ => rfl
    rw [hNone, List.nil_append]
    exact (and_iff_right fun h => absurd h hFlat).symm

theorem nodup_nativeKeys_iff
    {style : EnumStyle}
    {stripped : List String}
    (hMembers : ∀ d ∈ s.enums, d.memberNames.Nodup) :
    (∀ ks ∈ s.types.filterMap
        (WireType.nativeNames? style (.ofSchema s stripped)),
        ks.Nodup) ↔
      (style = .nativeEnum →
        ∀ d ∈ s.enums, ∀ name,
          (EmittedNames.ofSchema s stripped).find? d.id =
              some name →
            d.MembersApart name) := by
  constructor
  · intro hAll hNative d hd name hName
    rcases List.mem_filterMap.mp hd with ⟨t, ht, hEnum⟩
    apply (EnumDecl.nodup_nativeNames_iff (hMembers d hd) name).mp
    apply hAll
    refine List.mem_filterMap.mpr ⟨t, ht, ?_⟩
    unfold WireType.nativeNames?
    rw [if_pos hNative, hEnum, Option.bind_some, hName]
    rfl
  · intro hApart ks hks
    rcases List.mem_filterMap.mp hks with ⟨t, ht, hSome⟩
    unfold WireType.nativeNames? at hSome
    split at hSome
    · next hNative =>
        rcases Option.bind_eq_some_iff.mp hSome with
          ⟨d, hEnum, hSome⟩
        rcases Option.map_eq_some_iff.mp hSome with
          ⟨name, hName, rfl⟩
        have hd : d ∈ s.enums :=
          List.mem_filterMap.mpr ⟨t, ht, hEnum⟩
        rw [EnumDecl.nodup_nativeNames_iff (hMembers d hd)]
        exact hApart hNative d hd name hName
    · cases hSome

/-
  The file of a valid schema exports no name twice, and lists
  no name twice in a native enumeration, exactly if the names
  that are not given by the naming of types are apart.
-/
theorem exports_distinct_iff
    {e : Emission}
    (hValid : s.validate = [])
    (hMembers : ∀ d ∈ s.enums, d.memberNames.Nodup)
    (hSingle : o.singleFile = true)
    (hFiles : s.baseFiles o = .ok e) :
    ∃ es, s.exports o = .ok es
      ∧ e.files = [exportFile o es]
      ∧ ((es.map ExportStatement.name).Nodup
          ∧ (∀ st ∈ es, st.form = .enumeration → st.keys.Nodup) ↔
        s.ExportsApart o) := by
  have hDistinct := (references_of_validate_eq_nil hValid).1
  rw [baseFiles_eq_exports hSingle] at hFiles
  rcases eq_ok_of_map hFiles with ⟨es, hExports, rfl⟩
  refine ⟨es, hExports, rfl, ?_⟩
  rcases names_of_exports hDistinct hExports with ⟨hNames, hNative⟩
  have hKeys :
      (∀ st ∈ es, st.form = .enumeration → st.keys.Nodup) ↔
        ∀ ks ∈ s.types.filterMap (WireType.nativeNames? o.enumStyle
          (.ofSchema s o.strippedPaths)), ks.Nodup := by
    simp only [← hNative.mem_iff, List.mem_filterMap,
      ExportStatement.nativeKeys?]
    constructor
    · rintro hAll ks ⟨st, hst, hSome⟩
      split at hSome
      · next hForm =>
          cases hSome
          exact hAll st hst hForm
      · cases hSome
    · intro hAll st hst hForm
      exact hAll _ ⟨st, hst, if_pos hForm⟩
  rw [hNames.nodup_iff, nodup_exported_iff hDistinct hMembers,
    nodup_namesBeside_iff hDistinct, hKeys,
    nodup_nativeKeys_iff hMembers]
  constructor
  · rintro ⟨⟨hConstants, hServices, hInterfaces, hTable⟩, hInside⟩
    exact ⟨hServices, hInterfaces, hTable, hConstants, hInside⟩
  · intro h
    exact ⟨⟨h.constants, h.services, h.interfaces, h.table⟩,
      h.members⟩

/- The statements of a file that is written. -/
theorem exists_exports
    (hValid : s.validate = [])
    (hFlat : s.IsFlat)
    (hSingle : o.singleFile = true) :
    ∃ es, s.exports o = .ok es
      ∧ s.baseFiles o = .ok { files := [exportFile o es] } := by
  rcases succeeds_baseFiles hValid hFlat o with ⟨e, hFiles⟩
  rw [baseFiles_eq_exports hSingle] at hFiles ⊢
  rcases eq_ok_of_map hFiles with ⟨es, hExports, rfl⟩
  rw [hExports]
  exact ⟨es, rfl, rfl⟩

------------------------------------------------------------
-- A Member That Is Shortened
------------------------------------------------------------

/-
  Two enumerations of different namespaces and a service.  One
  member begins with the name of its enumeration.
-/
def statusSchema (member : String) : Schema where
  types := [
    .enum {
      id := { name := "Status", space := "m/a" }
      members := [
        { name := "StatusOpen", value := .text "open" },
        { name := member, value := .text "other" }] },
    .enum {
      id := { name := "Door", space := "m/b" }
      members := [{ name := "Open", value := .text "o" }] }]
  services := [{
    name := "Status"
    endpoints := [{
      name := "Get"
      fullName := "Status.Get"
      verb := "GET"
      path := "/Status/Get"
      response := .reference { name := "Status", space := "m/a" } }] }]

theorem isFlat_statusSchema (member : String) :
    (statusSchema member).IsFlat := by
  constructor
  · simp [statusSchema, WireType.IsFlat, WireType.id?]
  · simp [statusSchema, Schema.bodies]

/- The names of its types do not depend on the member. -/
theorem ofSchema_statusSchema (member : String) :
    EmittedNames.ofSchema (statusSchema member) [] =
      { entries :=
          [({ name := "Door", space := "m/b" }, "Door"),
            ({ name := "Status", space := "m/a" }, "Status")] } := by
  change EmittedNames.ofSchema (statusSchema "") [] = _
  decide +kernel

theorem emittedNames_statusSchema (member : String) :
    (statusSchema member).emittedNames [] = ["Status", "Door"] := by
  unfold emittedNames
  rw [ofSchema_statusSchema]
  rfl

/- Only the first enumeration has the name of its member. -/
theorem name_of_mem_statusSchema
    {member name : String}
    {d : EnumDecl}
    (hd : d ∈ (statusSchema member).enums)
    (hName :
      (EmittedNames.ofSchema (statusSchema member) []).find? d.id =
        some name) :
    (name = "Status" ∧ d.memberNames = ["StatusOpen", member])
      ∨ (name = "Door" ∧ d.memberNames = ["Open"]) := by
  have hEnums : (statusSchema member).enums.map
      (fun d => ((EmittedNames.ofSchema (statusSchema member)
        []).find? d.id, d.memberNames)) =
      [(some "Status", ["StatusOpen", member]),
        (some "Door", ["Open"])] := by
    rw [ofSchema_statusSchema]
    rfl
  have hOwn := List.mem_map_of_mem (f := fun d =>
    ((EmittedNames.ofSchema (statusSchema member) []).find? d.id,
      d.memberNames)) hd
  rw [hEnums, hName] at hOwn
  simpa using hOwn

/- Constants and shortened members that are told apart. -/
theorem exports_distinct_closed :
    (statusSchema "Closed").validate = []
      ∧ (∀ d ∈ (statusSchema "Closed").enums, d.memberNames.Nodup)
      ∧ (∃ es,
        (statusSchema "Closed").baseFiles
            { enumStyle := .flatConstants } =
          .ok { files :=
            [exportFile { enumStyle := .flatConstants } es] }
          ∧ (es.map ExportStatement.name).Nodup)
      ∧ ∃ es,
        (statusSchema "Closed").baseFiles
            { enumStyle := .nativeEnum } =
          .ok { files := [exportFile { enumStyle := .nativeEnum } es] }
          ∧ ∀ st ∈ es, st.form = .enumeration → st.keys.Nodup := by
  let s := statusSchema "Closed"
  have hValid : s.validate = [] := by decide +kernel
  have hMembers : ∀ d ∈ s.enums, d.memberNames.Nodup := by decide
  have hNames := emittedNames_statusSchema "Closed"
  have hApart : ∀ style : EnumStyle,
      s.ExportsApart { enumStyle := style } := by
    intro style
    refine ⟨by decide, ?_, ?_, fun _ => ⟨by decide, ?_, by decide,
      by decide⟩, fun _ d hd name hName => ?_⟩
    · change ∀ v ∈ s.services, _ ∉ s.emittedNames []
      rw [hNames]
      decide
    · change _ → _ ∉ s.emittedNames []
      rw [hNames]
      decide
    · change ∀ d ∈ s.enums, ∀ m ∈ d.memberNames,
        m ∉ s.emittedNames []
      rw [hNames]
      decide
    · have hMember : ∀ m ∈ d.memberNames, ∀ m' ∈ d.memberNames,
          m ≠ name ++ m' := by
        rcases name_of_mem_statusSchema hd hName with
          ⟨rfl, hOwn⟩ | ⟨rfl, hOwn⟩
        · rw [hOwn]
          decide
        · rw [hOwn]
          decide
      exact fun m hm m' hm' hShort =>
        absurd hShort.1 (hMember m hm m' hm')
  have hWritten : ∀ style : EnumStyle,
      ∃ es, s.baseFiles { enumStyle := style } =
          .ok { files := [exportFile { enumStyle := style } es] }
        ∧ (es.map ExportStatement.name).Nodup
        ∧ ∀ st ∈ es, st.form = .enumeration → st.keys.Nodup := by
    intro style
    rcases exists_exports hValid (isFlat_statusSchema "Closed")
      (o := { enumStyle := style }) rfl with ⟨es, hExports, hFiles⟩
    rcases exports_distinct_iff hValid hMembers rfl hFiles with
      ⟨es', hSame, -, hDistinct⟩
    cases hExports.symm.trans hSame
    exact ⟨es, hFiles, hDistinct.mpr (hApart style)⟩
  rcases hWritten .flatConstants with ⟨es, hFiles, hFlat, -⟩
  rcases hWritten .nativeEnum with ⟨fs, hNative, -, hKeys⟩
  exact ⟨hValid, hMembers, ⟨es, hFiles, hFlat⟩, fs, hNative, hKeys⟩

/-
  A member that is shortened to another, which is a constant
  of another enumeration too.
-/
theorem open_exported_twice :
    (statusSchema "Open").validate = []
      ∧ (∀ d ∈ (statusSchema "Open").enums, d.memberNames.Nodup)
      ∧ (∃ es,
        (statusSchema "Open").exports
            { enumStyle := .flatConstants } = .ok es
          ∧ (statusSchema "Open").baseFiles
              { enumStyle := .flatConstants } =
            .ok { files :=
              [exportFile { enumStyle := .flatConstants } es] }
          ∧ ¬(es.map ExportStatement.name).Nodup)
      ∧ ∃ es,
        (statusSchema "Open").exports
            { enumStyle := .nativeEnum } = .ok es
          ∧ (statusSchema "Open").baseFiles
              { enumStyle := .nativeEnum } =
            .ok { files :=
              [exportFile { enumStyle := .nativeEnum } es] }
          ∧ ∃ st ∈ es, st.form = .enumeration
            ∧ ¬st.keys.Nodup := by
  let s := statusSchema "Open"
  have hValid : s.validate = [] := by decide +kernel
  have hMembers : ∀ d ∈ s.enums, d.memberNames.Nodup := by decide
  have hDistinct := (references_of_validate_eq_nil hValid).1
  have hFlat := isFlat_statusSchema "Open"
  rcases exists_exports hValid hFlat
    (o := { enumStyle := .flatConstants }) rfl with
      ⟨es, hExports, hFiles⟩
  rcases exists_exports hValid hFlat
    (o := { enumStyle := .nativeEnum }) rfl with
      ⟨fs, hNative, hNativeFiles⟩
  refine ⟨hValid, hMembers, ⟨es, hExports, hFiles, ?_⟩, fs, hNative,
    hNativeFiles, ?_⟩
  · rw [(names_of_exports hDistinct hExports).1.nodup_iff,
      nodup_exported_iff hDistinct hMembers]
    rintro ⟨hConstants, -⟩
    exact absurd (hConstants rfl).enums (by decide)
  · have hKeys := (names_of_exports hDistinct hNative).2
    have hTwice : ["Open", "Open"] ∈ s.types.filterMap
        (WireType.nativeNames? .nativeEnum (.ofSchema s [])) := by
      have hAll : s.types.filterMap
          (WireType.nativeNames? .nativeEnum (.ofSchema s [])) =
            [["Open", "Open"], ["Open"]] := by
        decide +kernel
      rw [hAll]
      decide
    rcases List.mem_filterMap.mp (hKeys.mem_iff.mpr hTwice) with
      ⟨st, hst, hSome⟩
    unfold ExportStatement.nativeKeys? at hSome
    split at hSome
    · next hForm =>
        refine ⟨st, hst, hForm, ?_⟩
        rw [Option.some.inj hSome]
        decide
    · cases hSome

end Schema

end WireSchema
