import WireSchema.Proofs.Extraction.Keeping
import WireSchema.Proofs.Schema.Parts
import WireSchema.Proofs.Source.Program

/-
  What is declared from the types of a module.

  The types of fields and synonyms are those of their source
  types, with any value in place of names.  Of pointers to
  what has an empty value, one in front of a field is dropped
  and no other.  All that is put in the queue is declared in
  its package, so that a declaration only fails to resolve
  for arguments that do not fit.

  Key definitions include:
    * `TypeExpr.outline`, `SourceScope.outline`
    * `SourceType.allFields`
    * `ModuleView.Outlined`, `ModuleView.standard`
-/

namespace WireSchema

open Walk

------------------------------------------------------------
-- Outlines
------------------------------------------------------------

/- The type of an expression, without the names in it. -/
def TypeExpr.outline (known : WellKnown) : TypeExpr → WireType
  | .named space name _ => (known.find? space name).getD .any
  | .pointer elem => .pointer (outline known elem)
  | .slice (.builtin name) =>
      if isByteName name then .base .bytes 0
      else .array ((builtinType? name).getD .any) 0
  | .slice elem => .array (outline known elem) 0
  | .array len elem => .array (outline known elem) len
  | .map key value =>
      .map (outline known key) (outline known value)
  | .builtin name => (builtinType? name).getD .any
  | .param _ => .any

namespace Source

variable {α : Type}

namespace SourceScope

/- The type of what is made of names. -/
def outlineOf
    (known : WellKnown)
    (e : Option TypeExpr) : WireType :=
  match e with
  | some e => e.outline known
  | none => .any

/- The type of a source type, without the names in it. -/
def outline (known : WellKnown) (x : SourceScope) :
    SourceType → WireType
  | .pointer elem => .pointer (outline known x elem)
  | .slice elem =>
      if x.isByte elem then .base .bytes 0
      else .array (outline known x elem) 0
  | .array len elem =>
      .array (outline known x elem) (len.getD 0)
  | .map key value =>
      .map (outline known x key) (outline known x value)
  | .ident name => outlineOf known (x.resolveName? name)
  | .qualified package name =>
      outlineOf known (x.resolve? (.qualified package name))
  | .generic base args =>
      outlineOf known (x.resolve? (.generic base args))
  | _ => .any

end SourceScope

mutual

/- All fields of structs in a type, wherever they stand. -/
def SourceType.allFields :
    SourceType → List (SourceField SourceType)
  | .pointer elem => allFields elem
  | .slice elem => allFields elem
  | .array _ elem => allFields elem
  | .map key value => allFields key ++ allFields value
  | .struct fields => fieldsOf fields
  | .interface elems _ => fieldsIn elems
  | .union terms => fieldsIn terms
  | .tilde elem => allFields elem
  | _ => []

def SourceType.fieldsIn :
    List SourceType → List (SourceField SourceType)
  | [] => []
  | t :: rest => SourceType.allFields t ++ fieldsIn rest

def SourceType.fieldsOf :
    List (SourceField SourceType) →
      List (SourceField SourceType)
  | [] => []
  | f :: rest => SourceType.fieldsFrom f ++ fieldsOf rest

def SourceType.fieldsFrom :
    SourceField SourceType → List (SourceField SourceType)
  | ⟨names, type, tag, doc⟩ =>
      ⟨names, type, tag, doc⟩ :: SourceType.allFields type

end

/- All fields in a declaration. -/
def TypeSource.allFields (d : TypeSource) :
    List (SourceField SourceType) :=
  d.type.allFields
    ++ d.params.flatMap fun p => p.bound.allFields

/- A field has the names it is given, or else that of its type. -/
def fieldNames (f : SourceField SourceType) : List String :=
  if f.names.isEmpty then
    (ModuleView.embeddedName? f.type).toList
  else f.names

variable {v : ModuleView}

------------------------------------------------------------
-- Scopes of Declarations
------------------------------------------------------------

namespace ModuleView

/- A package of the module declares a name. -/
def Finds (v : ModuleView) (space name : String) : Prop :=
  ∃ p, v.load space = .ok (some p)
    ∧ (p.find? name).isSome

/- An instance of a declaration, and the scope of that. -/
structure Declares
    (v : ModuleView)
    (i : Instance)
    (x : SourceScope)
    (d : TypeSource) : Prop where
  loaded :
    v.load i.space = .ok (some x.package)
  found : x.package.find? i.name = some (x.file, d)
  bindings :
    bindingsOf? (d.params.map (·.name)) i.args =
      some x.bindings

/-
  A declaration in a scope: that of an instance, or that of a
  bound, which has nothing in place of its parameters.
-/
inductive Opens (v : ModuleView) :
    SourceScope → TypeSource → Prop where
  | declared
      {i : Instance}
      {x : SourceScope}
      {d : TypeSource}
      (h : v.Declares i x d) : Opens v x d
  | bound
      {path name : String}
      {p : PackageSource}
      {file : FileSource}
      {d : TypeSource}
      (hLoaded : v.load path = .ok (some p))
      (hFound : p.find? name = some (file, d)) :
      Opens v (scopeOf p file d) d

/- The package of a scope is one of the module. -/
theorem Opens.loaded
    {x : SourceScope}
    {d : TypeSource}
    (h : v.Opens x d) :
    ∃ path, v.load path =
      .ok (some x.package) := by
  cases h with
  | declared h => exact ⟨_, h.loaded⟩
  | bound hLoaded hFound => exact ⟨_, hLoaded⟩

/- A field in the scope of its declaration. -/
def HasField
    (v : ModuleView)
    (x : SourceScope)
    (f : SourceField SourceType) : Prop :=
  ∃ d, v.Opens x d ∧ f ∈ d.allFields

------------------------------------------------------------
-- Standards
------------------------------------------------------------

/- A field is made of a type that has the outline of one. -/
def FieldOutlined
    (v : ModuleView)
    (f : Field WireType) : Prop :=
  ∃ x g, v.HasField x g ∧ ∃ name ∈ fieldNames g,
    ∃ t, (x.outline v.known g.type).Outlines t
      ∧ f = taggedField name (.ofTag g.tag) t g.doc

/-
  Fields are outlined by fields of the module, and a synonym
  by the type that its declaration is one for.
-/
def Outlined (v : ModuleView) : WireType → Prop
  | .record r => ∀ f ∈ r.fields, v.FieldOutlined f
  | .synonym a =>
      ∃ i x d, v.Declares i x d ∧ a.id = i.id
        ∧ (x.outline v.known d.type).Outlines a.target
  | _ => True

/-
  What is in the queue is declared, and what is remembered of
  a package is what reading it gives.
-/
def standard (v : ModuleView) : Standard Instance Loaded where
  type := v.Outlined
  item i := v.Finds i.space i.name
  memory loaded :=
    ∀ path found, loaded.lookup path = some found →
      v.load path = .ok found

end ModuleView

/- Files that cannot be read are no names that are missing. -/
theorem resolves_of_load
    {m : ModuleSource}
    {read : SourceReader}
    {t : FileTree}
    {package : String}
    {e : ExtractionFault}
    (h : m.load read t package = .error e) : Resolves e := by
  rcases fault_of_load h with ⟨path, rfl | rfl⟩
  · exact fun _ => nofun
  · exact fun _ => nofun

/-
  A package that is asked for is what reading it gives, if
  that is what is remembered.
-/
theorem yields_read
    {Allowed : ExtractionFault → Prop}
    {path : String}
    {x : Walk Instance Loaded}
    {Q : Option PackageSource → Walk Instance Loaded → Prop}
    (hMemory : v.standard.memory x.memory)
    (hFault : ∀ e,
      v.load path = .error e → Allowed e)
    (hQ : ∀ found memory,
      v.load path = .ok found →
        v.standard.memory memory → Q found { x with memory }) :
    Yields Allowed (v.package? path) x Q := by
  apply yields_bind
  apply yields_get
  split
  · next found hFound =>
      exact yields_pure
        (hQ found x.memory (hMemory path found hFound) hMemory)
  · apply yields_bind
    apply yields_liftM
    · exact hFault
    · intro found hLoad
      apply yields_bind
      apply yields_modify
      apply yields_pure
      apply hQ found ((path, found) :: x.memory) hLoad
      intro path' found' hLookup
      by_cases hPath : path' = path
      · subst hPath
        simp only [List.lookup_cons, beq_self_eq_true,
          Option.some.injEq] at hLookup
        rw [← hLookup]
        exact hLoad
      · simp only [List.lookup_cons, beq_false_of_ne hPath]
          at hLookup
        exact hMemory path' found' hLookup

theorem keeps_read
    {S : Standard Instance Loaded}
    (hMemory : S.memory = v.standard.memory)
    (path : String) :
    Keeps (fun e => v.load path = .error e) S
      (fun found => v.load path = .ok found)
      (v.package? path) := by
  intro x hx
  apply yields_read (hMemory ▸ hx.memory)
  · exact fun _ => id
  · intro found memory hLoad hRemembers
    exact ⟨⟨hx.types, hx.queue, hMemory ▸ hRemembers⟩, hLoad⟩

theorem keeps_loaded (path : String) :
    Keeps (fun e => v.load path = .error e)
      v.standard
      (fun found => v.load path = .ok found)
      (v.package? path) :=
  keeps_read rfl path

theorem keeps_package (path : String) :
    Keeps Resolves v.standard
      (fun found => v.load path = .ok found)
      (v.package? path) :=
  (keeps_loaded path).allow fun _ => resolves_of_load

/- The package of a namespace, unless that is empty. -/
theorem keeps_space
    {Allowed : ExtractionFault → Prop}
    {Good : α → Prop}
    {space : String}
    {f : Option PackageSource → ModuleStep α}
    (hAllow : ∀ e, Resolves e → Allowed e)
    (hEmpty : space.isEmpty = true →
      Keeps Allowed v.standard Good (f none))
    (hLoaded : space.isEmpty = false → ∀ package,
      v.load space = .ok package →
        Keeps Allowed v.standard Good (f package)) :
    Keeps Allowed v.standard Good
      (do
        let package ←
          if space.isEmpty then pure none
          else v.package? space
        f package) := by
  split
  · next hSpace => exact hEmpty hSpace
  · next hSpace =>
      have hSpace := Bool.eq_false_iff.mpr hSpace
      exact ((keeps_package space).allow hAllow).bind
        (hLoaded hSpace)

/- An instance of a declared type may be asked for. -/
theorem keeps_instance
    {Allowed : ExtractionFault → Prop}
    {i : Instance}
    (hFound : v.Finds i.space i.name)
    (hClash : i.args ≠ [] → ∀ id first second,
      Allowed (.nameClash id first second)) :
    Keeps Allowed v.standard (fun id => id = i.id)
      i.enqueue := by
  have hQueued : Keeps Allowed v.standard (fun id => id = i.id)
      (do Walk.enqueue i.id i; pure i.id) :=
    (keeps_enqueue i.id hFound).map fun _ _ => rfl
  unfold Instance.enqueue
  split
  · next hSome =>
      have hArgs : i.args ≠ [] := by simpa using hSome
      exact (keeps_claim fun _ => hClash hArgs _ _ _).bind
        fun _ _ => hQueued
  · exact hQueued

------------------------------------------------------------
-- Type Expressions
------------------------------------------------------------

theorem keeps_lowerDeclared
    {place : SourcePlace}
    {space name : String}
    {args : List TypeExpr}
    {package : Option PackageSource}
    (hPackage : ∀ p ∈ package,
      v.load space = .ok (some p)) :
    Keeps Resolves v.standard WireType.any.Outlines
      (ModuleView.lowerDeclared place space name args
        package) := by
  unfold ModuleView.lowerDeclared
  split
  · exact keeps_noted _ (keeps_pure WireType.outlines_any)
  · next p =>
      split
      · exact keeps_noted _ (keeps_pure WireType.outlines_any)
      · next file d hFound =>
          split
          · exact keeps_pure WireType.outlines_any
          · have hFinds : v.Finds space name := by
              refine ⟨p, hPackage p rfl, ?_⟩
              rw [hFound]
              rfl
            dsimp only
            apply (keeps_instance hFinds
              fun _ => resolves_nameClash).map
            intro id _
            exact .reference id

theorem keeps_lowerNamed
    (place : SourcePlace)
    (space name : String)
    (args : List TypeExpr) :
    Keeps Resolves v.standard
      ((v.known.find? space name).getD .any).Outlines
      (v.lowerNamed place space name args) := by
  unfold ModuleView.lowerNamed
  split
  · next t hKnown =>
      apply keeps_pure
      rw [hKnown]
      exact WireType.outlines_of_find? hKnown
  · next hUnknown =>
      rw [hUnknown]
      apply keeps_space fun _ => id
      · intro _
        exact keeps_lowerDeclared nofun
      · intro _ package hLoaded
        apply keeps_lowerDeclared
        rintro p ⟨⟩
        exact hLoaded

theorem keeps_lowerExpr (place : SourcePlace) (e : TypeExpr) :
    Keeps Resolves v.standard (e.outline v.known).Outlines
      (v.lowerExpr place e) := by
  induction e using ModuleView.lowerExpr.induct with
  | case1 space name args =>
      unfold ModuleView.lowerExpr
      exact keeps_lowerNamed place space name args
  | case2 elem hElem =>
      unfold ModuleView.lowerExpr
      exact hElem.map fun _ ht => .pointer ht
  | case3 name hByte =>
      unfold ModuleView.lowerExpr TypeExpr.outline
      rw [if_pos hByte, if_pos hByte]
      exact keeps_pure (.base _ _)
  | case4 name hByte =>
      unfold ModuleView.lowerExpr TypeExpr.outline
      rw [if_neg hByte, if_neg hByte]
      exact keeps_pure (.array 0 (WireType.outlines_builtin name))
  | case5 elem hNotBuiltin hElem =>
      rw [ModuleView.lowerExpr.eq_4 v place elem hNotBuiltin,
        TypeExpr.outline.eq_4 v.known elem hNotBuiltin]
      exact hElem.map fun _ ht => .array 0 ht
  | case6 len elem hElem =>
      unfold ModuleView.lowerExpr
      exact hElem.map fun _ ht => .array len ht
  | case7 key value hKey hValue =>
      unfold ModuleView.lowerExpr
      exact hKey.bind fun _ hk => hValue.map fun _ hv =>
        .map hk hv
  | case8 name =>
      unfold ModuleView.lowerExpr
      exact keeps_pure (WireType.outlines_builtin name)
  | case9 name =>
      unfold ModuleView.lowerExpr
      exact keeps_pure (.param name)

------------------------------------------------------------
-- Source Types
------------------------------------------------------------

theorem keeps_unsupported
    (x : SourceScope)
    (hint what : String) :
    Keeps Resolves v.standard WireType.any.Outlines
      (ModuleView.unsupported x hint what) :=
  keeps_noted _ (keeps_pure WireType.outlines_any)

theorem keeps_lowerNames
    (x : SourceScope)
    (hint : String)
    (t : SourceType) :
    Keeps Resolves v.standard
      (SourceScope.outlineOf v.known (x.resolve? t)).Outlines
      (v.lowerNames x hint t) := by
  unfold ModuleView.lowerNames
  split
  · next e hResolved =>
      rw [hResolved]
      exact keeps_lowerExpr _ e
  · next hUnknown =>
      rw [hUnknown]
      exact keeps_unsupported x hint _

theorem keeps_lowerIdent
    (x : SourceScope)
    (hint name : String) :
    Keeps Resolves v.standard
      (SourceScope.outlineOf v.known (x.resolveName? name)).Outlines
      (v.lowerIdent x hint name) := by
  unfold ModuleView.lowerIdent
  split
  · next e hResolved =>
      rw [hResolved]
      exact keeps_lowerExpr _ e
  · next hUnknown =>
      rw [hUnknown]
      exact keeps_unsupported x hint _

theorem keeps_isStruct (x : SourceScope) (t : SourceType) :
    Keeps Resolves v.standard (fun _ => True)
      (v.isStruct x t) := by
  fun_induction ModuleView.isStruct v x t with
  | case1 elem hElem => exact hElem
  | case2 base args hBase => exact hBase
  | case3 name => exact keeps_return _
  | case4 package name hImport => exact keeps_return _
  | case5 package name path hImport =>
      exact (keeps_package path).map fun _ _ => trivial
  | case6 t => exact keeps_return _

/-
  The type of a source type has its outline, and all fields
  on the way are outlined by their source types.
-/
theorem keeps_types (x : SourceScope) :
    (∀ hint t, (∀ f ∈ t.allFields, v.HasField x f) →
      Keeps Resolves v.standard
        (x.outline v.known t).Outlines (v.lower x hint t))
      ∧ (∀ owner fs,
        (∀ f ∈ SourceType.fieldsOf fs, v.HasField x f) →
        Keeps Resolves v.standard
          (FieldsMeet v.FieldOutlined)
          (v.lowerFields x owner fs))
      ∧ (∀ owner f,
        (∀ g ∈ SourceType.fieldsFrom f, v.HasField x g) →
        Keeps Resolves v.standard
          (FieldsMeet v.FieldOutlined)
          (v.lowerField x owner f)) := by
  have hField : ∀ {g : SourceField SourceType} {name},
      v.HasField x g → name ∈ fieldNames g →
      ∀ t, (x.outline v.known g.type).Outlines t →
        v.FieldOutlined
          (taggedField name (.ofTag g.tag) t g.doc) := by
    intro g name hg hName t ht
    exact ⟨x, g, hg, name, hName, t, ht, rfl⟩
  have hEmbedded : ∀ {type tag doc name},
      ModuleView.embeddedName? type = some name →
        name ∈ fieldNames ⟨[], type, tag, doc⟩ := by
    intro type tag doc name hName
    simp [fieldNames, hName]
  refine ModuleView.lower.mutual_induct v x _ _ _
    ?struct ?pointer ?bytes ?slice ?array ?map ?interface
    ?union ?tilde ?unsupported ?ident ?qualified ?generic
    ?noField ?field ?unnamed ?skipped ?renamed ?embedded
    ?named
  case struct =>
    intro hint fields id hFields hTypes
    unfold ModuleView.lower
    apply (keeps_struct (hFields hTypes) fun d h => h).imp
    rintro t rfl
    exact .reference id
  case pointer =>
    intro hint elem hElem hTypes
    unfold ModuleView.lower
    exact (hElem hTypes).map fun _ ht => .pointer ht
  case bytes =>
    intro hint elem hByte _
    unfold ModuleView.lower SourceScope.outline
    rw [if_pos hByte, if_pos hByte]
    exact keeps_pure (.base _ _)
  case slice =>
    intro hint elem hByte hElem hTypes
    unfold ModuleView.lower SourceScope.outline
    rw [if_neg hByte, if_neg hByte]
    exact (hElem hTypes).map fun _ ht => .array 0 ht
  case array =>
    intro hint len elem hElem hTypes
    unfold ModuleView.lower
    exact (hElem hTypes).map fun _ ht => .array (len.getD 0) ht
  case map =>
    intro hint key value hKey hValue hTypes
    simp only [SourceType.allFields, List.forall_mem_append]
      at hTypes
    unfold ModuleView.lower
    apply (hKey hTypes.1).bind
    intro k hk
    exact (hValue hTypes.2).map fun _ hv => .map hk hv
  case interface | union | tilde =>
    intros
    unfold ModuleView.lower
    exact keeps_pure WireType.outlines_any
  case unsupported =>
    intro hint text _
    unfold ModuleView.lower
    exact keeps_unsupported x hint text
  case ident =>
    intro hint name _
    unfold ModuleView.lower
    exact keeps_lowerIdent x hint name
  case qualified | generic =>
    intros
    unfold ModuleView.lower
    exact keeps_lowerNames x _ _
  case noField =>
    intro owner _
    unfold ModuleView.lowerFields
    exact keeps_pure (fieldsMeet_nil [])
  case field =>
    intro owner f rest hFirst hMore hTypes
    simp only [SourceType.fieldsOf, List.forall_mem_append]
      at hTypes
    unfold ModuleView.lowerFields
    exact keeps_append (hFirst hTypes.1) (hMore hTypes.2)
  case unnamed =>
    intro owner type tag doc hName hOwn _
    unfold ModuleView.lowerField
    rw [hName]
    exact keeps_pure (fieldsMeet_nil [])
  case skipped =>
    intro owner type tag doc facts name hName hSkip hOwn _
    unfold ModuleView.lowerField
    rw [hName]
    dsimp only
    rw [if_pos hSkip]
    exact keeps_pure (fieldsMeet_nil [])
  case renamed =>
    intro owner type tag doc facts name hName hKept hWire hOwn
      hTypes
    rw [SourceType.fieldsFrom, List.forall_mem_cons] at hTypes
    unfold ModuleView.lowerField
    rw [hName]
    dsimp only
    rw [if_neg hKept, if_pos hWire]
    exact keeps_parentOr (keeps_return _)
      (keeps_exported (hOwn name hTypes.2)
        (hField hTypes.1 (hEmbedded hName)))
  case embedded =>
    intro owner type tag doc facts name hName hKept hWire hOwn
      hType hTypes
    rw [SourceType.fieldsFrom, List.forall_mem_cons] at hTypes
    have hSelf := keeps_exported (hOwn name hTypes.2)
      (hField hTypes.1 (hEmbedded hName))
    unfold ModuleView.lowerField
    rw [hName]
    dsimp only
    rw [if_neg hKept, if_neg hWire]
    apply (keeps_isStruct x type).bind
    intro found _
    cases found with
    | true =>
        apply (hType hTypes.2).bind
        intro t _
        exact keeps_parentOr (keeps_return _) hSelf
    | false => exact keeps_parentOr (keeps_return _) hSelf
  case named =>
    intro owner type tag doc names hNone hSome hOwn hTypes
    rw [SourceType.fieldsFrom, List.forall_mem_cons] at hTypes
    unfold ModuleView.lowerField
    cases names with
    | nil =>
        cases hName : ModuleView.embeddedName? type with
        | none => exact absurd hName (hNone rfl)
        | some name => exact absurd hName (hSome name rfl)
    | cons name rest =>
        have hEach : ∀ given ∈ (name :: rest).filter isExported,
            Keeps Resolves v.standard
              (FieldsMeet v.FieldOutlined)
              (do
                let hint := owner.name ++ "_" ++ given
                let t ← v.lower x hint type
                pure
                  ([taggedField given (.ofTag tag) t doc], [])) := by
          intro given hGiven
          have hName := List.mem_of_mem_filter hGiven
          exact keeps_tagged (hOwn given hTypes.2)
            (hField hTypes.1 hName)
        apply (keeps_mapM hEach).map
        intro parts hParts
        exact fieldsMeet_foldl (fieldsMeet_nil []) hParts

------------------------------------------------------------
-- Bounds
------------------------------------------------------------

theorem mem_fieldsIn
    {t : SourceType}
    {ts : List SourceType}
    {f : SourceField SourceType}
    (ht : t ∈ ts)
    (hf : f ∈ t.allFields) : f ∈ SourceType.fieldsIn ts := by
  induction ts with
  | nil => cases ht
  | cons first rest ih =>
      rw [SourceType.fieldsIn, List.mem_append]
      rcases List.mem_cons.mp ht with rfl | ht
      · exact .inl hf
      · exact .inr (ih ht)

/- A type whose fields are all declared, in a scope. -/
structure ModuleView.Covers
    (v : ModuleView)
    (x : SourceScope)
    (t : SourceType) : Prop where
  opens : ∃ d, v.Opens x d
  fields : ∀ f ∈ t.allFields, v.HasField x f

/- The interface of a bound is declared in its own scope. -/
theorem covers_of_interfaceOf?
    {path name : String}
    {p : PackageSource}
    {y : SourceScope}
    {t : SourceType}
    (hLoaded : v.load path = .ok (some p))
    (h : ModuleView.interfaceOf? p name = some (y, t)) :
    v.Covers y t := by
  unfold ModuleView.interfaceOf? at h
  split at h
  · next file d hFound =>
      split at h
      · cases h
        have hOpens := ModuleView.Opens.bound hLoaded hFound
        refine ⟨⟨d, hOpens⟩, ?_⟩
        intro u hu
        exact ⟨d, hOpens, List.mem_append_left _ hu⟩
      · cases h
  · cases h

theorem keeps_asBound
    {m : ModuleStep WireType}
    {Good : WireType → Prop}
    (hm : Keeps Resolves v.standard Good m) :
    Keeps Resolves v.standard (fun _ => True)
      (do let t ← m; pure (some t)) :=
  hm.map fun _ _ => trivial

/- Whatever a bound is made of, all fields are outlined. -/
theorem keeps_bounds (depth : Nat) :
    (∀ x t, v.Covers x t →
      Keeps Resolves v.standard (fun _ => True)
        (v.lowerBound depth x t))
      ∧ ∀ x t, v.Covers x t →
        Keeps Resolves v.standard (fun _ => True)
          (v.lowerTerm depth x t) := by
  induction depth with
  | zero =>
      constructor
      · intro x t _
        unfold ModuleView.lowerBound
        exact keeps_fault resolves_unfinished
      · intro x t _
        unfold ModuleView.lowerTerm
        exact keeps_fault resolves_unfinished
  | succ depth ih =>
      have hTerms : ∀ x ts,
          (∃ d, v.Opens x d) →
          (∀ f ∈ SourceType.fieldsIn ts, v.HasField x f) →
          Keeps Resolves v.standard (fun _ => True)
            (ts.mapM (v.lowerTerm depth x)) := by
        intro x ts hOpens hFields
        apply (keeps_mapM fun t ht => ih.2 x t ⟨hOpens, ?_⟩).imp
        · intro _ _
          trivial
        · intro u hu
          exact hFields u (mem_fieldsIn ht hu)
      constructor
      · intro x t ht
        have hType := (keeps_types (v := v) x).1
        rcases ht with ⟨⟨d, hOpens⟩, hFields⟩
        rcases hOpens.loaded with ⟨path, hLoaded⟩
        cases t with
        | ident name =>
            unfold ModuleView.lowerBound
            split
            · exact keeps_return _
            · split
              · next y t hInterface =>
                  exact ih.1 y t
                    (covers_of_interfaceOf? hLoaded hInterface)
              · exact keeps_asBound (hType _ _ hFields)
        | qualified package name =>
            unfold ModuleView.lowerBound
            split
            · exact keeps_return _
            · apply (keeps_package _).bind
              intro found hFound
              split
              · exact keeps_return _
              · split
                · next y t hInterface =>
                    exact ih.1 y t
                      (covers_of_interfaceOf? hFound hInterface)
                · exact keeps_asBound (hType _ _ hFields)
        | interface elems hasMethods =>
            unfold ModuleView.lowerBound
            exact (hTerms x elems ⟨d, hOpens⟩ hFields).map
              fun _ _ => trivial
        | union items =>
            unfold ModuleView.lowerBound
            exact (hTerms x items ⟨d, hOpens⟩ hFields).map
              fun _ _ => trivial
        | _ =>
            unfold ModuleView.lowerBound
            exact keeps_asBound (hType _ _ hFields)
      · intro x t ht
        cases t with
        | union items =>
            unfold ModuleView.lowerTerm
            exact (hTerms x items ht.opens ht.fields).map
              fun _ _ => trivial
        | tilde elem =>
            unfold ModuleView.lowerTerm
            exact ((keeps_types x).1 _ elem ht.fields).map
              fun _ _ => trivial
        | _ =>
            unfold ModuleView.lowerTerm
            exact (ih.1 x _ ht).map fun _ _ => trivial

------------------------------------------------------------
-- Declarations
------------------------------------------------------------

theorem keeps_members
    (id : TypeName)
    (kind : BaseKind)
    (table : ConstTable)
    (consts : List ConstSource) :
    Keeps Resolves v.standard (fun _ => True)
      (membersOf id kind table consts) := by
  fun_induction membersOf id kind table consts with
  | case1 => exact keeps_return _
  | case2 c rest hBlank ih => exact ih
  | case3 c rest hName m hMember ih =>
      exact ih.map fun _ _ => trivial
  | case4 c rest hName w hMember ih => exact keeps_noted w ih

/- An enumeration has the name that it is made for. -/
theorem keeps_enumeration
    (p : PackageSource)
    (id : TypeName)
    (d : TypeSource) :
    Keeps Resolves v.standard
      (fun t? => ∀ t ∈ t?, t.id? = some id ∧ v.Outlined t)
      (enumeration p id d) := by
  unfold enumeration
  split
  · exact keeps_pure nofun
  · apply (keeps_members _ _ _ _).bind
    intro members _
    split
    · exact keeps_pure nofun
    · apply keeps_pure
      rintro t ⟨⟩
      exact ⟨rfl, trivial⟩

theorem keeps_lowerParams
    {depth : Nat}
    {x : SourceScope}
    {ps : List SourceParam}
    (hBounds : ∀ p ∈ ps, v.Covers x p.bound) :
    Keeps Resolves v.standard (fun _ => True)
      (v.lowerParams depth x ps) := by
  induction ps with
  | nil => exact keeps_return _
  | cons p rest ih =>
      rw [List.forall_mem_cons] at hBounds
      unfold ModuleView.lowerParams
      apply ((keeps_bounds _).1 x p.bound hBounds.1).bind
      intro bound _
      exact (ih hBounds.2).map fun _ _ => trivial

/- What a declaration becomes is outlined by its source. -/
theorem keeps_lowerDecl
    {i : Instance}
    {x : SourceScope}
    {d : TypeSource}
    (hDeclares : v.Declares i x d)
    (params : List (TypeParam WireType)) :
    Keeps Resolves v.standard
      (fun t => t.id? = some i.id ∧ v.Outlined t)
      (v.lowerDecl x i.id params d) := by
  have hFields : ∀ f ∈ d.type.allFields, v.HasField x f := by
    intro u hu
    exact ⟨d, .declared hDeclares, List.mem_append_left _ hu⟩
  have hSynonym : ∀ enum? : Option WireType,
      (∀ t ∈ enum?, t.id? = some i.id ∧ v.Outlined t) →
      Keeps Resolves v.standard
        (fun t => t.id? = some i.id ∧ v.Outlined t)
        (v.lowerSynonym x i.id params d enum?) := by
    intro enum? hEnum
    unfold ModuleView.lowerSynonym
    split
    · exact keeps_pure (hEnum _ rfl)
    · apply ((keeps_types x).1 _ d.type hFields).map
      intro target hTarget
      exact ⟨rfl, i, x, d, hDeclares, rfl, hTarget⟩
  unfold ModuleView.lowerDecl
  split
  · next fields hStruct =>
      rw [hStruct, SourceType.allFields] at hFields
      apply ((keeps_types x).2.1 i.id fields hFields).bind
      rintro ⟨fields, parents⟩ hMeet
      exact keeps_pure ⟨rfl, hMeet⟩
  · split
    · exact (keeps_enumeration _ i.id d).bind hSynonym
    · apply (keeps_pure (a := none) ?_).bind hSynonym
      exact nofun

/-
  What an instance does not resolve for: its arguments do not
  fit its declaration.
-/
def ModuleView.Misfit (v : ModuleView) (what : String) : Prop :=
  ∃ (i : Instance) (p : PackageSource) (file : FileSource)
      (d : TypeSource),
    v.load i.space = .ok (some p)
      ∧ p.find? i.name = some (file, d)
      ∧ ModuleView.bindingsOf? (d.params.map (·.name)) i.args =
        none
      ∧ what = ModuleView.arityText i d.params.length

theorem keeps_declareInstance
    {depth : Nat}
    {i : Instance}
    (hFound : v.Finds i.space i.name) :
    Keeps (Blames v.Misfit) v.standard (fun _ => True)
      (v.declareInstance depth i) := by
  rcases hFound with ⟨p, hLoaded, hSome⟩
  rcases Option.isSome_iff_exists.mp hSome with
    ⟨⟨file, d⟩, hDecl⟩
  unfold ModuleView.declareInstance
  apply (keeps_package i.space).blames.bind
  intro package hPackage
  rw [hLoaded] at hPackage
  cases hPackage
  simp only [Option.bind_some, hDecl]
  split
  · next hBindings =>
      apply keeps_fault
      rintro what ⟨⟩
      exact ⟨i, p, file, d, hLoaded, hDecl, hBindings, rfl⟩
  · next bindings hBindings =>
      have hDeclares : v.Declares i
          { package := p, file, bindings, place := d.place } d :=
        ⟨hLoaded, hDecl, hBindings⟩
      have hBounds : ∀ q ∈ d.params,
          v.Covers
            { package := p, file, bindings, place := d.place }
            q.bound := by
        intro q hq
        refine ⟨⟨d, .declared hDeclares⟩, ?_⟩
        intro u hu
        refine ⟨d, .declared hDeclares, ?_⟩
        exact List.mem_append_right _
          (List.mem_flatMap.mpr ⟨q, hq, hu⟩)
      have hDeclared : ∀ params,
          Keeps (Blames v.Misfit) v.standard (fun _ => True)
            (do
              let t ← v.lowerDecl
                { package := p, file, bindings, place := d.place }
                i.id params d
              declare t) := by
        intro params
        apply Keeps.blames
        apply (keeps_lowerDecl hDeclares params).bind
        rintro t ⟨hId, hOutlined⟩
        exact keeps_declare hId hOutlined
      split
      · apply (keeps_lowerParams hBounds).blames.bind
        intro params _
        exact hDeclared params
      · apply (keeps_return []).bind
        intro params _
        exact hDeclared params

end Source

end WireSchema
