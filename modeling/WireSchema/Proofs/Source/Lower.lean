import WireSchema.Proofs.Extraction.Lowering
import WireSchema.Source.Lower

/-
  What lowering source types keeps.

  Every path that makes a reference goes through an instance
  in the queue or through a struct without a name, so that
  the name is taken by then.  Packages that are read on the
  way change nothing that is accounted for.

  Key definitions include:
    * `Source.Tracked`
-/

namespace WireSchema.Source

open Walk

variable {v : ModuleView}

/- Any fault may end the reading of sources. -/
abbrev AnyFault (_ : ExtractionFault) : Prop :=
  True

/- Bounds of parameters are expressions. -/
abbrev Tracked :
    List TypeName → Walk Instance Loaded → Prop :=
  Sound Instance.id WireType.IsExpression

------------------------------------------------------------
-- Files
------------------------------------------------------------

/- What a file is not read for. -/
theorem fault_of_loadFile
    {m : ModuleSource}
    {read : SourceReader}
    {t : FileTree}
    {place name : String}
    {e : ExtractionFault}
    (h : m.loadFile read t place name = .error e) :
    ∃ path, e = .unreadable path ∨ e = .syntaxFault path := by
  unfold ModuleSource.loadFile at h
  dsimp only at h
  split at h
  · cases h
    exact ⟨_, .inl rfl⟩
  · split at h
    · cases h
    · cases h
      exact ⟨_, .inr rfl⟩

/- What a package is not read for. -/
theorem fault_of_load
    {m : ModuleSource}
    {read : SourceReader}
    {t : FileTree}
    {package : String}
    {e : ExtractionFault}
    (h : m.load read t package = .error e) :
    ∃ path, e = .unreadable path ∨ e = .syntaxFault path := by
  unfold ModuleSource.load at h
  split at h
  · cases h
  · next place hPlace =>
      dsimp only at h
      split at h
      · cases h
      · cases h
        exact ⟨_, .inl rfl⟩
      · split at h
        · cases h
        · have hFiles := eq_error_of_bind_ok h
          rcases exists_of_mapM_eq_error hFiles with
            ⟨name, -, hFile⟩
          exact fault_of_loadFile hFile

------------------------------------------------------------
-- Instances and Packages
------------------------------------------------------------

/- An instance that is asked for will be declared. -/
theorem lowers_instance (i : Instance) :
    Lowers AnyFault Tracked
      (fun names id => id = i.id ∧ id ∈ names) i.enqueue := by
  intro pending x hx
  have hQueued : ∀ y : Walk Instance Loaded,
      Tracked pending y → x.Within y →
      Yields AnyFault
        (do Walk.enqueue i.id i; pure i.id) y
        fun id z => Tracked pending z
          ∧ x.Within z ∧ id = i.id ∧ id ∈ z.taken := by
    intro y hy hxy
    apply yields_bind
    apply yields_enqueue
    · intro hId
      exact yields_pure ⟨hy, hxy, rfl, hId⟩
    · intro hFree
      apply yields_pure
      exact ⟨hy.enqueue hFree,
        hxy.trans (within_enqueue y i.id i), rfl,
        List.mem_cons_self⟩
  unfold Instance.enqueue
  split
  · apply yields_bind
    apply yields_claim
    · intro first _ _
      exact hQueued x hx (.refl x)
    · intro _
      exact hQueued _ (hx.congr rfl rfl rfl)
        (within_claim x i.id i)
    · intro _ _ _
      trivial
  · exact hQueued x hx (.refl x)

theorem lowers_package (path : String) :
    Lowers AnyFault Tracked (fun _ _ => True)
      (v.package? path) := by
  intro pending x hx
  apply yields_bind
  apply yields_get
  split
  · exact yields_pure ⟨hx, .refl x, trivial⟩
  · apply yields_bind
    apply yields_liftM
    · intro _ _
      trivial
    · intro found _
      apply yields_bind
      apply yields_modify
      apply yields_pure
      refine ⟨hx.congr rfl rfl rfl, ?_, trivial⟩
      exact ⟨List.Subset.refl _, List.prefix_refl _⟩

/- A type without a namespace has no package. -/
theorem lowers_noPackage :
    Lowers AnyFault Tracked (fun _ _ => True)
      (pure (none : Option PackageSource)) :=
  lowers_pure (by simp)

------------------------------------------------------------
-- Type Expressions
------------------------------------------------------------

theorem lowers_any :
    Lowers AnyFault Tracked WireType.IsPlainOver
      (pure .any) :=
  lowers_pure (by simp)

theorem lowers_declared
    (place : SourcePlace)
    (space name : String)
    (args : List TypeExpr)
    (package : Option PackageSource) :
    Lowers AnyFault Tracked WireType.IsPlainOver
      (ModuleView.lowerDeclared place space name args
        package) := by
  unfold ModuleView.lowerDeclared
  split
  · exact lowers_note stable_sound lowers_any
  · split
    · exact lowers_note stable_sound lowers_any
    · split
      · exact lowers_any
      · apply (lowers_instance _).map
        rintro names id ⟨-, hId⟩
        simpa using hId

theorem lowers_named
    (place : SourcePlace)
    (space name : String)
    (args : List TypeExpr) :
    Lowers AnyFault Tracked WireType.IsPlainOver
      (v.lowerNamed place space name args) := by
  have hFound := lowers_declared place space name args
  unfold ModuleView.lowerNamed
  split
  · next t hKnown =>
      apply lowers_pure
      intro names
      exact WireType.isPlainOver_of_find? hKnown
  · by_cases hSpace : space.isEmpty = true
    · rw [if_pos hSpace]
      exact lowers_noPackage.bind hFound
    · rw [if_neg hSpace]
      exact (lowers_package space).bind hFound

theorem lowers_expr (place : SourcePlace) (e : TypeExpr) :
    Lowers AnyFault Tracked WireType.IsPlainOver
      (v.lowerExpr place e) := by
  induction e using ModuleView.lowerExpr.induct with
  | case1 space name args =>
      unfold ModuleView.lowerExpr
      exact lowers_named place space name args
  | case2 elem hElem =>
      unfold ModuleView.lowerExpr
      exact hElem.map (by simp)
  | case3 name hByte =>
      unfold ModuleView.lowerExpr
      rw [if_pos hByte]
      exact lowers_pure (by simp)
  | case4 name hByte =>
      unfold ModuleView.lowerExpr
      rw [if_neg hByte]
      apply lowers_pure
      intro names
      simpa using WireType.isPlainOver_builtin name
  | case5 elem hNotBuiltin hElem =>
      rw [ModuleView.lowerExpr.eq_4 v place elem hNotBuiltin]
      exact hElem.map (by simp)
  | case6 len elem hElem =>
      unfold ModuleView.lowerExpr
      exact hElem.map (by simp)
  | case7 key value hKey hValue =>
      unfold ModuleView.lowerExpr
      exact lowers_map hKey hValue
  | case8 name =>
      unfold ModuleView.lowerExpr
      exact lowers_pure fun _ =>
        WireType.isPlainOver_builtin name
  | case9 name =>
      unfold ModuleView.lowerExpr
      exact lowers_pure (by simp)

------------------------------------------------------------
-- Names
------------------------------------------------------------

/- A type without a wire form is any value. -/
theorem lowers_unsupported
    (x : SourceScope)
    (hint what : String) :
    Lowers AnyFault Tracked WireType.IsPlainOver
      (ModuleView.unsupported x hint what) := by
  unfold ModuleView.unsupported
  exact lowers_note stable_sound lowers_any

theorem lowers_names
    (x : SourceScope)
    (hint : String)
    (t : SourceType) :
    Lowers AnyFault Tracked WireType.IsPlainOver
      (v.lowerNames x hint t) := by
  unfold ModuleView.lowerNames
  split
  · exact lowers_expr _ _
  · exact lowers_unsupported x hint _

theorem lowers_ident (x : SourceScope) (hint name : String) :
    Lowers AnyFault Tracked WireType.IsPlainOver
      (v.lowerIdent x hint name) := by
  unfold ModuleView.lowerIdent
  split
  · exact lowers_expr _ _
  · exact lowers_unsupported x hint _

/- Looking for a declared struct asks for no name. -/
theorem lowers_isStruct (x : SourceScope) (t : SourceType) :
    Lowers AnyFault Tracked (fun _ _ => True)
      (v.isStruct x t) := by
  fun_induction ModuleView.isStruct v x t with
  | case1 elem hElem => exact hElem
  | case2 base args hBase => exact hBase
  | case3 name => exact lowers_pure (by simp)
  | case4 package name hImport => exact lowers_pure (by simp)
  | case5 package name path hImport =>
      exact (lowers_package path).map (by simp)
  | case6 t => exact lowers_pure (by simp)

/- What an embedded type adds that is no parent. -/
theorem lowers_exported
    {t : ModuleStep WireType}
    (name : String)
    (facts : FieldFacts)
    (doc : Doc)
    (ht : Lowers AnyFault Tracked WireType.IsPlainOver t) :
    Lowers AnyFault Tracked Members.IsPlainOver
      (if isExported name then do
        let t ← t
        pure ([taggedField name facts t doc], [])
      else pure ([], [])) := by
  split
  · exact lowers_tagged ht name facts doc
  · exact lowers_noMembers

------------------------------------------------------------
-- Types
------------------------------------------------------------

/-
  Source types are lowered to types over taken names, and
  structs to members over them.
-/
theorem lowers_types (x : SourceScope) :
    (∀ hint t,
      Lowers AnyFault Tracked WireType.IsPlainOver
        (v.lower x hint t))
      ∧ (∀ owner fs,
        Lowers AnyFault Tracked Members.IsPlainOver
          (v.lowerFields x owner fs))
      ∧ (∀ owner f,
        Lowers AnyFault Tracked Members.IsPlainOver
          (v.lowerField x owner f)) := by
  refine ModuleView.lower.mutual_induct v x _ _ _
    ?struct ?pointer ?bytes ?slice ?array ?map ?interface
    ?union ?tilde ?unsupported ?ident ?qualified ?generic
    ?noField ?field ?unnamed ?skipped ?renamed ?embedded
    ?named
  case struct =>
    intro hint fields id hFields
    unfold ModuleView.lower
    exact lowers_struct stable_sound hFields
  case pointer =>
    intro hint elem hElem
    unfold ModuleView.lower
    exact hElem.map (by simp)
  case bytes =>
    intro hint elem hByte
    unfold ModuleView.lower
    rw [if_pos hByte]
    exact lowers_pure (by simp)
  case slice =>
    intro hint elem hByte hElem
    unfold ModuleView.lower
    rw [if_neg hByte]
    exact hElem.map (by simp)
  case array =>
    intro hint len elem hElem
    unfold ModuleView.lower
    exact hElem.map (by simp)
  case map =>
    intro hint key value hKey hValue
    unfold ModuleView.lower
    exact lowers_map hKey hValue
  case interface | union | tilde =>
    intros
    unfold ModuleView.lower
    exact lowers_any
  case unsupported =>
    intro hint text
    unfold ModuleView.lower
    exact lowers_unsupported x hint text
  case ident =>
    intro hint name
    unfold ModuleView.lower
    exact lowers_ident x hint name
  case qualified =>
    intro hint package name
    unfold ModuleView.lower
    exact lowers_names x hint _
  case generic =>
    intro hint base args
    unfold ModuleView.lower
    exact lowers_names x hint _
  case noField =>
    intro owner
    unfold ModuleView.lowerFields
    exact lowers_noMembers
  case field =>
    intro owner f rest hFirst hMore
    unfold ModuleView.lowerFields
    exact lowers_append hFirst hMore
  case unnamed =>
    intro owner type tag doc hName hOwn
    unfold ModuleView.lowerField
    rw [hName]
    exact lowers_noMembers
  case skipped =>
    intro owner type tag doc facts name hName hSkip hOwn
    unfold ModuleView.lowerField
    rw [hName]
    dsimp only
    rw [if_pos hSkip]
    exact lowers_noMembers
  case renamed =>
    intro owner type tag doc facts name hName hKept hWire hOwn
    unfold ModuleView.lowerField
    rw [hName]
    dsimp only
    rw [if_neg hKept, if_pos hWire]
    exact lowers_noParentOr
      (lowers_exported name facts doc (hOwn name))
  case embedded =>
    intro owner type tag doc facts name hName hKept hWire hOwn
      hType
    have hSelf := lowers_exported name facts doc (hOwn name)
    unfold ModuleView.lowerField
    rw [hName]
    dsimp only
    rw [if_neg hKept, if_neg hWire]
    apply (lowers_isStruct x type).bind
    intro found
    cases found with
    | true => exact lowers_embedded hType hSelf
    | false => exact lowers_noParentOr hSelf
  case named =>
    intro owner type tag doc names hNone hSome hOwn
    have hEach : ∀ name ∈ names.filter isExported,
        Lowers AnyFault Tracked Members.IsPlainOver
          (do
            let t ← v.lower x (owner.name ++ "_" ++ name) type
            pure
              ([taggedField name (FieldFacts.ofTag tag) t doc],
                [])) := by
      intro name _
      exact lowers_tagged (hOwn name) name _ doc
    have hAll := lowers_mapM
      (fun _ _ _ h hMore => h.mono hMore) hEach
    have hFolded := hAll.map
      (f := fun parts => parts.foldl Members.append ([], []))
      fun _ _ h =>
        Members.isPlainOver_foldl Members.isPlainOver_nil h
    unfold ModuleView.lowerField
    cases names with
    | nil =>
        cases hName : ModuleView.embeddedName? type with
        | none => exact absurd hName (hNone rfl)
        | some name => exact absurd hName (hSome name rfl)
    | cons name rest => exact hFolded

end WireSchema.Source
