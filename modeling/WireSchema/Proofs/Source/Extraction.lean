import WireSchema.Proofs.Outcome
import WireSchema.Proofs.Source.Lower
import WireSchema.Proofs.TypeExpr.Names
import WireSchema.Proofs.Validation.Checks
import WireSchema.Source.Bound
import WireSchema.Source.Enumeration
import WireSchema.Source.Extraction

/-
  Schemas extracted from sources are complete.

  A bound may hold unions, but no declaration.  The depth
  that is left bounds the bounds inside each other, so the
  induction is on it and not on the types.

  Key definitions include:
    * `WireType.IsExpressionOver`
    * `Source.requests`
    * `FileTree.extractWithin_outcome`
-/

namespace WireSchema

------------------------------------------------------------
-- Expressions over Names
------------------------------------------------------------

/- An expression that refers to given names only. -/
structure WireType.IsExpressionOver
    (names : List TypeName)
    (t : WireType) : Prop where
  expression : t.IsExpression
  within : t.references ⊆ names

namespace WireType

variable {names more : List TypeName}
variable {t : WireType}

theorem IsPlainOver.isExpressionOver
    (h : t.IsPlainOver names) : t.IsExpressionOver names :=
  ⟨h.plain.1, h.within⟩

theorem IsExpressionOver.mono
    (h : t.IsExpressionOver names)
    (hMore : names ⊆ more) : t.IsExpressionOver more :=
  ⟨h.expression, List.Subset.trans h.within hMore⟩

theorem isExpressionOver_union (members : List WireType) :
    (union members).IsExpressionOver names ↔
      ∀ t ∈ members, t.IsExpressionOver names := by
  constructor
  · rintro ⟨hExpression, hWithin⟩ t ht
    rw [isExpression_union] at hExpression
    refine ⟨hExpression t ht, ?_⟩
    intro id hId
    apply hWithin
    rw [references_union]
    exact List.mem_flatMap.mpr ⟨t, ht, hId⟩
  · intro h
    refine ⟨?_, ?_⟩
    · rw [isExpression_union]
      intro t ht
      exact (h t ht).expression
    · intro id hId
      rw [references_union, List.mem_flatMap] at hId
      rcases hId with ⟨t, ht, hId⟩
      exact (h t ht).within hId

end WireType

theorem BoundsOver.mono
    {bound : WireType → Prop}
    {names more : List TypeName}
    {params : List (TypeParam WireType)}
    (h : BoundsOver bound names params)
    (hMore : names ⊆ more) :
    BoundsOver bound more params :=
  ⟨h.kind,
    fun p hp => List.Subset.trans (h.within p hp) hMore⟩

namespace Source

open Walk

variable {v : ModuleView}
variable {names : List TypeName}

------------------------------------------------------------
-- Bounds
------------------------------------------------------------

/- A bound, if there is one, is an expression over names. -/
abbrev IsBoundOver
    (names : List TypeName)
    (b : Option WireType) : Prop :=
  ∀ t ∈ b, t.IsExpressionOver names

/- All terms of a bound are expressions over names. -/
abbrev AreTermsOver
    (names : List TypeName)
    (ts : List WireType) : Prop :=
  ∀ t ∈ ts, t.IsExpressionOver names

theorem isBoundOver_boundOfTerms
    {ts : List WireType}
    (h : AreTermsOver names ts) :
    IsBoundOver names (boundOfTerms ts) := by
  intro t ht
  unfold boundOfTerms at ht
  split at ht
  · cases ht
  · next only =>
      cases ht
      exact h t List.mem_cons_self
  · cases ht
    exact (WireType.isExpressionOver_union ts).mpr h

theorem areTermsOver_termsOfBound
    {b : Option WireType}
    (h : IsBoundOver names b) :
    AreTermsOver names (termsOfBound b) := by
  unfold termsOfBound
  split
  · exact List.forall_mem_nil _
  · next ts =>
      exact (WireType.isExpressionOver_union ts).mp (h _ rfl)
  · next t _ =>
      intro u hu
      rw [List.mem_singleton.mp hu]
      exact h t rfl

/- What is lowered may stand in a bound. -/
theorem lowers_asBound
    {t : ModuleStep WireType}
    (ht : Lowers AnyFault Tracked WireType.IsPlainOver t) :
    Lowers AnyFault Tracked IsBoundOver
      (do let t ← t; pure (some t)) := by
  apply ht.map
  rintro names t hGood u hu
  cases hu
  exact hGood.isExpressionOver

theorem lowers_noBound :
    Lowers AnyFault Tracked IsBoundOver (pure none) :=
  lowers_pure fun _ => nofun

/- The terms of the parts of a bound, taken together. -/
theorem lowers_terms
    {f : SourceType → ModuleStep (List WireType)}
    (hf : ∀ t, Lowers AnyFault Tracked AreTermsOver (f t))
    (items : List SourceType) :
    Lowers AnyFault Tracked
      (fun names terms => AreTermsOver names terms.flatten)
      (items.mapM f) := by
  have hMono : ∀ names more ts, AreTermsOver names ts →
      names ⊆ more → AreTermsOver more ts := by
    intro names more ts h hMore t ht
    exact (h t ht).mono hMore
  apply (lowers_mapM hMono fun t _ => hf t).imp
  intro names terms h t ht
  rcases List.mem_flatten.mp ht with ⟨ts, hts, ht⟩
  exact h ts hts t ht

/- A bound, from bounds and terms with one step less. -/
theorem lowers_bound_succ
    {depth : Nat}
    (hBound : ∀ x t, Lowers AnyFault Tracked IsBoundOver
      (v.lowerBound depth x t))
    (hTerm : ∀ x t, Lowers AnyFault Tracked AreTermsOver
      (v.lowerTerm depth x t))
    (x : SourceScope)
    (t : SourceType) :
    Lowers AnyFault Tracked IsBoundOver
      (v.lowerBound (depth + 1) x t) := by
  have hType := (lowers_types (v := v) x).1
  have hTerms := lowers_terms (hTerm x)
  cases t with
  | ident name =>
      unfold ModuleView.lowerBound
      split
      · exact lowers_noBound
      · split
        · exact hBound _ _
        · exact lowers_asBound (hType _ _)
  | qualified package name =>
      unfold ModuleView.lowerBound
      split
      · exact lowers_noBound
      · apply (lowers_package _).bind
        intro found
        split
        · exact lowers_noBound
        · split
          · exact hBound _ _
          · exact lowers_asBound (hType _ _)
  | interface elems hasMethods =>
      unfold ModuleView.lowerBound
      apply (hTerms elems).map
      intro names terms h
      exact isBoundOver_boundOfTerms h
  | union items =>
      unfold ModuleView.lowerBound
      apply (hTerms items).map
      intro names terms h
      exact isBoundOver_boundOfTerms h
  | _ =>
      unfold ModuleView.lowerBound
      exact lowers_asBound (hType _ _)

/- The terms of a bound, with one step less for its parts. -/
theorem lowers_term_succ
    {depth : Nat}
    (hBound : ∀ x t, Lowers AnyFault Tracked IsBoundOver
      (v.lowerBound depth x t))
    (hTerm : ∀ x t, Lowers AnyFault Tracked AreTermsOver
      (v.lowerTerm depth x t))
    (x : SourceScope)
    (t : SourceType) :
    Lowers AnyFault Tracked AreTermsOver
      (v.lowerTerm (depth + 1) x t) := by
  cases t with
  | union items =>
      unfold ModuleView.lowerTerm
      exact (lowers_terms (hTerm x) items).map fun _ _ h => h
  | tilde elem =>
      unfold ModuleView.lowerTerm
      apply ((lowers_types (v := v) x).1 _ elem).map
      intro names t hGood u hu
      rw [List.mem_singleton.mp hu]
      exact hGood.isExpressionOver
  | _ =>
      unfold ModuleView.lowerTerm
      apply (hBound x _).map
      intro names b h
      exact areTermsOver_termsOfBound h

theorem lowers_bounds (depth : Nat) :
    (∀ x t,
      Lowers AnyFault Tracked IsBoundOver
        (v.lowerBound depth x t))
      ∧ ∀ x t,
        Lowers AnyFault Tracked AreTermsOver
          (v.lowerTerm depth x t) := by
  induction depth with
  | zero =>
      constructor
      · intro x t
        unfold ModuleView.lowerBound
        exact lowers_fault trivial
      · intro x t
        unfold ModuleView.lowerTerm
        exact lowers_fault trivial
  | succ depth ih =>
      exact ⟨lowers_bound_succ ih.1 ih.2,
        lowers_term_succ ih.1 ih.2⟩

------------------------------------------------------------
-- Enumerations
------------------------------------------------------------

theorem lowers_members
    (id : TypeName)
    (kind : BaseKind)
    (table : ConstTable)
    (consts : List ConstSource) :
    Lowers AnyFault Tracked (fun _ _ => True)
      (membersOf id kind table consts) := by
  fun_induction membersOf id kind table consts with
  | case1 => exact lowers_pure (by simp)
  | case2 c rest hBlank ih => exact ih
  | case3 c rest hName m hMember ih => exact ih.map (by simp)
  | case4 c rest hName w hMember ih =>
      exact lowers_note stable_sound ih

/- An enumeration is declared by the name it is made for. -/
theorem lowers_enumeration
    (p : PackageSource)
    (id : TypeName)
    (d : TypeSource) :
    Lowers AnyFault Tracked
      (fun _ t? => ∀ t ∈ t?, ∃ e : EnumDecl,
        t = .enum e ∧ e.id = id)
      (enumeration p id d) := by
  unfold enumeration
  split
  · exact lowers_pure (by simp)
  · apply (lowers_members _ _ _ _).bind
    intro members
    split
    · exact lowers_pure (by simp)
    · apply lowers_pure
      intro _ t ht
      cases ht
      exact ⟨_, rfl, rfl⟩

------------------------------------------------------------
-- Declarations
------------------------------------------------------------

/- The parameters of a declaration, with their bounds. -/
theorem lowers_params
    (depth : Nat)
    (x : SourceScope)
    (ps : List SourceParam) :
    Lowers AnyFault Tracked
      (BoundsOver WireType.IsExpression)
      (v.lowerParams depth x ps) := by
  induction ps with
  | nil => exact lowers_pure fun _ => boundsOver_nil
  | cons p rest ih =>
      have hBound := (lowers_bounds (v := v) depth).1 x
      unfold ModuleView.lowerParams
      apply (hBound p.bound).map₂ _ ih
      · intro names b ps hb hps
        constructor
        · intro q hq t ht
          rcases List.mem_cons.mp hq with rfl | hq
          · exact (hb t ht).expression
          · exact hps.kind q hq t ht
        · intro q hq
          rcases List.mem_cons.mp hq with rfl | hq
          · cases b with
            | none => exact List.nil_subset _
            | some t => exact (hb t rfl).within
          · exact hps.within q hq
      · intro names more b hb hMore t ht
        exact (hb t ht).mono hMore

/- A declaration of a name, over the names that are taken. -/
abbrev Declares
    (id : TypeName)
    (names : List TypeName)
    (t : WireType) : Prop :=
  t.id? = some id ∧ t.IsDeclOver WireType.IsExpression names

theorem yields_lowerSynonym
    {x : SourceScope}
    {id : TypeName}
    {params : List (TypeParam WireType)}
    {d : TypeSource}
    {pending : List TypeName}
    {y z : Walk Instance Loaded}
    (hz : Tracked pending z)
    (hyz : y.Within z)
    (hParams : BoundsOver WireType.IsExpression y.taken params)
    (enum? : Option WireType)
    (hEnum : ∀ t ∈ enum?, ∃ e : EnumDecl,
      t = .enum e ∧ e.id = id) :
    Yields AnyFault (v.lowerSynonym x id params d enum?) z
      fun t w => Tracked pending w ∧ y.Within w
        ∧ Declares id w.taken t := by
  unfold ModuleView.lowerSynonym
  split
  · next t =>
      rcases hEnum t rfl with ⟨e, rfl, rfl⟩
      apply yields_pure
      exact ⟨hz, hyz, rfl, WireType.isDeclOver_enum e⟩
  · apply yields_bind
    apply ((lowers_types (v := v) x).1 id.name d.type
      pending z hz).imp
    rintro target w ⟨hw, hzw, hGood⟩
    apply yields_pure
    have hyw := hyz.trans hzw
    exact ⟨hw, hyw, rfl,
      WireType.isDeclOver_synonym (hParams.mono hyw.taken)
        hGood⟩

/-
  What a declaration becomes has its name, with parameters
  over names that are taken already.
-/
theorem yields_lowerDecl
    {x : SourceScope}
    {id : TypeName}
    {params : List (TypeParam WireType)}
    {d : TypeSource}
    {pending : List TypeName}
    {y : Walk Instance Loaded}
    (hy : Tracked pending y)
    (hParams : BoundsOver WireType.IsExpression y.taken params) :
    Yields AnyFault (v.lowerDecl x id params d) y fun t z =>
      Tracked pending z ∧ y.Within z
        ∧ Declares id z.taken t := by
  have hTypes := lowers_types (v := v) x
  unfold ModuleView.lowerDecl
  split
  · next fields hStruct =>
      apply yields_bind
      apply (hTypes.2.1 id fields pending y hy).imp
      rintro ⟨fields, parents⟩ z ⟨hz, hyz, hGood⟩
      apply yields_pure
      exact ⟨hz, hyz, rfl,
        WireType.isDeclOver_record (hParams.mono hyz.taken)
          hGood⟩
  · split
    · apply yields_bind
      apply (lowers_enumeration _ id d pending y hy).imp
      rintro enum? z ⟨hz, hyz, hEnum⟩
      exact yields_lowerSynonym hz hyz hParams enum? hEnum
    · apply yields_bind
      apply yields_pure
      exact yields_lowerSynonym hy (.refl y) hParams
        none nofun

/- An item is declared by the name that is pending for it. -/
theorem yields_declareInstance
    {depth : Nat}
    {i : Instance}
    {x : Walk Instance Loaded}
    (hx : Tracked [i.id] x) :
    Yields AnyFault (v.declareInstance depth i) x fun _ y =>
      Tracked [] y ∧ x.Within y := by
  unfold ModuleView.declareInstance
  apply yields_bind
  apply (lowers_package i.space _ x hx).imp
  rintro package y ⟨hy, hxy, -⟩
  split
  · split
    · exact yields_fault trivial
    · next p file d hPackage hFound bindings hBindings =>
        have hDeclared : ∀ (scope : SourceScope) params y,
            Tracked [i.id] y → x.Within y →
            BoundsOver WireType.IsExpression y.taken params →
            Yields AnyFault
              (do
                let t ← v.lowerDecl scope i.id params d
                declare t)
              y fun _ z =>
                Tracked [] z ∧ x.Within z := by
          intro scope params y hy hxy hParams
          apply yields_bind
          apply (yields_lowerDecl hy hParams).imp
          rintro t z ⟨hz, hyz, hId, hDecl⟩
          exact yields_declareOver stable_sound hz
            (hxy.trans hyz) hId hDecl
        dsimp only
        split
        · apply yields_bind
          apply (lowers_params _ _ d.params _ y hy).imp
          rintro params z ⟨hz, hyz, hParams⟩
          exact hDeclared _ params z hz (hxy.trans hyz)
            hParams
        · apply yields_bind
          apply yields_pure
          exact hDeclared _ [] y hy hxy boundsOver_nil
  · exact yields_fault trivial

------------------------------------------------------------
-- Requests
------------------------------------------------------------

theorem lowers_requireSpace (space : String) :
    Lowers AnyFault Tracked (fun _ _ => True)
      (v.requireSpace space) := by
  unfold ModuleView.requireSpace
  apply (lowers_package space).bind
  intro found
  split
  · exact lowers_fault trivial
  · have hEach : ∀ (d : TypeSource),
        Lowers AnyFault Tracked (fun _ _ => True)
          (do
            let _ ← Instance.enqueue { space, name := d.name }) := by
      intro d
      apply (lowers_instance _).bind
      intro id
      exact lowers_pure (by simp)
    apply lowers_each
    intro d _
    exact hEach d

theorem lowers_checkRoot (space name text : String) :
    Lowers AnyFault Tracked (fun _ _ => True)
      (v.checkRoot space name text) := by
  have hFound : ∀ package : Option PackageSource,
      Lowers AnyFault Tracked (fun _ _ => True)
        (if (package.bind fun p => p.find? name).isSome then
          pure ()
        else fault (.unresolved text)) := by
    intro package
    split
    · exact lowers_pure (by simp)
    · exact lowers_fault trivial
  unfold ModuleView.checkRoot
  split
  · exact lowers_noPackage.bind hFound
  · exact (lowers_package space).bind hFound

/-
  The names that the type of a root refers to will be
  declared, though nothing is known of them yet.
-/
theorem lowers_roots :
    (∀ t,
      Lowers AnyFault Tracked
        (fun names _ => (t.wireType v.known).references ⊆ names)
        (v.require t))
      ∧ ∀ args,
        Lowers AnyFault Tracked (fun _ _ => True)
          (v.requireArgs args) := by
  refine ModuleView.require.mutual_induct v _ _
    ?known ?named ?pointer ?slice ?array ?map ?builtin ?other
    ?param ?noArg ?arg
  case known =>
    intro space name args hKnown
    unfold ModuleView.require
    rw [if_pos hKnown,
      TypeExpr.references_wireType_known args hKnown]
    exact lowers_pure fun _ => List.nil_subset _
  case named =>
    intro space name args hUnknown hArgs
    unfold ModuleView.require
    rw [if_neg hUnknown,
      TypeExpr.references_wireType_named args hUnknown]
    apply (lowers_checkRoot space name _).bind
    intro _
    apply hArgs.bind
    intro _
    apply (lowers_instance { space, name, args }).map
    rintro names id ⟨rfl, hId⟩
    rw [List.cons_subset]
    exact ⟨hId, List.nil_subset _⟩
  case pointer =>
    intro elem hElem
    unfold ModuleView.require
    simpa using hElem
  case slice =>
    intro elem hElem
    unfold ModuleView.require
    simpa using hElem
  case array =>
    intro len elem hElem
    unfold ModuleView.require
    simpa using hElem
  case map =>
    intro key value hKey hValue pending x hx
    unfold ModuleView.require
    apply yields_bind
    apply (hKey pending x hx).imp
    rintro _ y ⟨hy, hxy, hAsked⟩
    apply (hValue pending y hy).imp
    rintro _ z ⟨hz, hyz, hMore⟩
    refine ⟨hz, hxy.trans hyz, ?_⟩
    rw [TypeExpr.references_wireType_map]
    exact List.append_subset.mpr
      ⟨List.Subset.trans hAsked hyz.taken, hMore⟩
  case builtin =>
    intro name hName
    unfold ModuleView.require
    rw [if_pos hName]
    exact lowers_pure (by simp)
  case other =>
    intro name hName
    unfold ModuleView.require
    rw [if_neg hName]
    exact lowers_fault trivial
  case param =>
    intro name
    unfold ModuleView.require
    exact lowers_pure (by simp)
  case noArg =>
    unfold ModuleView.requireArgs
    exact lowers_pure (by simp)
  case arg =>
    intro arg rest hArg hRest
    unfold ModuleView.requireArgs
    exact hArg.bind fun _ => hRest

/- What a walk asks for before it declares anything. -/
def requests (v : ModuleView) (r : ExtractionRequest) :
    ModuleStep Unit := do
  r.scope.forM v.requireSpace
  r.roots.forM v.require

theorem walk_eq (depth count : Nat) (r : ExtractionRequest) :
    v.walk depth count r =
      (do
        requests v r
        drain (v.declareInstance depth) count) := by
  unfold ModuleView.walk requests
  rw [bind_assoc]

/- All that roots refer to will be declared. -/
theorem lowers_requests (r : ExtractionRequest) :
    Lowers AnyFault Tracked
      (fun names _ => ∀ t ∈ r.roots,
        (t.wireType v.known).references ⊆ names)
      (requests v r) := by
  have hScope :
      Lowers AnyFault Tracked (fun _ _ => True)
        (r.scope.forM v.requireSpace) :=
    lowers_each fun space _ => lowers_requireSpace space
  apply hScope.bind
  intro _
  apply lowers_forM fun t names =>
    (TypeExpr.wireType v.known t).references ⊆ names
  · intro t names more hAsked hMore
    exact List.Subset.trans hAsked hMore
  · intro t _
    exact lowers_roots.1 t

------------------------------------------------------------
-- Runs
------------------------------------------------------------

/-
  A run that ends leaves nothing in the queue, and what the
  roots refer to is declared.
-/
theorem yields_walk (depth count : Nat) (r : ExtractionRequest) :
    Yields AnyFault (v.walk depth count r) { memory := [] }
      fun _ y =>
        Tracked [] y ∧ y.queue = []
          ∧ ∀ t ∈ r.roots,
            (t.wireType v.known).references ⊆ y.taken := by
  have hRequests := lowers_requests (v := v) r [] _ (sound_init [])
  rw [walk_eq]
  apply yields_bind
  apply hRequests.imp
  rintro _ x ⟨hx, -, hAsked⟩
  let Inv := fun (_ : Nat) (y : Walk Instance Loaded) =>
    Tracked [] y ∧ x.Within y
  have hStart : Inv count x := ⟨hx, .refl x⟩
  refine (yields_drain Inv ?_ ?_ _ hStart).imp ?_
  · intro _ _ _
    trivial
  · rintro n y i rest ⟨hy, hxy⟩ hQueue
    apply (yields_declareInstance (hy.dequeue hQueue)).imp
    rintro _ z ⟨hz, hyz⟩
    have hPop := within_dequeue y rest
    exact ⟨hz, hxy.trans (hPop.trans hyz)⟩
  · rintro _ y ⟨hQueue, n, hy, hxy⟩
    refine ⟨hy, hQueue, ?_⟩
    intro t ht
    exact List.Subset.trans (hAsked t ht) hxy.taken

end Source

------------------------------------------------------------
-- Outcomes
------------------------------------------------------------

open Source Walk

section Outcomes

variable {t : FileTree}
variable {read : SourceReader}
variable {root : String}
variable {known : WellKnown}
variable {module : ModuleSource}
variable {depth count : Nat}
variable {r : ExtractionRequest}
variable {s : Schema}

/- Once a module is open, an extraction is a walk. -/
theorem FileTree.extractWithin_eq_finish
    (hOpen : ModuleSource.open? t root = .ok module)
    (hCheck : r.check = .ok ()) :
    t.extractWithin read root known depth count r =
      finish []
        (ModuleView.walk { read, tree := t, module, known }
          depth count r) := by
  unfold FileTree.extractWithin
  rw [hCheck, hOpen]
  rfl

/- A schema is that of a run of the walk through a module. -/
theorem FileTree.run_of_extractWithin
    (h :
      t.extractWithin read root known depth count r = .ok s) :
    ∃ module z, ModuleSource.open? t root = .ok module
      ∧ (ModuleView.walk { read, tree := t, module, known }
          depth count r).run { memory := [] } = .ok ((), z)
      ∧ z.schema = s := by
  unfold FileTree.extractWithin finish at h
  rcases eq_ok_of_bind h with ⟨_, -, h⟩
  rcases eq_ok_of_bind h with ⟨module, hModule, h⟩
  rcases eq_ok_of_bind h with ⟨⟨_, z⟩, hRun, hEnd⟩
  cases hEnd
  exact ⟨module, z, hModule, hRun, rfl⟩

/- A schema comes from a walk that came to its end. -/
theorem FileTree.extractWithin_outcome
    (h :
      t.extractWithin read root known depth count r = .ok s) :
    ∃ y, Tracked [] y ∧ y.queue = [] ∧ y.schema = s
      ∧ ∀ e ∈ r.roots,
        (e.wireType known).references ⊆ y.taken := by
  rcases run_of_extractWithin h with ⟨module, z, -, hRun, rfl⟩
  have hWalk := yields_walk
    (v := { read, tree := t, module, known }) depth count r
  have hEnd := hWalk.of_run_ok hRun
  exact ⟨z, hEnd.1, hEnd.2.1, rfl, hEnd.2.2⟩

end Outcomes

------------------------------------------------------------
-- Completeness
------------------------------------------------------------

/-
  A walk that has ended leaves a schema without services in
  which only encodings and inheritance can be wrong.
-/
theorem Walk.Sound.validate_eq
    {ι σ : Type}
    {idOf : ι → TypeName}
    {bound : WireType → Prop}
    {y : Walk ι σ}
    (h : Sound idOf bound [] y)
    (hQueue : y.queue = []) :
    y.schema.validate =
      y.schema.encodingFaults
        ++ y.schema.circularInheritance := by
  have hChecks := (h.isComplete hQueue).checks_eq_nil
  have hServices : y.schema.serviceFaults = [] := by
    rw [Schema.serviceFaults_eq_nil_iff, h.services]
    simp
  have hUnions : y.schema.unionFaults = [] := by
    rw [Schema.unionFaults_eq_nil_iff, h.services]
    refine ⟨?_, by simp⟩
    intro t ht _
    exact (h.decls t ht).strayUnions_eq_zero
  unfold Schema.validate
  rw [hChecks.1, hChecks.2.1, hChecks.2.2, hServices, hUnions]
  simp

/-
  In a schema that is extracted from sources names are
  distinct, and what a declaration refers to or extends is
  declared, wherever in it the reference stands.  No
  declaration stands inside another one, and unions stand in
  the bounds of parameters only.  The validation therefore
  finds none of these faults.  All of this holds whatever
  reads the texts and whatever the limits are.
-/
theorem FileTree.extractWithin_complete
    {t : FileTree}
    {read : SourceReader}
    {root : String}
    {known : WellKnown}
    {depth count : Nat}
    {r : ExtractionRequest}
    {s : Schema}
    (hOk :
      t.extractWithin read root known depth count r = .ok s) :
    s.names.Nodup
      ∧ (∀ d ∈ s.types,
        (∀ id ∈ d.dependencies, id ∈ s.names)
          ∧ (∀ u ∈ d.walk.tail, u.id? = none)
          ∧ d.IsPlainDecl WireType.IsExpression
          ∧ d.strayUnions false = 0)
      ∧ ∀ v ∈ s.validate,
        v.code ∉
          ["duplicate_type", "missing_type_reference",
            "missing_extends_reference", "illegal_union"] := by
  rcases extractWithin_outcome hOk with
    ⟨y, hSound, hQueue, rfl, -⟩
  have hComplete := hSound.isComplete hQueue
  refine ⟨hComplete.distinct, ?declared, ?validated⟩
  case declared =>
    intro d hd
    have hDecl := hSound.decls d hd
    refine ⟨hComplete.closed d hd, ?_, hDecl,
      hDecl.strayUnions_eq_zero⟩
    intro u hu
    exact hDecl.id?_eq_none (fun _ h => h) hu
  case validated =>
    intro v hv
    rw [hSound.validate_eq hQueue, List.mem_append] at hv
    rcases hv with hv | hv
    · rw [Schema.code_of_mem_encodingFaults hv]
      decide
    · rw [Schema.code_of_mem_circularInheritance hv]
      decide

/- A generic type with a bound and a struct without a name. -/
def boxTree : FileTree :=
  { entries :=
      [(["go.mod"], .file "module m\n".toUTF8),
        (["box.go"],
          .file
            ("package m\n"
              ++ "type Num interface \x7b ~int | ~string \x7d\n"
              ++ "type Base struct \x7b ID int \x7d\n"
              ++ "type Box[T Num] struct \x7b\n"
              ++ "Base\n"
              ++ "In struct \x7b Value T \x7d\n"
              ++ "\x7d\n").toUTF8)] }

def boxRequest : ExtractionRequest :=
  { roots := [.named "m" "Box" [.builtin "int"]]
    scope := ["m"] }

theorem extractWithin_complete_box :
    ∃ s,
      boxTree.extractSources "/" .default boxRequest = .ok s
        ∧ s.names.Nodup
        ∧ ∀ v ∈ s.validate, v.code ≠ "illegal_union" := by
  have hNames :
      (boxTree.extractSources "/" .default boxRequest).toOption.map
          (fun s => s.names.map TypeName.name)
        = some
          ["Base", "Box_In", "Box", "Box_int_In", "Box_int"] := by
    decide +kernel
  cases hRun :
      boxTree.extractSources "/" .default boxRequest with
  | error e =>
      rw [hRun] at hNames
      cases hNames
  | ok s =>
      have hComplete := FileTree.extractWithin_complete hRun
      refine ⟨s, rfl, hComplete.1, ?_⟩
      intro v hv hCode
      apply hComplete.2.2 v hv
      rw [hCode]
      decide

end WireSchema
