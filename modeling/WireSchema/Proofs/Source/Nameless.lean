import WireSchema.Proofs.Source.Parts

/-
  Structs without a name in the sources of a module.

  Key definitions include:
    * `Source.nameless`
    * `Source.Reaches`, `Source.Meets`
-/

namespace WireSchema.Source

open Walk ModuleView

variable {v : ModuleView}
variable {pending : List TypeName}

------------------------------------------------------------
-- Structs
------------------------------------------------------------

/- A struct without a name, at a place in a declaration. -/
def nameless
    (v : ModuleView)
    (x : SourceScope)
    (hint : String)
    (fs : List (SourceField SourceType)) :
    NamelessStruct Instance Loaded :=
  let id : TypeName :=
    { name := syntheticName hint, space := x.package.path }
  { id
    lowered := v.lower x hint (.struct fs)
    members := v.lowerFields x id fs
    source := some x.place }

/- It is lowered as every struct without a name is. -/
theorem lowered_nameless
    (v : ModuleView)
    (x : SourceScope)
    (hint : String)
    (fs : List (SourceField SourceType)) :
    (nameless v x hint fs).lowered =
      (nameless v x hint fs).step := by
  unfold nameless NamelessStruct.step lower
  rfl

------------------------------------------------------------
-- Members
------------------------------------------------------------

theorem lowers_namedField
    (x : SourceScope)
    (owner : TypeName)
    (f : SourceField SourceType)
    (name : String) :
    Lowers AnyFault Tracked Members.IsPlainOver
      (namedField v x owner f name) := by
  have hType := (lowers_types (v := v) x).1
  unfold namedField
  exact lowers_tagged (hType _ f.type) name _ f.doc

theorem lowers_parent?
    (x : SourceScope)
    (owner : TypeName)
    (f : SourceField SourceType)
    (name : String) :
    Lowers AnyFault Tracked (fun _ _ => True)
      (parent? v x owner f name) := by
  have hType := (lowers_types (v := v) x).1
  unfold parent?
  split
  · exact lowers_pure fun _ => trivial
  · apply (lowers_isStruct x f.type).bind
    intro found
    cases found with
    | false => exact lowers_pure fun _ => trivial
    | true => exact (hType _ f.type).map fun _ _ _ => trivial

/-
  An embedded type that is lowered has been tried as a parent
  first, and nothing of that is lost.
-/
theorem run_embedded
    {x : SourceScope}
    {owner : TypeName}
    {f : SourceField SourceType}
    {name : String}
    {y z : Walk Instance Loaded}
    {m : Members}
    (hNames : f.names = [])
    (hName : embeddedName? f.type = some name)
    (hKept : ¬(FieldFacts.ofTag f.tag).wire.skip)
    (hy : Tracked pending y)
    (hRun : (v.lowerField x owner f).run y = .ok (m, z)) :
    ∃ p w, (parent? v x owner f name).run y = .ok (p, w)
      ∧ w.Within z
      ∧ (p = none → isExported name →
        (namedField v x owner f name).run w = .ok (m, z)) := by
  rw [lowerField_embedded hNames hName, if_neg hKept] at hRun
  rcases run_bind_eq_ok hRun with ⟨p, w, hParent, hRun⟩
  have hw := ((lowers_parent? x owner f name).of_run hy hParent).1
  cases p with
  | some parent =>
      cases hRun
      exact ⟨some parent, z, hParent, .refl z, nofun⟩
  | none =>
      have hType := (lowers_types (v := v) x).1
        (owner.name ++ "_" ++ name) f.type
      have hOwn := lowers_exported name (.ofTag f.tag) f.doc hType
      have hwz := (hOwn.of_run hw hRun).2.1
      refine ⟨none, w, hParent, hwz, ?_⟩
      intro _ hExported
      simpa only [hExported, if_true] using hRun

/-
  What a type or a member enters comes to its end before it
  does, and begins in a state that is as sound.
-/
theorem completes_of_entersType
    {p q : Part × Walk Instance Loaded}
    {z : Walk Instance Loaded}
    (hEnters : EntersType v p q)
    (hTracked : Tracked pending p.2)
    (hEnds : p.1.Ends v p.2 z) :
    Completes Tracked (Part.Ends v) z q := by
  cases hEnters with
  | pointer =>
      rcases hEnds with ⟨t, hRun⟩
      unfold lower at hRun
      have hElem := run_map_eq_ok hRun
      exact .of_ends hTracked hElem
  | slice hNotByte =>
      rcases hEnds with ⟨t, hRun⟩
      unfold lower at hRun
      rw [if_neg hNotByte] at hRun
      have hElem := run_map_eq_ok hRun
      exact .of_ends hTracked hElem
  | array =>
      rcases hEnds with ⟨t, hRun⟩
      unfold lower at hRun
      have hElem := run_map_eq_ok hRun
      exact .of_ends hTracked hElem
  | @key y x hint key value =>
      have hType := (lowers_types (v := v) x).1 hint
      rcases hEnds with ⟨t, hRun⟩
      unfold lower at hRun
      have hKey := (hType key).run_first (hType value) hTracked
        hRun
      exact ⟨⟨pending, hTracked⟩, hKey⟩
  | @value y w x hint key value k hKey =>
      have hType := (lowers_types (v := v) x).1 hint
      have hw := ((hType key).of_run hTracked hKey).1
      rcases hEnds with ⟨t, hRun⟩
      unfold lower at hRun
      have hValue := run_map₂_eq_ok hKey hRun
      exact .of_ends hw hValue
  | @struct y x hint fs id hId hFree =>
      subst hId
      rcases hEnds with ⟨t, hRun⟩
      have hStep := lowered_nameless v x hint fs
      rcases NamelessStruct.run_of_not_mem hStep hFree hRun with
        ⟨fields, parents, w, hMembers, hwz, -, -⟩
      have hTaken := hTracked.take hFree
      exact ⟨⟨_, hTaken⟩, w, ⟨_, hMembers⟩, hwz⟩
  | @first y x owner f rest =>
      have hTypes := lowers_types (v := v) x
      rcases hEnds with ⟨m, hRun⟩
      unfold lowerFields at hRun
      have hFirst := (hTypes.2.2 owner f).run_first
        (hTypes.2.1 owner rest) hTracked hRun
      exact ⟨⟨pending, hTracked⟩, hFirst⟩
  | @later y w x owner f rest m hFirst =>
      have hTypes := lowers_types (v := v) x
      have hw := ((hTypes.2.2 owner f).of_run hTracked hFirst).1
      rcases hEnds with ⟨m, hRun⟩
      unfold lowerFields at hRun
      have hLater := run_map₂_eq_ok hFirst hRun
      exact .of_ends hw hLater
  | @parent y w x owner f name hNames hName hKept hWire hStruct =>
      have hStructs := lowers_isStruct (v := v) x f.type
      have hw := (hStructs.of_run hTracked hStruct).1
      rcases hEnds with ⟨m, hRun⟩
      rcases run_embedded hNames hName hKept hTracked hRun with
        ⟨p, u, hParent, huz, -⟩
      unfold parent? at hParent
      rw [if_neg hWire] at hParent
      rcases run_bind_eq_ok hParent with ⟨_, _, hSame, hParent⟩
      rw [hStruct] at hSame
      cases hSame
      have hType := run_map_eq_ok hParent
      exact ⟨⟨pending, hw⟩, u, hType, huz⟩
  | @embedded y w x owner f name hNames hName hKept hNone
      hExported =>
      have hParents := lowers_parent? (v := v) x owner f name
      have hw := (hParents.of_run hTracked hNone).1
      rcases hEnds with ⟨m, hRun⟩
      rcases run_embedded hNames hName hKept hTracked hRun with
        ⟨p, _, hParent, -, hOwn⟩
      rw [hNone] at hParent
      cases hParent
      have hType := run_map_eq_ok (hOwn rfl hExported)
      exact .of_ends hw hType
  | @named y w x owner f before after name ms hNames hBefore =>
      have hSome : f.names ≠ [] := by
        intro hNil
        simp [hNil] at hNames
      rcases hEnds with ⟨m, hRun⟩
      rw [lowerField_named hSome, hNames] at hRun
      rcases run_map_eq_ok hRun with ⟨parts, hParts⟩
      rcases Lowers.run_mapM (lowers_namedField x owner f)
        hTracked hBefore hParts with
        ⟨hw, u, ⟨m, hField⟩, huz⟩
      have hType := run_map_eq_ok hField
      exact ⟨⟨pending, hw⟩, u, hType, huz⟩

------------------------------------------------------------
-- Bounds
------------------------------------------------------------

/- What a bound enters comes to its end before it does. -/
theorem completes_of_entersBound
    {p q : Part × Walk Instance Loaded}
    {z : Walk Instance Loaded}
    (hEnters : EntersBound v p q)
    (hTracked : Tracked pending p.2)
    (hEnds : p.1.Ends v p.2 z) :
    Completes Tracked (Part.Ends v) z q := by
  cases hEnters with
  | @first y depth x p rest =>
      have hBound := (lowers_bounds (v := v) depth).1 x
      rcases hEnds with ⟨a, hRun⟩
      unfold lowerParams at hRun
      have hFirst := (hBound p.bound).run_first
        (lowers_params depth x rest) hTracked hRun
      exact ⟨⟨pending, hTracked⟩, hFirst⟩
  | @later y w depth x p rest b hFirst =>
      have hBound := (lowers_bounds (v := v) depth).1 x
      have hw := ((hBound p.bound).of_run hTracked hFirst).1
      rcases hEnds with ⟨a, hRun⟩
      unfold lowerParams at hRun
      have hLater := run_map₂_eq_ok hFirst hRun
      exact .of_ends hw hLater
  | interface hBinds hFound =>
      rcases hEnds with ⟨a, hRun⟩
      unfold lowerBound at hRun
      simp only [if_neg hBinds, hFound] at hRun
      exact .of_ends hTracked ⟨a, hRun⟩
  | ident hBinds hFound =>
      rcases hEnds with ⟨a, hRun⟩
      unfold lowerBound at hRun
      simp only [if_neg hBinds, hFound] at hRun
      have hType := run_map_eq_ok hRun
      exact .of_ends hTracked hType
  | @imported y w depth x s package path name p t hImport
      hPackage hFound =>
      have hw := ((lowers_package path).of_run hTracked
        hPackage).1
      rcases hEnds with ⟨a, hRun⟩
      unfold lowerBound at hRun
      simp only [hImport] at hRun
      rcases run_bind_eq_ok hRun with ⟨_, _, hSame, hRun⟩
      rw [hPackage] at hSame
      cases hSame
      simp only [hFound] at hRun
      exact .of_ends hw ⟨a, hRun⟩
  | @qualified y w depth x package path name p hImport hPackage
      hFound =>
      have hw := ((lowers_package path).of_run hTracked
        hPackage).1
      rcases hEnds with ⟨a, hRun⟩
      unfold lowerBound at hRun
      simp only [hImport] at hRun
      rcases run_bind_eq_ok hRun with ⟨_, _, hSame, hRun⟩
      rw [hPackage] at hSame
      cases hSame
      simp only [hFound] at hRun
      have hType := run_map_eq_ok hRun
      exact .of_ends hw hType
  | @part y w depth x t u before after ts hParts hBefore =>
      have hTerm := (lowers_bounds (v := v) depth).2 x
      rcases hEnds with ⟨a, hRun⟩
      rw [lowerBound_parts hParts] at hRun
      rcases run_map_eq_ok hRun with ⟨terms, hTerms⟩
      rcases Lowers.run_mapM hTerm hTracked hBefore hTerms with
        ⟨hw, hTermRun⟩
      exact ⟨⟨pending, hw⟩, hTermRun⟩
  | tilde =>
      rcases hEnds with ⟨a, hRun⟩
      unfold lowerBound at hRun
      have hType := run_map_eq_ok hRun
      exact .of_ends hTracked hType
  | plain hPlain =>
      rcases hEnds with ⟨a, hRun⟩
      rw [lowerBound_plain hPlain] at hRun
      have hType := run_map_eq_ok hRun
      exact .of_ends hTracked hType
  | @termPart y w depth x u before after ts hBefore =>
      have hTerm := (lowers_bounds (v := v) depth).2 x
      rcases hEnds with ⟨a, hRun⟩
      unfold lowerTerm at hRun
      rcases run_map_eq_ok hRun with ⟨terms, hTerms⟩
      rcases Lowers.run_mapM hTerm hTracked hBefore hTerms with
        ⟨hw, hTermRun⟩
      exact ⟨⟨pending, hw⟩, hTermRun⟩
  | termTilde =>
      rcases hEnds with ⟨a, hRun⟩
      unfold lowerTerm at hRun
      have hType := run_map_eq_ok hRun
      exact .of_ends hTracked hType
  | termBound hUnion hTilde =>
      rcases hEnds with ⟨a, hRun⟩
      rw [lowerTerm_bound hUnion hTilde] at hRun
      have hBound := run_map_eq_ok hRun
      exact .of_ends hTracked hBound

------------------------------------------------------------
-- Declarations
------------------------------------------------------------

theorem lowers_located (i : Instance) :
    Lowers AnyFault Tracked (fun _ _ => True)
      (located v i) := by
  unfold located
  apply (lowers_package i.space).bind
  intro package
  split
  · split
    · exact lowers_fault trivial
    · exact lowers_pure fun _ => trivial
  · exact lowers_fault trivial

theorem lowers_itemParams
    (depth : Nat)
    (i : Instance)
    (x : SourceScope)
    (d : TypeSource) :
    Lowers AnyFault Tracked (BoundsOver WireType.IsExpression)
      (itemParams v depth i x d) := by
  unfold itemParams
  split
  · exact lowers_params depth x d.params
  · exact lowers_pure fun _ => boundsOver_nil

theorem lowers_enum?
    (x : SourceScope)
    (id : TypeName)
    (params : List (TypeParam WireType))
    (d : TypeSource) :
    Lowers AnyFault Tracked (fun _ _ => True)
      (enum? x id params d) := by
  unfold enum?
  split
  · exact (lowers_enumeration _ id d).imp fun _ _ _ => trivial
  · exact lowers_pure fun _ => trivial

/-
  An item that is declared has been located, its parameters
  and then the declaration have been lowered, and nothing of
  that is lost.
-/
theorem run_item
    {depth : Nat}
    {i : Instance}
    {x : SourceScope}
    {d : TypeSource}
    {y z e : Walk Instance Loaded}
    (hy : Tracked pending y)
    (hFound : (located v i).run y = .ok ((x, d), z))
    (hRun : (v.declareInstance depth i).run y = .ok ((), e)) :
    Tracked pending z
      ∧ ∃ params w,
        (itemParams v depth i x d).run z = .ok (params, w)
        ∧ Tracked pending w ∧ w.Within e
        ∧ ∃ t u, (v.lowerDecl x i.id params d).run w =
            .ok (t, u)
          ∧ u.Within e ∧ t ∈ e.schema.types
          ∧ t.id? = some i.id := by
  have hz := ((lowers_located i).of_run hy hFound).1
  rw [declareInstance_eq] at hRun
  rcases run_bind_eq_ok hRun with ⟨_, _, hSame, hRun⟩
  rw [hFound] at hSame
  cases hSame
  rcases run_bind_eq_ok hRun with ⟨params, w, hParams, hRun⟩
  rcases run_bind_eq_ok hRun with ⟨t, u, hDecl, hDeclare⟩
  rcases (lowers_itemParams depth i x d).of_run hz hParams with
    ⟨hw, -, hBounds⟩
  rcases (yields_lowerDecl hw hBounds).of_run_ok hDecl with
    ⟨-, hwu, hId, -⟩
  have hLater := within_of_run_declare hDeclare
  exact ⟨hz, params, w, hParams, hw, hwu.trans hLater.1,
    t, u, hDecl, hLater.1, hLater.2, hId⟩

/- What a part enters comes to its end before it does. -/
theorem completes_of_enter
    {p q : Part × Walk Instance Loaded}
    {z : Walk Instance Loaded}
    (hEnter : Enters v p q)
    (hTracked : Tracked pending p.2)
    (hEnds : p.1.Ends v p.2 z) :
    Completes Tracked (Part.Ends v) z q := by
  cases hEnter with
  | params hFound hGeneric =>
      rcases run_item hTracked hFound hEnds with
        ⟨hy, params, w, hParams, -, hwz, -⟩
      unfold itemParams at hParams
      rw [if_pos hGeneric] at hParams
      exact ⟨⟨pending, hy⟩, w, ⟨params, hParams⟩, hwz⟩
  | decl hFound hParams =>
      rcases run_item hTracked hFound hEnds with
        ⟨-, _, _, hSame, hw, -, t, u, hDecl, huz, -, -⟩
      rw [hParams] at hSame
      cases hSame
      exact ⟨⟨pending, hw⟩, u, ⟨t, hDecl⟩, huz⟩
  | struct hType =>
      rcases hEnds with ⟨t, hRun⟩
      unfold lowerDecl at hRun
      rw [hType] at hRun
      rcases run_bind_eq_ok hRun with ⟨m, w, hMembers, hEnd⟩
      cases hEnd
      exact .of_ends hTracked ⟨m, hMembers⟩
  | @synonym y w x id params d hType hEnum =>
      have hw := ((lowers_enum? x id params d).of_run hTracked
        hEnum).1
      rcases hEnds with ⟨t, hRun⟩
      rw [lowerDecl_eq hType] at hRun
      rcases run_bind_eq_ok hRun with ⟨_, _, hSame, hRun⟩
      rw [hEnum] at hSame
      cases hSame
      have hTarget := run_map_eq_ok hRun
      exact .of_ends hw hTarget
  | type hEnters =>
      exact completes_of_entersType hEnters hTracked hEnds
  | bound hEnters =>
      exact completes_of_entersBound hEnters hTracked hEnds

------------------------------------------------------------
-- Runs
------------------------------------------------------------

/-
  The run of a request comes to a state between two
  declarations.
-/
def Reaches
    (v : ModuleView)
    (depth : Nat)
    (r : ExtractionRequest)
    (y : Walk Instance Loaded) : Prop :=
  ∃ x spent, (requests v r).run { memory := [] } = .ok ((), x)
    ∧ Drains (v.declareInstance depth) x spent y

/-
  The run of a request meets a struct without a name in a
  state, on the way of a declaration.
-/
inductive Meets
    (v : ModuleView)
    (depth : Nat)
    (r : ExtractionRequest) :
    NamelessStruct Instance Loaded →
      Walk Instance Loaded → Prop where
  | intro
      {y z : Walk Instance Loaded}
      {i : Instance}
      {rest : List Instance}
      {x : SourceScope}
      {hint : String}
      {fs : List (SourceField SourceType)}
      (hReaches : Reaches v depth r y)
      (hQueue : y.queue = i :: rest)
      (hEnters :
        Relation.ReflTransGen (Enters v)
          (.item depth i, { y with queue := rest })
          (.type x hint (.struct fs), z)) :
      Meets v depth r (nameless v x hint fs) z

variable {depth count : Nat}
variable {r : ExtractionRequest}

/- Every state that is reached is sound. -/
theorem tracked_of_reaches
    {y : Walk Instance Loaded}
    (h : Reaches v depth r y) : Tracked [] y := by
  rcases h with ⟨x, spent, hRequests, hDrains⟩
  induction hDrains with
  | start =>
      have hStart := lowers_requests (v := v) r [] _
        (sound_init [])
      exact (hStart.of_run_ok hRequests).1
  | step hReached hQueue hRun ih =>
      have hPopped := ih.dequeue hQueue
      exact ((yields_declareInstance hPopped).of_run_ok hRun).1

/-
  A run that comes to its end completes each item that it has
  taken from the queue.
-/
theorem completes_item
    {i : Instance}
    {rest : List Instance}
    {y z : Walk Instance Loaded}
    (hRun : (v.walk depth count r).run { memory := [] } = .ok ((), z))
    (hReaches : Reaches v depth r y)
    (hQueue : y.queue = i :: rest) :
    Completes Tracked (Part.Ends v) z
      (.item depth i, { y with queue := rest }) := by
  have hy := tracked_of_reaches hReaches
  rcases hReaches with ⟨x, spent, hRequests, hDrains⟩
  rw [walk_eq] at hRun
  rcases run_bind_eq_ok hRun with ⟨_, _, hSame, hDrain⟩
  rw [hRequests] at hSame
  cases hSame
  have hStep : ∀ y i rest, Tracked [] y → y.queue = i :: rest →
      Yields AnyFault (v.declareInstance depth i)
        { y with queue := rest }
        fun _ w => Tracked [] w ∧ y.Within w := by
    intro y i rest hy hQueue
    apply (yields_declareInstance (hy.dequeue hQueue)).imp
    rintro _ w ⟨hw, hyw⟩
    exact ⟨hw, (within_dequeue y rest).trans hyw⟩
  have hItem := run_item_of_drains hStep hDrain hDrains hy hQueue
  exact ⟨⟨[i.id], hy.dequeue hQueue⟩, hItem⟩

/- A struct that the run of a request meets resolves. -/
theorem resolves_of_meets
    {a : NamelessStruct Instance Loaded}
    {x z : Walk Instance Loaded}
    (hRun : (v.walk depth count r).run { memory := [] } = .ok ((), z))
    (hMeets : Meets v depth r a x) : a.Resolves x z.schema := by
  rcases hMeets with
    @⟨_, _, i, _, scope, hint, fs, hReaches, hQueue, hEnters⟩
  have hEnd := (yields_walk depth count r).of_run_ok hRun
  have hItem := completes_item hRun hReaches hQueue
  rcases completes_of_enters (fun _ _ hEnter _ _ =>
    completes_of_enter hEnter) hEnters hItem with
    ⟨⟨pending, hx⟩, w, ⟨t, hType⟩, hWithin⟩
  have hGood := ((lowers_types scope).1 _ _).of_run hx hType
  have hStep := lowered_nameless v scope hint fs
  exact NamelessStruct.resolves hStep hType hGood.2.2 hWithin
    hEnd.1 hEnd.2.1

/- What is not written as a struct becomes no record. -/
theorem ne_record_of_run_lowerDecl
    {x : SourceScope}
    {id : TypeName}
    {params : List (TypeParam WireType)}
    {d : TypeSource}
    {y z : Walk Instance Loaded}
    {t : WireType}
    (hType : ∀ fs, d.type ≠ .struct fs)
    (hy : Tracked pending y)
    (hRun : (v.lowerDecl x id params d).run y = .ok (t, z)) :
    ∀ e, t ≠ .record e := by
  rw [lowerDecl_eq hType] at hRun
  rcases run_bind_eq_ok hRun with ⟨found, w, hFound, hRun⟩
  cases found with
  | none =>
      rcases run_bind_eq_ok hRun with ⟨target, _, _, hEnd⟩
      cases hEnd
      exact fun _ => nofun
  | some u =>
      cases hRun
      unfold enum? at hFound
      split at hFound
      · have hEnum := (lowers_enumeration x.package id d).of_run
          hy hFound
        rcases hEnum.2.2 t rfl with ⟨e, rfl, -⟩
        exact fun _ => nofun
      · cases hFound

/-
  A struct by the name of a declaration of another kind is
  lost.
-/
theorem not_isDeclared_of_synonym
    {i : Instance}
    {rest : List Instance}
    {scope : SourceScope}
    {d : TypeSource}
    {a : NamelessStruct Instance Loaded}
    {x y w z : Walk Instance Loaded}
    (hRun : (v.walk depth count r).run { memory := [] } = .ok ((), z))
    (hReaches : Reaches v depth r y)
    (hQueue : y.queue = i :: rest)
    (hFound : (located v i).run { y with queue := rest } =
      .ok ((scope, d), w))
    (hType : ∀ fs, d.type ≠ .struct fs)
    (hName : a.id = i.id) : ¬a.IsDeclared x z.schema := by
  have hEnd := (yields_walk depth count r).of_run_ok hRun
  have hy := (tracked_of_reaches hReaches).dequeue hQueue
  rcases completes_item hRun hReaches hQueue with
    ⟨-, e, hItem, hWithin⟩
  rcases run_item hy hFound hItem with
    ⟨-, params, u, -, hu, -, t, _, hDecl, -, hDeclared, hId⟩
  have hDistinct := (hEnd.1.isComplete hEnd.2.1).distinct
  have hLast := hWithin.types.subset hDeclared
  rw [← hName] at hId
  exact NamelessStruct.not_isDeclared hDistinct hLast hId
    (ne_record_of_run_lowerDecl hType hu hDecl)

end WireSchema.Source
