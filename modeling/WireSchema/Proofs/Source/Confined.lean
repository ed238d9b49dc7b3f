import Mathlib.Order.Filter.AtTopBot.Basic
import Mathlib.Order.Filter.Finite
import Mathlib.Order.WellFoundedSet
import WireSchema.Proofs.Source.Kinds
import WireSchema.Proofs.Source.Limits
import WireSchema.Proofs.Source.Values

/-
  Steps that stay among expressions that are not left.

  All instances in the queue are among them, and no step is
  cut off: where interfaces are not parts of their own bounds,
  each bound is lowered within some depth and all larger ones,
  and so is each declaration.

  Key definitions include:
    * `ModuleView.confined`
    * `Deep`
    * `deep_bounds`, `deep_declare`
-/

namespace WireSchema.Source

open Filter Walk ModuleView

variable {v : ModuleView}
variable {Fits : TypeExpr → Prop}
variable {α β : Type}

------------------------------------------------------------
-- Confined Steps
------------------------------------------------------------

/- Every fault but that a walk is cut off. -/
def IsFinal (e : ExtractionFault) : Prop :=
  e ≠ .unfinished

theorem isFinal_unresolved (what : String) :
    IsFinal (.unresolved what) := by
  intro h
  cases h

/- Instances in the queue are those of types that fit. -/
def ModuleView.confined
    (v : ModuleView)
    (Fits : TypeExpr → Prop) : Standard Instance Loaded where
  type _ := True
  item := IsAsked Fits
  memory := v.standard.memory

/- A step that is not cut off and asks for such instances. -/
abbrev Stays
    (v : ModuleView)
    (Fits : TypeExpr → Prop)
    (m : ModuleStep α) : Prop :=
  Keeps IsFinal (v.confined Fits) (fun _ => True) m

theorem isFinal_of_load
    {path : String}
    {e : ExtractionFault}
    (h : v.load path = .error e) : IsFinal e := by
  rcases fault_of_load h with ⟨file, rfl | rfl⟩
  · exact nofun
  · exact nofun

theorem stays_package (path : String) :
    Keeps IsFinal (v.confined Fits)
      (fun found => v.load path = .ok found)
      (v.package? path) := by
  have hMemory :
      (v.confined Fits).memory = v.standard.memory := rfl
  exact (keeps_read hMemory path).allow fun _ => isFinal_of_load

theorem stays_declare (t : WireType) :
    Stays v Fits (declare t) := by
  cases hId : t.id? with
  | some id => exact keeps_declare hId trivial
  | none =>
      intro x _
      unfold declare Schema.addType
      apply yields_bind
      apply yields_get
      rw [hId]
      exact yields_fault nofun

theorem stays_enqueue
    {i : Instance}
    (h : IsAsked Fits i) : Stays v Fits i.enqueue := by
  have hQueued : Stays v Fits
      (do Walk.enqueue i.id i; pure i.id) :=
    (keeps_enqueue i.id h).map fun _ _ => trivial
  unfold Instance.enqueue
  split
  · exact (keeps_claim fun _ => nofun).bind fun _ _ => hQueued
  · exact hQueued

/- Confined steps are a kind of steps. -/
theorem isKind_stays :
    IsKind v fun _ m => Stays v Fits m where
  pure := keeps_return
  bind hm hf := Keeps.bind hm fun a _ => hf a
  note := keeps_note
  declare := stays_declare
  takeName := keeps_takeName
  package path := (stays_package path).imp fun _ _ => trivial

/- An expression that fits is lowered by confined steps. -/
theorem stays_expr
    (hConfines : v.Confines Fits)
    (place : SourcePlace)
    {e : TypeExpr}
    (he : Fits e) : Stays v Fits (v.lowerExpr place e) := by
  apply isKind_stays.expr place e
  intro space name args hPart given hGiven
  exact stays_enqueue ⟨args, hConfines.part he hPart, hGiven⟩

theorem reads_of_fits
    (hConfines : v.Confines Fits)
    {x : SourceScope}
    {us : List SourceType}
    (h : ∀ u ∈ us, ∀ e, x.resolve? u = some e → Fits e) :
    IsKind.Reads v (fun _ m => Stays v Fits m) x us := by
  intro u hu e hResolve
  exact stays_expr hConfines x.place (h u hu e hResolve)

theorem stays_type
    (hConfines : v.Confines Fits)
    {x : SourceScope}
    {t : SourceType}
    (hint : String)
    (h : ∀ u ∈ t.uses, ∀ e, x.resolve? u = some e → Fits e) :
    Stays v Fits (v.lower x hint t) :=
  (isKind_stays.types x).1 hint t (reads_of_fits hConfines h)

------------------------------------------------------------
-- Depth
------------------------------------------------------------

/- Steps by a depth that are confined from some depth on. -/
def Deep
    (v : ModuleView)
    (Fits : TypeExpr → Prop)
    (step : Nat → ModuleStep α) : Prop :=
  ∀ᶠ k in atTop, Stays v Fits (step k)

/- A step that is confined if something holds a depth less. -/
theorem deep_of_eventually
    {Q : Nat → Prop}
    {step : Nat → ModuleStep α}
    (hQ : ∀ᶠ k in atTop, Q k)
    (hStep : ∀ k, Q k → Stays v Fits (step (k + 1))) :
    Deep v Fits step := by
  unfold Deep
  rw [eventually_atTop] at hQ ⊢
  rcases hQ with ⟨first, hFirst⟩
  refine ⟨first + 1, ?_⟩
  intro k hk
  cases k with
  | zero => omega
  | succ k => exact hStep k (hFirst k (by omega))

theorem deep_succ
    {step : Nat → ModuleStep α}
    (h : ∀ k, Stays v Fits (step (k + 1))) : Deep v Fits step :=
  deep_of_eventually (.of_forall fun _ => trivial) fun k _ => h k

/- The same step for each of finitely many arguments. -/
theorem deep_mapM
    {f : Nat → α → ModuleStep β}
    {xs : List α}
    (hf : ∀ a ∈ xs, Deep v Fits fun k => f k a) :
    Deep v Fits fun k => xs.mapM (f k) := by
  have hAll : ∀ᶠ k in atTop, ∀ a ∈ xs, Stays v Fits (f k a) :=
    (eventually_all_finite xs.finite_toSet).mpr hf
  exact hAll.mono fun _ => isKind_stays.mapM

------------------------------------------------------------
-- Bounds
------------------------------------------------------------

/- An interface is lowered as a bound within some depth. -/
def DeepInterface
    (v : ModuleView)
    (Fits : TypeExpr → Prop)
    (id : TypeName) : Prop :=
  ∀ {p file d}, v.Holds id.space id.name p file d →
    d.type.isInterface →
    Deep v Fits fun k => v.lowerBound k (scopeOf p file d) d.type

theorem holds_of_interfaceOf?
    {space name : String}
    {p : PackageSource}
    {y : SourceScope}
    {t : SourceType}
    (hLoaded : v.load space = .ok (some p))
    (h : interfaceOf? p name = some (y, t)) :
    ∃ file d, v.Holds space name p file d ∧ d.type.isInterface
      ∧ y = scopeOf p file d ∧ t = d.type := by
  unfold interfaceOf? at h
  split at h
  · next file d hFound =>
      split at h
      · next hInterface =>
          cases h
          exact ⟨file, d, ⟨hLoaded, hFound⟩, hInterface, rfl, rfl⟩
      · cases h
  · cases h

/- What the types in a bound have to be for it to have a depth. -/
structure Bounding
    (v : ModuleView)
    (Fits : TypeExpr → Prop)
    (x : SourceScope)
    (uses names : List SourceType) : Prop where
  uses : ∀ u ∈ uses, ∀ e, x.resolve? u = some e → Fits e
  names :
    ∀ u ∈ names, ∀ id, v.NamesInterface x u id →
      DeepInterface v Fits id

section Bounds

variable {x : SourceScope}

theorem deep_ident
    (hConfines : v.Confines Fits)
    (hLoaded : v.load x.package.path =
      .ok (some x.package))
    {name : String}
    (h : Bounding v Fits x [.ident name] [.ident name]) :
    Deep v Fits fun k => v.lowerBound k x (.ident name) := by
  cases hBinds : isFreeBound name with
  | true =>
      apply deep_succ
      intro k
      unfold lowerBound
      rw [hBinds, if_pos rfl]
      exact keeps_return _
  | false =>
      cases hFound : interfaceOf? x.package name with
      | none =>
          apply deep_succ
          intro k
          unfold lowerBound
          rw [hBinds, hFound]
          exact isKind_stays.map (stays_type hConfines _ h.uses)
      | some found =>
          rcases found with ⟨y, t⟩
          rcases holds_of_interfaceOf? hLoaded hFound with
            ⟨file, d, hHolds, hInterface, rfl, rfl⟩
          have hNames : v.NamesInterface x (.ident name) _ :=
            .ident hBinds (by rw [hFound]; rfl)
          have hInner := h.names _ (List.mem_singleton_self _) _
            hNames hHolds hInterface
          apply deep_of_eventually hInner
          intro k hBound
          unfold lowerBound
          rw [hBinds, hFound]
          exact hBound

theorem deep_qualified
    (hConfines : v.Confines Fits)
    {package name : String}
    (h : Bounding v Fits x [.qualified package name]
      [.qualified package name]) :
    Deep v Fits fun k =>
      v.lowerBound k x (.qualified package name) := by
  cases hImport : x.import? package with
  | none =>
      apply deep_succ
      intro k
      unfold lowerBound
      rw [hImport]
      exact keeps_return _
  | some path =>
      -- the depth is that of the interface, if there is one
      have hInner : ∀ᶠ k in atTop, ∀ p y t,
          v.load path = .ok (some p) →
          interfaceOf? p name = some (y, t) →
          Stays v Fits (v.lowerBound k y t) := by
        by_cases hSome : ∃ p y t,
            v.load path = .ok (some p)
              ∧ interfaceOf? p name = some (y, t)
        · rcases hSome with ⟨p, y, t, hLoaded, hFound⟩
          rcases holds_of_interfaceOf? hLoaded hFound with
            ⟨file, d, hHolds, hInterface, rfl, rfl⟩
          have hNames : v.NamesInterface x
              (.qualified package name) _ :=
            .qualified hImport hLoaded (by rw [hFound]; rfl)
          have hDeep := h.names _ (List.mem_singleton_self _) _
            hNames hHolds hInterface
          apply hDeep.mono
          intro k hBound p' y' t' hLoaded' hFound'
          rw [hLoaded] at hLoaded'
          cases hLoaded'
          rw [hFound] at hFound'
          cases hFound'
          exact hBound
        · apply Eventually.of_forall
          intro k p y t hLoaded hFound
          exact absurd ⟨p, y, t, hLoaded, hFound⟩ hSome
      apply deep_of_eventually hInner
      intro k hBound
      unfold lowerBound
      rw [hImport]
      apply (stays_package path).bind
      intro found hLoaded
      split
      · exact keeps_return _
      · split
        · next y t hFound => exact hBound _ y t hLoaded hFound
        · exact isKind_stays.map (stays_type hConfines _ h.uses)

/- A bound that is no name is lowered at once or by its terms. -/
theorem deep_terms
    {t : SourceType}
    {ts : List SourceType}
    (hParts : boundParts? t = some ts)
    (hTerms : ∀ u ∈ ts, Deep v Fits fun k => v.lowerTerm k x u) :
    Deep v Fits fun k => v.lowerBound k x t := by
  apply deep_of_eventually (deep_mapM hTerms)
  intro k hAll
  rw [lowerBound_parts hParts]
  exact isKind_stays.map hAll

/- A term that is a bound has a depth of one more. -/
theorem deep_term
    {t : SourceType}
    (hUnion : ∀ items, t ≠ .union items)
    (hTilde : ∀ elem, t ≠ .tilde elem)
    (hBound : Deep v Fits fun k => v.lowerBound k x t) :
    Deep v Fits fun k => v.lowerTerm k x t := by
  apply deep_of_eventually hBound
  intro k hBound
  rw [lowerTerm_bound hUnion hTilde]
  exact isKind_stays.map hBound

/-
  A bound has a depth if all interfaces that it names have,
  and so has each of its terms.
-/
theorem deep_bounds
    (hConfines : v.Confines Fits)
    (hLoaded : v.load x.package.path =
      .ok (some x.package)) :
    (∀ t, Bounding v Fits x t.uses t.boundNames →
      (Deep v Fits fun k => v.lowerBound k x t)
        ∧ Deep v Fits fun k => v.lowerTerm k x t)
      ∧ ∀ ts,
        Bounding v Fits x (SourceType.usesIn ts)
          (SourceType.boundNamesIn ts) →
        ∀ t ∈ ts, Deep v Fits fun k => v.lowerTerm k x t := by
  refine SourceType.boundNames.mutual_induct _ _
    ?ident ?qualified ?interface ?union ?other ?noType ?types
  case ident =>
    intro name h
    have hBound := deep_ident hConfines hLoaded h
    refine ⟨hBound, deep_term ?_ ?_ hBound⟩
    · rintro _ ⟨⟩
    · rintro _ ⟨⟩
  case qualified =>
    intro package name h
    have hBound := deep_qualified hConfines h
    refine ⟨hBound, deep_term ?_ ?_ hBound⟩
    · rintro _ ⟨⟩
    · rintro _ ⟨⟩
  case interface =>
    intro elems hasMethods hElems h
    have hBound := deep_terms
      (t := .interface elems hasMethods) rfl (hElems h)
    refine ⟨hBound, deep_term ?_ ?_ hBound⟩
    · rintro _ ⟨⟩
    · rintro _ ⟨⟩
  case union =>
    intro terms hTerms h
    refine ⟨deep_terms (t := .union terms) rfl (hTerms h), ?_⟩
    apply deep_of_eventually (deep_mapM (hTerms h))
    intro k hAll
    unfold lowerTerm
    exact isKind_stays.map hAll
  case other =>
    intro t hIdent hQualified hInterface hUnion h
    have hPlain : (∀ elem, t ≠ .tilde elem) →
        isPlainBound t = true := by
      intro hTilde
      cases t with
      | ident name => exact (hIdent name rfl).elim
      | qualified package name =>
          exact (hQualified package name rfl).elim
      | interface elems hasMethods =>
          exact (hInterface elems hasMethods rfl).elim
      | union terms => exact (hUnion terms rfl).elim
      | tilde elem => exact absurd rfl (hTilde elem)
      | _ => rfl
    by_cases hTilde : ∃ elem, t = .tilde elem
    · rcases hTilde with ⟨elem, rfl⟩
      have hElem := fun hint =>
        stays_type (x := x) (t := elem) hConfines hint h.uses
      constructor
      · apply deep_succ
        intro k
        unfold lowerBound
        exact isKind_stays.map (hElem _)
      · apply deep_succ
        intro k
        unfold lowerTerm
        exact isKind_stays.map (hElem _)
    · have hTilde : ∀ elem, t ≠ .tilde elem :=
        fun elem hType => hTilde ⟨elem, hType⟩
      have hBound : Deep v Fits fun k => v.lowerBound k x t := by
        apply deep_succ
        intro k
        rw [lowerBound_plain (hPlain hTilde)]
        exact isKind_stays.map (stays_type hConfines _ h.uses)
      exact ⟨hBound,
        deep_term (fun items hType => hUnion items hType)
          hTilde hBound⟩
  case noType =>
    rintro - t ⟨⟩
  case types =>
    intro t rest hFirst hRest h
    have hUses := List.forall_mem_append.mp h.uses
    have hNames := List.forall_mem_append.mp h.names
    intro u hu
    rcases List.mem_cons.mp hu with rfl | hu
    · exact (hFirst ⟨hUses.1, hNames.1⟩).2
    · exact hRest ⟨hUses.2, hNames.2⟩ u hu

end Bounds

------------------------------------------------------------
-- Interfaces
------------------------------------------------------------

/- An interface that is named is declared in its package. -/
theorem ModuleView.NamesInterface.holds
    {x : SourceScope}
    {u : SourceType}
    {id : TypeName}
    (hLoaded : v.load x.package.path =
      .ok (some x.package))
    (h : v.NamesInterface x u id) :
    ∃ p file d, v.Holds id.space id.name p file d := by
  cases h with
  | ident hBinds hFound =>
      rcases Option.isSome_iff_exists.mp hFound with
        ⟨⟨y, t⟩, hFound⟩
      rcases holds_of_interfaceOf? hLoaded hFound with
        ⟨file, d, hHolds, -⟩
      exact ⟨_, file, d, hHolds⟩
  | qualified hImport hLoaded hFound =>
      rcases Option.isSome_iff_exists.mp hFound with
        ⟨⟨y, t⟩, hFound⟩
      rcases holds_of_interfaceOf? hLoaded hFound with
        ⟨file, d, hHolds, -⟩
      exact ⟨_, file, d, hHolds⟩

/- A package that is loaded is the one that its path names. -/
theorem load_path
    {space : String}
    {p : PackageSource}
    (h : v.load space = .ok (some p)) :
    v.load p.path = .ok (some p) := by
  rw [path_of_load h]
  exact h

/- Interfaces that are parts of each other come to an end. -/
theorem wellFounded_embeds (hGrounded : v.IsGrounded) :
    WellFounded fun b a => v.Embeds a b := by
  let inside : TypeName → TypeName → Prop :=
    fun b a => Relation.TransGen v.Embeds a b
  have hOrder : IsStrictOrder TypeName inside :=
    { irrefl := hGrounded.bounds
      trans := fun _ _ _ hbc hab => hab.trans hbc }
  have hDeclared : ∀ {a b}, v.Embeds a b →
      ∃ p file d, v.Holds b.space b.name p file d := by
    rintro a b ⟨hHolds, -, -, hNames⟩
    exact hNames.holds (load_path hHolds.loaded)
  have hOn := (finite_declared v).wellFoundedOn (r := inside)
  have hAcc : ∀ b ∈ { id : TypeName | ∃ p file d,
      v.Holds id.space id.name p file d },
      Acc (fun b a => v.Embeds a b) b := by
    intro b hb
    apply hOn.induction hb
    intro a _ hInner
    apply Acc.intro
    intro c hc
    exact hInner c (hDeclared hc) (.single hc)
  apply WellFounded.intro
  intro a
  apply Acc.intro
  intro b hb
  exact hAcc b (hDeclared hb)

theorem deepInterface
    (hGrounded : v.IsGrounded)
    (hConfines : v.Confines Fits)
    (id : TypeName) : DeepInterface v Fits id := by
  induction id using (wellFounded_embeds hGrounded).induction with
  | _ id ih =>
      intro p file d hHolds hInterface
      have hLoaded := load_path hHolds.loaded
      apply And.left
      apply (deep_bounds hConfines (x := scopeOf p file d)
        hLoaded).1
      constructor
      · intro u hu e hResolve
        exact hConfines.bound hHolds (List.mem_append_left _ hu)
          hResolve
      · intro u hu inner hNames
        exact ih inner ⟨hHolds, hInterface, hu, hNames⟩

------------------------------------------------------------
-- Declarations
------------------------------------------------------------

/- What an instance is one of, with its scope. -/
theorem stays_located (i : Instance) :
    Keeps IsFinal (v.confined Fits)
      (fun found => v.Declares i found.1 found.2
        ∧ found.1.place = found.2.place)
      (located v i) := by
  unfold located
  apply (stays_package i.space).bind
  intro package hLoaded
  split
  · next p file d hFound =>
      split
      · exact keeps_fault (isFinal_unresolved _)
      · next bindings hBindings =>
          exact keeps_pure ⟨⟨hLoaded, hFound, hBindings⟩, rfl⟩
  · exact keeps_fault (isFinal_unresolved _)

/- There is one scope at most. -/
theorem ModuleView.Declares.unique
    {i : Instance}
    {x y : SourceScope}
    {d g : TypeSource}
    (hx : v.Declares i x d ∧ x.place = d.place)
    (hy : v.Declares i y g ∧ y.place = g.place) :
    x = y ∧ d = g := by
  rcases x with ⟨p, file, bindings, place⟩
  rcases y with ⟨q, file', bindings', place'⟩
  rcases hx with ⟨⟨hLoaded, hFound, hBindings⟩, hPlace⟩
  rcases hy with ⟨⟨hLoaded', hFound', hBindings'⟩, hPlace'⟩
  rw [hLoaded] at hLoaded'
  cases hLoaded'
  rw [hFound] at hFound'
  cases hFound'
  rw [hBindings] at hBindings'
  cases hBindings'
  dsimp only at hPlace hPlace'
  rw [hPlace, hPlace']
  exact ⟨rfl, rfl⟩

theorem deep_params
    (hGrounded : v.IsGrounded)
    (hConfines : v.Confines Fits)
    {x : SourceScope}
    (hLoaded : v.load x.package.path =
      .ok (some x.package))
    {ps : List SourceParam}
    (hUses : ∀ p ∈ ps, ∀ u ∈ p.bound.uses, ∀ e,
      x.resolve? u = some e → Fits e) :
    Deep v Fits fun k => v.lowerParams k x ps := by
  induction ps with
  | nil => exact .of_forall fun _ => keeps_return _
  | cons p rest ih =>
      rw [List.forall_mem_cons] at hUses
      have hBound := ((deep_bounds hConfines hLoaded).1 p.bound
        ⟨hUses.1, fun _ _ id _ =>
          deepInterface hGrounded hConfines id⟩).1
      apply (hBound.and (ih hUses.2)).mono
      intro k hSteps
      unfold lowerParams
      exact isKind_stays.bind hSteps.1 fun _ =>
        isKind_stays.map hSteps.2

/- An instance that may be asked for is declared in some depth. -/
theorem deep_declare
    (hGrounded : v.IsGrounded)
    (hConfines : v.Confines Fits)
    {i : Instance}
    (hAsked : IsAsked Fits i) :
    Deep v Fits fun k => v.declareInstance k i := by
  have hUses : ∀ {x : SourceScope} {d : TypeSource},
      v.Declares i x d ∧ x.place = d.place →
      ∀ u ∈ d.uses, ∀ e, x.resolve? u = some e → Fits e := by
    rintro x d ⟨hDeclares, hPlace⟩ u hu e hResolve
    exact hConfines.declared hAsked hDeclares hPlace hu hResolve
  -- the depth is that of the parameters of the declaration
  have hParams : ∀ᶠ k in atTop, ∀ x d,
      v.Declares i x d ∧ x.place = d.place →
      Stays v Fits (v.lowerParams k x d.params) := by
    by_cases hSome : ∃ x d, v.Declares i x d ∧ x.place = d.place
    · rcases hSome with ⟨x, d, hFound⟩
      have hDeep :
          Deep v Fits fun k => v.lowerParams k x d.params := by
        apply deep_params hGrounded hConfines
          (load_path hFound.1.loaded)
        intro p hp u hu
        apply hUses hFound
        exact List.mem_append_right _
          (List.mem_flatMap.mpr ⟨p, hp, hu⟩)
      apply hDeep.mono
      intro k hStep y g hOther
      rcases ModuleView.Declares.unique hFound hOther with
        ⟨rfl, rfl⟩
      exact hStep
    · apply Eventually.of_forall
      intro k x d hFound
      exact absurd ⟨x, d, hFound⟩ hSome
  apply hParams.mono
  intro k hStep
  dsimp only
  rw [declareInstance_eq]
  apply (stays_located i).bind
  rintro ⟨x, d⟩ hFound
  have hDecl : ∀ params, Stays v Fits
      (do
        let t ← v.lowerDecl x i.id params d
        declare t) := by
    intro params
    have hReads := reads_of_fits hConfines fun u hu =>
      hUses hFound u (List.mem_append_left _ hu)
    exact isKind_stays.bind (isKind_stays.decl hReads i.id params)
      stays_declare
  dsimp only
  unfold itemParams
  split
  · exact isKind_stays.bind (hStep x d hFound) hDecl
  · exact isKind_stays.bind (keeps_return []) hDecl

end WireSchema.Source
