import WireSchema.Proofs.Source.Finite
import WireSchema.Proofs.Source.Limits
import WireSchema.Proofs.Source.Requests
import WireSchema.Proofs.TypeExpr.Spelling

/-
  Extractions that do not end.

  A walk that needs the bound of an interface which begins
  with itself has no end, and neither has one in which each
  declaration leaves another one to do.  Both are cut off
  within all limits, so there is no final answer.

  Key definitions include:
    * `Walk.CutsOff`
    * `ModuleView.LeadOn`, `ModuleView.isNesting`
    * `FileTree.not_answersFinally_of_leadOn`
    * `FileTree.not_answersFinally_of_isNesting`
-/

namespace WireSchema

------------------------------------------------------------
-- Steps without End
------------------------------------------------------------

namespace Walk

variable {ι σ α : Type}
variable {x : Walk ι σ}

/- That a walk is cut off. -/
def IsCutOff (e : ExtractionFault) : Prop :=
  e = .unfinished

/- A step that is cut off. -/
def CutsOff (m : WalkStep ι σ α) (x : Walk ι σ) : Prop :=
  Yields IsCutOff m x fun _ _ => False

theorem CutsOff.run_eq
    {m : WalkStep ι σ α}
    (h : CutsOff m x) : m.run x = .error .unfinished := by
  unfold CutsOff Yields at h
  cases hRun : m.run x with
  | ok r =>
      rw [hRun] at h
      exact h.elim
  | error e =>
      rw [hRun] at h
      rw [h]

/-
  A queue that each declaration leaves something in is not
  declared within any number of declarations.
-/
theorem cutsOff_drain
    (Inv : Walk ι σ → Prop)
    {declareItem : ι → WalkStep ι σ Unit}
    (hQueue : ∀ x, Inv x → x.queue ≠ [])
    (hStep : ∀ x i rest, Inv x → x.queue = i :: rest →
      Yields IsCutOff (declareItem i) { x with queue := rest }
        fun _ y => Inv y)
    (bound : Nat)
    (h : Inv x) : CutsOff (drain declareItem bound) x := by
  have hCut : IsCutOff .unfinished := rfl
  have hDrain :
      Yields IsCutOff (drain declareItem bound) x fun _ y =>
        y.queue = [] ∧ ∃ n : Nat, Inv y :=
    yields_drain (fun _ => Inv) (fun _ _ _ => hCut)
      (fun _ => hStep) bound h
  apply hDrain.imp
  rintro _ y ⟨hEmpty, -, hInv⟩
  exact hQueue y hInv hEmpty

end Walk

namespace Source

open Walk

------------------------------------------------------------
-- Bounds
------------------------------------------------------------

/- The name that comes first where a bound is made of parts. -/
def SourceType.leader? : SourceType → Option String
  | .ident name => some name
  | .interface (t :: _) _ => leader? t
  | .union (t :: _) => leader? t
  | _ => none

namespace ModuleView

variable {v : ModuleView}
variable {space name : String}
variable {p : PackageSource}
variable {file : FileSource}
variable {d : TypeSource}

/- The name that comes first in an interface of a package. -/
def leaderOf? (p : PackageSource) (name : String) :
    Option String :=
  (interfaceOf? p name).bind fun y => y.2.leader?

/- The name that comes first in the bounds of a declaration. -/
def firstBound? (p : PackageSource) (name : String) :
    Option String :=
  (p.find? name).bind fun d =>
    d.2.params.head?.bind fun q => q.bound.leader?

/-
  Names of interfaces of a package, each of which begins with
  one of them.
-/
def LeadOn
    (p : PackageSource)
    (names : List String) : Prop :=
  ∀ name ∈ names, isFreeBound name = false
    ∧ ∃ next ∈ names, leaderOf? p name = some next

instance
    (p : PackageSource)
    (names : List String) : Decidable (LeadOn p names) := by
  unfold LeadOn
  infer_instance

theorem package_of_interfaceOf?
    {x : SourceScope}
    {t : SourceType}
    (h : interfaceOf? p name = some (x, t)) : x.package = p := by
  unfold interfaceOf? at h
  split at h
  · split at h
    · cases h
      rfl
    · cases h
  · cases h

/- Such interfaces are no bounds within any depth. -/
theorem bounds_unfinished
    {names : List String}
    (hLead : LeadOn p names)
    {x : SourceScope}
    {t : SourceType}
    (hPackage : x.package = p)
    (hLeader : t.leader? = some name)
    (hName : name ∈ names)
    (depth : Nat) :
    v.lowerBound depth x t = fault .unfinished
      ∧ v.lowerTerm depth x t = fault .unfinished := by
  induction depth generalizing x t name with
  | zero =>
      rw [lowerBound, lowerTerm]
      exact ⟨rfl, rfl⟩
  | succ depth ih =>
      -- a part that is no union is a bound of its own
      have hPart := (ih hPackage hLeader hName).1
      cases t with
      | ident given =>
          cases hLeader
          rcases hLead name hName with
            ⟨hFree, next, hNext, hSome⟩
          rcases Option.bind_eq_some_iff.mp hSome with
            ⟨⟨y, t⟩, hFound, hFirst⟩
          have hY := package_of_interfaceOf? hFound
          constructor
          · rw [lowerBound, hFree, hPackage, hFound]
            exact (ih hY hFirst hNext).1
          · unfold lowerTerm
            rw [hPart]
            rfl
      | interface elems hasMethods =>
          cases elems with
          | nil => cases hLeader
          | cons first rest =>
              have hFirst := (ih hPackage (t := first)
                hLeader hName).2
              constructor
              · rw [lowerBound, List.mapM_cons, hFirst]
                rfl
              · unfold lowerTerm
                rw [hPart]
                rfl
      | union items =>
          cases items with
          | nil => cases hLeader
          | cons first rest =>
              have hFirst := (ih hPackage (t := first)
                hLeader hName).2
              constructor
              · rw [lowerBound, List.mapM_cons, hFirst]
                rfl
              · rw [lowerTerm, List.mapM_cons, hFirst]
                rfl
      | _ => cases hLeader

------------------------------------------------------------
-- Waiting Instances
------------------------------------------------------------

/- One instance waits, and its name is as long as any taken. -/
structure Awaits
    (v : ModuleView)
    (i : Instance)
    (x : Walk Instance Loaded) : Prop where
  queue : x.queue = [i]
  memory : v.standard.memory x.memory
  claims : ∀ c ∈ x.claims, c.1 ∈ x.taken
  longest : ∀ id ∈ x.taken, id.name.length ≤ i.id.name.length

/- Nothing waits, and all names are shorter than a length. -/
structure Rests
    (v : ModuleView)
    (n : Nat)
    (x : Walk Instance Loaded) : Prop where
  queue : x.queue = []
  memory : v.standard.memory x.memory
  claims : ∀ c ∈ x.claims, c.1 ∈ x.taken
  shorter : ∀ id ∈ x.taken, id.name.length < n

theorem rests_init (n : Nat) : v.Rests n { memory := [] } where
  queue := rfl
  memory := remembers_nil
  claims := List.forall_mem_nil _
  shorter := List.forall_mem_nil _

theorem Rests.remember
    {n : Nat}
    {x : Walk Instance Loaded}
    {memory : Loaded}
    (h : v.Rests n x)
    (hMemory : v.standard.memory memory) :
    v.Rests n { x with memory } where
  queue := h.queue
  memory := hMemory
  claims := h.claims
  shorter := h.shorter

theorem Awaits.rests
    {i : Instance}
    {n : Nat}
    {x : Walk Instance Loaded}
    (h : v.Awaits i x)
    (hLonger : i.id.name.length < n) :
    v.Rests n { x with queue := [] } where
  queue := rfl
  memory := h.memory
  claims := h.claims
  shorter id hId := Nat.lt_of_le_of_lt (h.longest id hId) hLonger

section Holding

variable (hHolds : v.Holds space name p file d)
variable {x : Walk Instance Loaded}
variable {n : Nat}
variable (hRests : v.Rests n x)
include hHolds hRests

/- A package that is there is found, and remembered. -/
theorem yields_held
    {Q : Option PackageSource → Walk Instance Loaded → Prop}
    (hQ : ∀ y, v.Rests n y → Q (some p) y) :
    Yields IsCutOff (v.package? space) x Q := by
  apply yields_read hRests.memory
  · intro e hError
    rw [hHolds.loaded] at hError
    cases hError
  · intro found memory hLoad hMemory
    rw [hHolds.loaded] at hLoad
    cases hLoad
    exact hQ _ (hRests.remember hMemory)

theorem yields_located
    {args : List TypeExpr}
    {bindings : List (String × Binding)}
    {Q : SourceScope × TypeSource →
      Walk Instance Loaded → Prop}
    (hBindings :
      bindingsOf? (d.params.map (·.name)) args = some bindings)
    (hQ : ∀ y, v.Rests n y →
      Q ({ package := p, file, bindings, place := d.place }, d)
        y) :
    Yields IsCutOff (located v { space, name, args }) x Q := by
  unfold located
  apply yields_bind
  apply yields_held hHolds hRests
  intro y hy
  simp only [Option.bind_some, hHolds.found, hBindings]
  exact yields_pure (hQ y hy)

end Holding

/- An instance whose name is longer than all that are taken. -/
theorem yields_enqueue_longer
    {i : Instance}
    {x : Walk Instance Loaded}
    (h : v.Rests i.id.name.length x) :
    Yields IsCutOff i.enqueue x fun id y =>
      id = i.id ∧ v.Awaits i y := by
  have hNew : i.id ∉ x.taken := by
    intro hTaken
    exact absurd (h.shorter i.id hTaken) (Nat.lt_irrefl _)
  have hUnclaimed (first : Instance) :
      x.claims.lookup i.id ≠ some first := by
    intro hClaimed
    rcases List.lookup_eq_some_iff.mp hClaimed with
      ⟨before, after, hSplit, -⟩
    apply hNew
    apply h.claims (i.id, first)
    rw [hSplit]
    exact List.mem_append_right before List.mem_cons_self
  have hQueued (claims : List (TypeName × Instance))
      (hOwn : ∀ c ∈ claims, c.1 ∈ i.id :: x.taken) :
      Yields IsCutOff (do Walk.enqueue i.id i; pure i.id)
        { x with claims } fun id y =>
          id = i.id ∧ v.Awaits i y := by
    apply yields_bind
    apply yields_enqueue
    · intro hTaken
      exact absurd hTaken hNew
    · intro _
      apply yields_pure
      refine ⟨rfl, ?_, h.memory, hOwn, ?_⟩
      · dsimp only
        rw [h.queue]
        rfl
      · rw [List.forall_mem_cons]
        exact ⟨Nat.le_refl _,
          fun id hId => Nat.le_of_lt (h.shorter id hId)⟩
  have hOld : ∀ c ∈ x.claims, c.1 ∈ i.id :: x.taken :=
    fun c hc => List.mem_cons_of_mem _ (h.claims c hc)
  unfold Instance.enqueue
  split
  · apply yields_bind
    apply yields_claim
    · exact fun first hSome => absurd hSome (hUnclaimed first)
    · intro _
      exact hQueued ((i.id, i) :: x.claims)
        (List.forall_mem_cons.mpr ⟨List.mem_cons_self, hOld⟩)
    · exact fun first hSome => absurd hSome (hUnclaimed first)
  · exact hQueued x.claims hOld

/- A root of a declared type is what waits at the start. -/
theorem yields_require
    (hHolds : v.Holds space name p file d)
    (hSpace : space.isEmpty = false)
    (hKnown : v.known.find? space name = none)
    {args : List TypeExpr}
    (hArgs : ∀ x, (v.requireArgs args).run x = .ok ((), x)) :
    Yields IsCutOff (v.require (.named space name args))
      { memory := [] } fun _ y =>
        v.Awaits { space, name, args } y := by
  unfold require
  rw [hKnown]
  apply yields_bind
  unfold checkRoot
  rw [hSpace]
  apply yields_bind
  apply yields_held hHolds (rests_init _)
  intro y hy
  simp only [Option.bind_some, hHolds.found, Option.isSome_some]
  apply yields_pure
  apply yields_bind
  unfold Yields
  rw [hArgs]
  apply yields_bind
  apply (yields_enqueue_longer hy).imp
  rintro _ z ⟨-, hAwaits⟩
  exact yields_pure hAwaits

/-
  Walks of a root whose instances, by a condition, each leave
  another one of them.
-/
theorem cutsOff_walk
    {e : TypeExpr}
    {depth : Nat}
    (Leaves : Instance → Prop)
    (hFirst : Yields IsCutOff (v.require e) { memory := [] }
      fun _ y => ∃ i, Leaves i ∧ v.Awaits i y)
    (hNext : ∀ i x, Leaves i → v.Awaits i x →
      Yields IsCutOff (v.declareInstance depth i)
        { x with queue := [] }
        fun _ y => ∃ j, Leaves j ∧ v.Awaits j y)
    (count : Nat) :
    CutsOff
      (v.walk depth count { roots := [e], scope := [] })
      { memory := [] } := by
  unfold walk CutsOff
  apply yields_bind
  apply yields_pure
  apply yields_bind
  apply yields_bind
  apply hFirst.imp
  intro _ x hx
  apply yields_pure
  apply cutsOff_drain fun x => ∃ i, Leaves i ∧ v.Awaits i x
  · rintro x ⟨i, -, hAwaits⟩
    rw [hAwaits.queue]
    exact List.cons_ne_nil _ _
  · rintro x j rest ⟨i, hLeaves, hAwaits⟩ hQueue
    rw [hAwaits.queue] at hQueue
    cases hQueue
    exact hNext j x hLeaves hAwaits
  · exact hx

/- A parameter with a bound like that is not declared. -/
theorem cutsOff_declareInstance
    (hHolds : v.Holds space name p file d)
    {names : List String}
    {first : String}
    (hLead : LeadOn p names)
    (hFirst : first ∈ names)
    (hBound : firstBound? p name = some first)
    (depth : Nat)
    {n : Nat}
    {x : Walk Instance Loaded}
    (hRests : v.Rests n x) :
    CutsOff (v.declareInstance depth { space, name }) x := by
  unfold firstBound? at hBound
  rw [hHolds.found, Option.bind_some] at hBound
  rcases Option.bind_eq_some_iff.mp hBound with
    ⟨param, hHead, hLeader⟩
  rcases List.head?_eq_some_iff.mp hHead with ⟨params, hParams⟩
  rw [declareInstance_eq]
  apply yields_bind
  apply yields_located hHolds hRests rfl
  intro y _
  dsimp only
  unfold itemParams
  rw [hParams, if_pos List.isEmpty_nil]
  apply yields_bind
  unfold lowerParams
  rw [(bounds_unfinished hLead rfl hLeader hFirst depth).1]
  exact yields_fault rfl

------------------------------------------------------------
-- Growing Instances
------------------------------------------------------------

/-
  Whether a type is a struct for one parameter that points to
  the same struct for slices of it.
-/
def isNesting (d : TypeSource) : Bool :=
  match d.params, d.type with
  | [q], .struct
      [⟨[field],
        .pointer (.generic (.ident name) [.slice (.ident param)]),
        _, _⟩] =>
      name == d.name && param == q.name && name != param
        && isExported field
  | _, _ => false

theorem exists_of_isNesting
    (h : isNesting d = true) :
    ∃ param field tag doc,
      d.params.map (·.name) = [param] ∧ d.name ≠ param
        ∧ isExported field = true
        ∧ d.type = .struct
          [⟨[field],
            .pointer
              (.generic (.ident d.name) [.slice (.ident param)]),
            tag, doc⟩] := by
  unfold isNesting at h
  split at h
  · next q field name param tag doc hParams hType =>
      simp only [Bool.and_eq_true, beq_iff_eq, bne_iff_ne] at h
      rcases h with ⟨⟨⟨rfl, rfl⟩, hOther⟩, hField⟩
      exact ⟨q.name, field, tag, doc, by rw [hParams]; rfl, hOther,
        hField, hType⟩
  · cases h

/- What such a struct points to in an instance. -/
theorem SourceScope.resolve?_nesting
    {x : SourceScope}
    {param : String}
    {arg : TypeExpr}
    {found : FileSource × TypeSource}
    (hBindings : x.bindings = [(param, .argument arg)])
    (hFound : x.package.find? name = some found)
    (hOther : name ≠ param) :
    x.resolve? (.generic (.ident name) [.slice (.ident param)]) =
      some (.named x.package.path name [.slice arg]) := by
  have hFree : (name == param) = false := by simpa using hOther
  have hName :
      x.resolveName? name =
        some (.named x.package.path name []) := by
    simp only [SourceScope.resolveName?, hBindings,
      List.lookup_cons, hFree, List.lookup_nil,
      SourceScope.declares, hFound, Option.isSome_some, if_true]
  have hParam : x.resolveName? param = some arg := by
    simp only [SourceScope.resolveName?, hBindings,
      List.lookup_cons, beq_self_eq_true]
  simp only [SourceScope.resolve?, SourceScope.resolveTypes?,
    hName, hParam, Option.map_some, Option.bind_eq_bind,
    Option.bind_some]

theorem hasParam_nest (inner : String) (n : Nat) :
    hasParam (.nest inner n) = false := by
  induction n with
  | zero => rfl
  | succ n ih => exact ih

/- A struct of one field is lowered as the type of that is. -/
theorem yields_lowerFields_single
    {x : SourceScope}
    {type : SourceType}
    {field : String}
    {y : Walk Instance Loaded}
    {Q : Walk Instance Loaded → Prop}
    (hField : isExported field = true)
    (owner : TypeName)
    (tag : String)
    (doc : Doc)
    (h : ∀ hint,
      Yields IsCutOff (v.lower x hint type) y fun _ z => Q z) :
    Yields IsCutOff
      (v.lowerFields x owner [⟨[field], type, tag, doc⟩]) y
      fun _ z => Q z := by
  have hExported : [field].filter isExported = [field] := by
    rw [List.filter_cons, if_pos hField, List.filter_nil]
  rw [lowerFields]
  unfold lowerField
  dsimp only
  rw [hExported, List.mapM_cons]
  apply yields_bind
  apply yields_bind
  apply yields_bind
  apply yields_bind
  apply (h _).imp
  intro t z hz
  exact hz

section Nesting

variable (hHolds : v.Holds space name p file d)
variable (hSpace : space.isEmpty = false)
variable (hKnown : v.known.find? space name = none)
variable {inner : String}
variable {n : Nat}
variable {x : Walk Instance Loaded}
include hHolds hSpace hKnown

/- The type of an instance that is not known yet. -/
theorem yields_lowerNest
    (hDeclared : d.type.isInterface = false)
    (place : SourcePlace)
    (hRests : v.Rests
      (Instance.id
        { space, name, args := [.nest inner n] }).name.length
      x) :
    Yields IsCutOff
      (v.lowerExpr place (.named space name [.nest inner n])) x
      fun _ y => v.Awaits
        { space, name, args := [.nest inner n] } y := by
  have hGround : anyHasParam [.nest inner n] = false := by
    simp only [anyHasParam, hasParam_nest, Bool.or_false]
  rw [lowerExpr]
  unfold lowerNamed
  rw [hKnown]
  dsimp only
  rw [hSpace]
  apply yields_bind
  apply yields_held hHolds hRests
  intro y hy
  simp only [lowerDeclared, hHolds.found, hDeclared, hGround]
  apply yields_bind
  apply (yields_enqueue_longer hy).imp
  rintro _ z ⟨-, hAwaits⟩
  exact yields_pure hAwaits

/- The type of the field, which is for one slice more. -/
theorem yields_lowerNesting
    {z : SourceScope}
    {param hint : String}
    (hDeclared : d.type.isInterface = false)
    (hPackage : z.package = p)
    (hBindings :
      z.bindings = [(param, .argument (.nest inner n))])
    (hOther : name ≠ param)
    (hRests : v.Rests
      (Instance.id
        { space, name
          args := [.nest inner (n + 1)] }).name.length
      x) :
    Yields IsCutOff
      (v.lower z hint
        (.pointer
          (.generic (.ident name) [.slice (.ident param)]))) x
      fun _ y => v.Awaits
        { space, name, args := [.nest inner (n + 1)] } y := by
  have hFound : z.package.find? name = some (file, d) := by
    rw [hPackage]
    exact hHolds.found
  have hResolve :=
    SourceScope.resolve?_nesting hBindings hFound hOther
  rw [hPackage, path_of_load hHolds.loaded] at hResolve
  rw [lower]
  apply yields_bind
  rw [lower]
  unfold lowerNames
  rw [hResolve]
  apply (yields_lowerNest (n := n + 1) hHolds hSpace hKnown
    hDeclared z.place hRests).imp
  exact fun _ _ hNext => yields_pure hNext

/- Declaring one instance leaves the next one. -/
theorem yields_declareNest
    (hNesting : isNesting d = true)
    (hName : Spelling.IsPlain name)
    (hInner : Spelling.IsPlain inner)
    (depth : Nat)
    (hAwaits : v.Awaits
      { space, name, args := [.nest inner n] } x) :
    Yields IsCutOff
      (v.declareInstance depth
        { space, name, args := [.nest inner n] })
      { x with queue := [] } fun _ y => v.Awaits
        { space, name, args := [.nest inner (n + 1)] } y := by
  rcases exists_of_isNesting hNesting with
    ⟨param, field, tag, doc, hParams, hOther, hField, hType⟩
  have hOwn := PackageSource.name_of_find? hHolds.found
  rw [hOwn] at hOther hType
  have hBindings :
      bindingsOf? (d.params.map (·.name)) [.nest inner n] =
        some [(param, .argument (.nest inner n))] := by
    rw [hParams]
    rfl
  have hRests := hAwaits.rests
    (TypeExpr.length_nest_lt hName hInner space n)
  rw [declareInstance_eq]
  apply yields_bind
  apply yields_located hHolds hRests hBindings
  intro y hy
  dsimp only
  apply yields_bind
  apply yields_pure
  have hDeclared : d.type.isInterface = false := by
    rw [hType]
    rfl
  unfold lowerDecl
  rw [hType]
  apply yields_bind
  apply yields_bind
  apply (yields_lowerFields_single hField _ tag doc fun _ =>
    yields_lowerNesting hHolds hSpace hKnown hDeclared rfl rfl
      hOther hy).imp
  intro members z hz
  apply yields_pure
  unfold Yields
  rw [run_declare rfl]
  exact ⟨hz.queue, hz.memory, hz.claims, hz.longest⟩

end Nesting

end ModuleView

end Source

------------------------------------------------------------
-- Extractions
------------------------------------------------------------

open Source Walk ModuleView

variable {t : FileTree}
variable {read : SourceReader}
variable {root : String}
variable {known : WellKnown}
variable {module : ModuleSource}
variable {e : TypeExpr}

theorem load_eq_of_toOption
    {r : Except ExtractionFault (Option PackageSource)}
    {p : PackageSource}
    (h : r.toOption.join = some p) : r = .ok (some p) := by
  cases r with
  | error e => cases h
  | ok found => exact congrArg Except.ok h

/- A request whose walks are all cut off has no answer. -/
theorem FileTree.not_answersFinally_of_walks
    (hOpen : ModuleSource.open? t root = .ok module)
    (hWalks : ∀ depth count,
      CutsOff
        (walk { read, tree := t, module, known } depth count
          { roots := [e], scope := [] })
        { memory := [] }) :
    ¬∃ answer, t.AnswersFinally read root known
      { roots := [e], scope := [] } answer := by
  rintro ⟨answer, hEnded, depth, count, hStays⟩
  apply hEnded
  rw [← hStays depth count (Nat.le_refl _) (Nat.le_refl _)]
  have hCheck :
      ExtractionRequest.check { roots := [e], scope := [] } =
        .ok () := rfl
  unfold extractWithin
  rw [hCheck, hOpen]
  unfold finish
  simp only [bind, Except.bind, (hWalks depth count).run_eq]

/-
  A type with a parameter whose bound has no end: there is no
  answer to a request for it.
-/
theorem FileTree.not_answersFinally_of_leadOn
    {space name : String}
    {p : PackageSource}
    {names : List String}
    (hOpen : ModuleSource.open? t root = .ok module)
    (hLoaded : module.load read t space = .ok (some p))
    (hSpace : space.isEmpty = false)
    (hKnown : known.find? space name = none)
    (hLead : LeadOn p names)
    (hBound : ∃ first ∈ names, firstBound? p name = some first) :
    ¬∃ answer, t.AnswersFinally read root known
      { roots := [.named space name []], scope := [] }
      answer := by
  rcases hBound with ⟨first, hFirst, hBound⟩
  rcases Option.bind_eq_some_iff.mp hBound with
    ⟨⟨file, d⟩, hFound, -⟩
  have hHolds :
      Holds { read, tree := t, module, known } space name p file
        d :=
    ⟨hLoaded, hFound⟩
  apply not_answersFinally_of_walks hOpen
  intro depth
  apply cutsOff_walk fun i => i = { space, name }
  · apply
      (yields_require hHolds hSpace hKnown fun _ => rfl).imp
    exact fun _ _ hAwaits => ⟨_, rfl, hAwaits⟩
  · rintro _ x rfl hAwaits
    have hRests := hAwaits.rests (Nat.lt_succ_self _)
    apply (cutsOff_declareInstance hHolds hLead hFirst hBound
      depth hRests).imp
    exact fun _ _ => False.elim

/- An interface that is all of its own bound. -/
def circleTree : FileTree :=
  { entries :=
      [(["go.mod"], .file "module m\n".toUTF8),
        (["m.go"],
          .file
            ("package m\n\n"
              ++ "type C interface \x7b C \x7d\n"
              ++ "type G[T C] struct \x7b X T \x7d\n").toUTF8)] }

def circleRequest : ExtractionRequest :=
  { roots := [.named "m" "G" []], scope := [] }

theorem not_answersFinally_circle :
    ¬∃ answer,
      circleTree.AnswersFinally FileSource.parse? "/" .default
        circleRequest answer := by
  have hCircle :
      (ModuleSource.load { root := "/", path := "m" }
          FileSource.parse? circleTree "m").toOption.join.any (fun p =>
        LeadOn p ["C"]
          ∧ ∃ first ∈ ["C"], firstBound? p "G" = some first) := by
    decide +kernel
  rcases (Option.any_eq_true _ _).mp hCircle with
    ⟨p, hLoaded, hLead⟩
  have hLead := of_decide_eq_true hLead
  exact FileTree.not_answersFinally_of_leadOn
    (by decide +kernel) (load_eq_of_toOption hLoaded)
    (by decide) (by decide +kernel) hLead.1 hLead.2

/-
  A struct that points to itself for slices: there is no
  answer to a request for an instance of it.
-/
theorem FileTree.not_answersFinally_of_isNesting
    {space name inner : String}
    {p : PackageSource}
    (hOpen : ModuleSource.open? t root = .ok module)
    (hLoaded : module.load read t space = .ok (some p))
    (hSpace : space.isEmpty = false)
    (hKnown : known.find? space name = none)
    (hNesting : (p.find? name).any fun d => isNesting d.2)
    (hName : Spelling.IsPlain name)
    (hInner : Spelling.IsPlain inner)
    (hBuiltin : (builtinType? inner).isSome) :
    ¬∃ answer, t.AnswersFinally read root known
      { roots := [.named space name [.builtin inner]]
        scope := [] } answer := by
  rcases (Option.any_eq_true _ _).mp hNesting with
    ⟨⟨file, d⟩, hFound, hNesting⟩
  have hHolds :
      Holds { read, tree := t, module, known } space name p file
        d :=
    ⟨hLoaded, hFound⟩
  apply not_answersFinally_of_walks hOpen
  intro depth
  apply cutsOff_walk fun i =>
    ∃ n, i = { space, name, args := [.nest inner n] }
  · apply (yields_require hHolds hSpace hKnown ?_).imp
    · exact fun _ _ hAwaits => ⟨_, ⟨0, rfl⟩, hAwaits⟩
    · intro x
      simp only [requireArgs, require, hBuiltin]
      rfl
  · rintro _ x ⟨n, rfl⟩ hAwaits
    apply (yields_declareNest hHolds hSpace hKnown hNesting
      hName hInner depth hAwaits).imp
    exact fun _ _ hNext => ⟨_, ⟨n + 1, rfl⟩, hNext⟩

/- A list that grows from one element to the next. -/
def growthTree : FileTree :=
  { entries :=
      [(["go.mod"], .file "module m\n".toUTF8),
        (["m.go"],
          .file
            ("package m\n\n"
              ++ "type L[T any] struct \x7b Next *L[[]T] \x7d\n"
              ).toUTF8)] }

theorem not_answersFinally_growth :
    ¬∃ answer,
      growthTree.AnswersFinally FileSource.parse? "/" .default
        { roots := [.named "m" "L" [.builtin "int"]]
          scope := [] } answer := by
  have hGrowth :
      (ModuleSource.load { root := "/", path := "m" }
          FileSource.parse? growthTree "m").toOption.join.any (fun p =>
        (p.find? "L").any fun d => isNesting d.2) := by
    decide +kernel
  rcases (Option.any_eq_true _ _).mp hGrowth with
    ⟨p, hLoaded, hNesting⟩
  exact FileTree.not_answersFinally_of_isNesting
    (by decide +kernel) (load_eq_of_toOption hLoaded)
    (by decide) (by decide +kernel) hNesting
    ⟨by decide, by decide⟩ ⟨by decide, by decide⟩ (by decide)

end WireSchema
