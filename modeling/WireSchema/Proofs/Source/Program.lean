import WireSchema.Proofs.Source.Extraction
import WireSchema.Proofs.Source.Kinds

/-
  The walk through a module as a program of single calls.

  A step is a function of the state and does not show what
  it calls on the way.  A program does: it is a tree of calls
  with what follows upon each answer.  Every part of the walk
  is the step of a program, so that what each call keeps is
  kept by the walk.

  Key definitions include:
    * `Call`, `Program`
    * `Program.step`, `Program.asked`
    * `Programmed`, `Asks`
    * `asks_walk`
-/

namespace WireSchema

/- A fault that two names have become one. -/
def ExtractionFault.isClash : ExtractionFault → Bool
  | .nameClash .. => true
  | _ => false

namespace Source

open Walk

variable {α β : Type}
variable {v : ModuleView}

------------------------------------------------------------
-- Calls
------------------------------------------------------------

/- What a walk does to its state, by the type of the answer. -/
inductive Call : Type → Type where
  | note (w : Warning) : Call Unit
  | declare (t : WireType) : Call Unit
  | takeName (id : TypeName) : Call Bool
  | package (path : String) : Call (Option PackageSource)
  | enqueue (i : Instance) : Call TypeName
  | dequeue : Call (Option Instance)

namespace Call

/- The first item of the queue, which leaves it. -/
def pop : ModuleStep (Option Instance) := do
  let x ← get
  match x.queue with
  | [] => pure none
  | i :: rest => do
      set { x with queue := rest }
      pure (some i)

def step (v : ModuleView) : Call β → ModuleStep β
  | .note w => Walk.note w
  | .declare t => Walk.declare t
  | .takeName id => Walk.takeName id
  | .package path => v.package? path
  | .enqueue i => i.enqueue
  | .dequeue => pop

/- The instances that a call asks for. -/
def asks : Call β → List Instance
  | .enqueue i => [i]
  | .note _ | .declare _ | .takeName _ | .package _
  | .dequeue => []

end Call

------------------------------------------------------------
-- Programs
------------------------------------------------------------

/-
  Calls in order, each with what follows upon its answer.
  Clashes are found by calls only.
-/
inductive Program (α : Type) : Type 1 where
  | pure (a : α)
  | fault (e : ExtractionFault) (hOther : e.isClash = false)
  | call {β : Type} (c : Call β) (next : β → Program α)

namespace Program

def step (v : ModuleView) : Program α → ModuleStep α
  | .pure a => Pure.pure a
  | .fault e _ => Walk.fault e
  | .call c next => do
      let a ← c.step v
      step v (next a)

def bind (f : α → Program β) : Program α → Program β
  | .pure a => f a
  | .fault e hOther => .fault e hOther
  | .call c next => .call c fun a => bind f (next a)

theorem step_bind (f : α → Program β) (p : Program α) :
    (p.bind f).step v = (do let a ← p.step v; (f a).step v) := by
  induction p with
  | pure a => simp only [bind, step, pure_bind]
  | fault e hOther => rfl
  | call c next ih => simp only [bind, step, ih, bind_assoc]

/-
  The instances that a run from a state asks for, in order,
  up to the call that fails if there is one.
-/
def asked (v : ModuleView) :
    Program α → Walk Instance Loaded → List Instance
  | .pure _, _ => []
  | .fault _ _, _ => []
  | .call c next, x =>
      c.asks ++
        match (c.step v).run x with
        | .ok (a, y) => asked v (next a) y
        | .error _ => []

/- What follows asks for more if it comes to that. -/
theorem asked_bind
    (f : α → Program β)
    (p : Program α)
    (x : Walk Instance Loaded) :
    (p.bind f).asked v x =
      p.asked v x ++
        match (p.step v).run x with
        | .ok (a, y) => (f a).asked v y
        | .error _ => [] := by
  induction p generalizing x with
  | pure a => rfl
  | fault e hOther => rfl
  | call c next ih =>
      simp only [bind, asked, step, StateT.run_bind]
      cases (c.step v).run x with
      | error e => simp [Bind.bind, Except.bind]
      | ok r =>
          dsimp only
          rw [ih r.1 r.2, ← List.append_assoc]
          rfl

end Program

------------------------------------------------------------
-- Steps of Programs
------------------------------------------------------------

/- A step is that of some program. -/
def Programmed (v : ModuleView) (m : ModuleStep α) : Prop :=
  ∃ p : Program α, p.step v = m

theorem programmed_pure (a : α) :
    Programmed v (pure a) :=
  ⟨.pure a, rfl⟩

theorem programmed_fault
    {e : ExtractionFault}
    (hOther : e.isClash = false) :
    Programmed v (fault e : ModuleStep α) :=
  ⟨.fault e hOther, rfl⟩

theorem programmed_call (c : Call β) :
    Programmed v (c.step v) :=
  ⟨.call c .pure, bind_pure (c.step v)⟩

theorem Programmed.bind
    {m : ModuleStep α}
    {f : α → ModuleStep β}
    (hm : Programmed v m)
    (hf : ∀ a, Programmed v (f a)) :
    Programmed v (m >>= f) := by
  rcases hm with ⟨p, rfl⟩
  choose next hNext using hf
  refine ⟨p.bind next, ?_⟩
  rw [Program.step_bind]
  simp only [hNext]

theorem Programmed.map
    {m : ModuleStep α}
    {f : α → β}
    (hm : Programmed v m) :
    Programmed v (do let a ← m; pure (f a)) :=
  hm.bind fun a => programmed_pure (f a)

theorem programmed_mapM
    {f : α → ModuleStep β}
    (hf : ∀ a, Programmed v (f a))
    (xs : List α) : Programmed v (xs.mapM f) := by
  induction xs with
  | nil =>
      rw [List.mapM_nil]
      exact programmed_pure []
  | cons a rest ih =>
      rw [List.mapM_cons]
      exact (hf a).bind fun _ => ih.map

theorem programmed_forM
    {f : α → ModuleStep PUnit}
    (hf : ∀ a, Programmed v (f a))
    (xs : List α) : Programmed v (xs.forM f) := by
  induction xs with
  | nil => exact programmed_pure _
  | cons a rest ih => exact (hf a).bind fun _ => ih

theorem programmed_package (path : String) :
    Programmed v (v.package? path) :=
  programmed_call (.package path)

theorem programmed_enqueue (i : Instance) :
    Programmed v i.enqueue :=
  programmed_call (.enqueue i)

------------------------------------------------------------
-- Lowering
------------------------------------------------------------

/- Steps of programs are a kind of steps. -/
theorem isKind_programmed :
    IsKind v fun _ m => Programmed v m where
  pure := programmed_pure
  bind := Programmed.bind
  note w := programmed_call (.note w)
  declare t := programmed_call (.declare t)
  takeName id := programmed_call (.takeName id)
  package := programmed_package

theorem programmed_expr (place : SourcePlace) (e : TypeExpr) :
    Programmed v (v.lowerExpr place e) :=
  isKind_programmed.expr place e fun _ _ _ _ _ _ =>
    programmed_enqueue _

theorem programmed_isStruct (x : SourceScope) (t : SourceType) :
    Programmed v (v.isStruct x t) :=
  isKind_programmed.isStruct x t

/- Whatever a type stands for is lowered by a program. -/
theorem reads_programmed (x : SourceScope) (us : List SourceType) :
    IsKind.Reads v (fun _ m => Programmed v m) x us :=
  fun _ _ e _ => programmed_expr x.place e

theorem programmed_type
    (x : SourceScope)
    (hint : String)
    (t : SourceType) : Programmed v (v.lower x hint t) :=
  (isKind_programmed.types x).1 hint t (reads_programmed x _)

------------------------------------------------------------
-- Bounds and Enumerations
------------------------------------------------------------

theorem programmed_bounds (depth : Nat) :
    (∀ x t, Programmed v (v.lowerBound depth x t))
      ∧ ∀ x t, Programmed v (v.lowerTerm depth x t) := by
  induction depth with
  | zero =>
      constructor
      · intro x t
        unfold ModuleView.lowerBound
        exact programmed_fault rfl
      · intro x t
        unfold ModuleView.lowerTerm
        exact programmed_fault rfl
  | succ depth ih =>
      have hType := programmed_type (v := v)
      constructor
      · intro x t
        have hTerms := programmed_mapM (ih.2 x)
        cases t with
        | ident name =>
            unfold ModuleView.lowerBound
            split
            · exact programmed_pure _
            · split
              · exact ih.1 _ _
              · exact (hType x _ _).map
        | qualified package name =>
            unfold ModuleView.lowerBound
            split
            · exact programmed_pure _
            · apply (programmed_package _).bind
              intro found
              split
              · exact programmed_pure _
              · split
                · exact ih.1 _ _
                · exact (hType x _ _).map
        | interface elems hasMethods =>
            unfold ModuleView.lowerBound
            exact (hTerms elems).map
        | union items =>
            unfold ModuleView.lowerBound
            exact (hTerms items).map
        | _ =>
            unfold ModuleView.lowerBound
            exact (hType x _ _).map
      · intro x t
        cases t with
        | union items =>
            unfold ModuleView.lowerTerm
            exact (programmed_mapM (ih.2 x) items).map
        | tilde elem =>
            unfold ModuleView.lowerTerm
            exact (hType x _ _).map
        | _ =>
            unfold ModuleView.lowerTerm
            exact (ih.1 x _).map

theorem programmed_enumeration
    (p : PackageSource)
    (id : TypeName)
    (d : TypeSource) :
    Programmed v (enumeration p id d) :=
  isKind_programmed.enumeration p id d

------------------------------------------------------------
-- Declarations
------------------------------------------------------------

theorem programmed_params
    (depth : Nat)
    (x : SourceScope)
    (ps : List SourceParam) :
    Programmed v (v.lowerParams depth x ps) := by
  induction ps with
  | nil => exact programmed_pure _
  | cons p rest ih =>
      unfold ModuleView.lowerParams
      exact ((programmed_bounds _).1 x p.bound).bind
        fun _ => ih.map

theorem programmed_decl
    (x : SourceScope)
    (id : TypeName)
    (params : List (TypeParam WireType))
    (d : TypeSource) :
    Programmed v (v.lowerDecl x id params d) :=
  isKind_programmed.decl (reads_programmed x _) id params

theorem programmed_declareInstance (depth : Nat) (i : Instance) :
    Programmed v (v.declareInstance depth i) := by
  unfold ModuleView.declareInstance
  apply (programmed_package i.space).bind
  intro package
  split
  · next p file d hFound =>
      split
      · exact programmed_fault rfl
      · next bindings hBindings =>
          have hDeclared : ∀ params,
              Programmed v
                (do
                  let t ← v.lowerDecl
                    { package := p, file, bindings,
                      place := d.place } i.id params d
                  declare t) := by
            intro params
            exact (programmed_decl _ _ _ _).bind isKind_programmed.declare
          dsimp only
          split
          · exact (programmed_params _ _ _).bind hDeclared
          · exact (programmed_pure []).bind hDeclared
  · exact programmed_fault rfl

------------------------------------------------------------
-- Requests
------------------------------------------------------------

theorem programmed_requireSpace (space : String) :
    Programmed v (v.requireSpace space) := by
  unfold ModuleView.requireSpace
  apply (programmed_package space).bind
  intro found
  split
  · exact programmed_fault rfl
  · exact programmed_forM
      (fun _ => (programmed_enqueue _).map) _

theorem programmed_checkRoot (space name text : String) :
    Programmed v (v.checkRoot space name text) := by
  unfold ModuleView.checkRoot
  apply isKind_programmed.space space
  intro package
  split
  · exact programmed_pure _
  · exact programmed_fault rfl

/-
  A step is that of a program which asks for given instances
  whenever it comes to its end.
-/
def Asks
    (v : ModuleView)
    (wanted : List Instance)
    (m : ModuleStep α) : Prop :=
  ∃ p : Program α, p.step v = m
    ∧ ∀ x a y, m.run x = .ok (a, y) → wanted ⊆ p.asked v x

theorem Programmed.asks
    {m : ModuleStep α}
    (hm : Programmed v m) : Asks v [] m := by
  rcases hm with ⟨p, hp⟩
  exact ⟨p, hp, fun _ _ _ _ => List.nil_subset _⟩

theorem Asks.bind
    {m : ModuleStep α}
    {f : α → ModuleStep β}
    {first more : List Instance}
    (hm : Asks v first m)
    (hf : ∀ a, Asks v more (f a)) :
    Asks v (first ++ more) (m >>= f) := by
  rcases hm with ⟨p, rfl, hFirst⟩
  choose next hNext hMore using hf
  refine ⟨p.bind next, ?_, ?_⟩
  · rw [Program.step_bind]
    simp only [hNext]
  · intro x b z hRun
    rcases run_bind_eq_ok hRun with ⟨a, y, hFirstRun, hNextRun⟩
    rw [Program.asked_bind, hFirstRun]
    exact List.append_subset.mpr
      ⟨List.subset_append_of_subset_left _
        (hFirst x a y hFirstRun),
        List.subset_append_of_subset_right _
          (hMore a y b z hNextRun)⟩

theorem asks_enqueue (i : Instance) : Asks v [i] i.enqueue := by
  refine ⟨.call (.enqueue i) .pure, bind_pure _, ?_⟩
  intro x a y _
  unfold Program.asked Call.asks
  exact List.subset_append_left _ _

theorem asks_forM
    {f : α → ModuleStep PUnit}
    {wanted : α → List Instance}
    (hf : ∀ a, Asks v (wanted a) (f a))
    (xs : List α) : Asks v (xs.flatMap wanted) (xs.forM f) := by
  induction xs with
  | nil => exact (programmed_pure _).asks
  | cons a rest ih => exact (hf a).bind fun _ => ih

mutual

/- The instances that a root is made of. -/
def rootInstances (known : WellKnown) :
    TypeExpr → List Instance
  | .named space name args =>
      if (known.find? space name).isSome then []
      else argInstances known args ++ [{ space, name, args }]
  | .pointer elem => rootInstances known elem
  | .slice elem => rootInstances known elem
  | .array _ elem => rootInstances known elem
  | .map key value =>
      rootInstances known key ++ rootInstances known value
  | .builtin _ => []
  | .param _ => []

def argInstances (known : WellKnown) :
    List TypeExpr → List Instance
  | [] => []
  | arg :: rest =>
      rootInstances known arg ++ argInstances known rest

end

theorem asks_roots :
    (∀ t, Asks v (rootInstances v.known t) (v.require t))
      ∧ ∀ args,
        Asks v (argInstances v.known args)
          (v.requireArgs args) := by
  refine ModuleView.require.mutual_induct v _ _
    ?known ?named ?pointer ?slice ?array ?map ?builtin ?other
    ?param ?noArg ?arg
  case known =>
    intro space name args hKnown
    unfold ModuleView.require rootInstances
    rw [if_pos hKnown, if_pos hKnown]
    exact (programmed_pure _).asks
  case named =>
    intro space name args hUnknown hArgs
    unfold ModuleView.require rootInstances
    rw [if_neg hUnknown, if_neg hUnknown]
    have hCheck := programmed_checkRoot (v := v) space name
      (TypeExpr.named space name args).text
    apply hCheck.asks.bind
    intro _
    apply hArgs.bind
    intro _
    exact (asks_enqueue _).bind fun _ =>
      (programmed_pure ()).asks
  case pointer | slice =>
    intro elem hElem
    unfold ModuleView.require rootInstances
    exact hElem
  case array =>
    intro len elem hElem
    unfold ModuleView.require rootInstances
    exact hElem
  case map =>
    intro key value hKey hValue
    unfold ModuleView.require rootInstances
    exact hKey.bind fun _ => hValue
  case builtin =>
    intro name hName
    unfold ModuleView.require rootInstances
    rw [if_pos hName]
    exact (programmed_pure _).asks
  case other =>
    intro name hName
    unfold ModuleView.require rootInstances
    rw [if_neg hName]
    have hFault : Programmed v
        (fault (.unresolved name) : ModuleStep Unit) :=
      programmed_fault rfl
    exact hFault.asks
  case param =>
    intro name
    unfold ModuleView.require rootInstances
    exact (programmed_pure _).asks
  case noArg =>
    unfold ModuleView.requireArgs argInstances
    exact (programmed_pure _).asks
  case arg =>
    intro arg rest hArg hRest
    unfold ModuleView.requireArgs argInstances
    exact hArg.bind fun _ => hRest

------------------------------------------------------------
-- The Walk
------------------------------------------------------------

/- To drain is to pop one item after the other. -/
theorem drain_zero (declareItem : Instance → ModuleStep Unit) :
    drain declareItem 0 =
      (do
        match ← Call.pop with
        | none => pure ()
        | some _ => fault .unfinished) := by
  unfold drain Call.pop
  rw [bind_assoc]
  apply bind_congr
  intro x
  cases x.queue with
  | nil => rfl
  | cons i rest => rfl

theorem drain_succ
    (declareItem : Instance → ModuleStep Unit)
    (bound : Nat) :
    drain declareItem (bound + 1) =
      (do
        match ← Call.pop with
        | none => pure ()
        | some i => do
            declareItem i
            drain declareItem bound) := by
  rw [drain]
  unfold Call.pop
  rw [bind_assoc]
  apply bind_congr
  intro x
  cases x.queue with
  | nil => rfl
  | cons i rest => rfl

theorem programmed_drain (depth bound : Nat) :
    Programmed v (drain (v.declareInstance depth) bound) := by
  induction bound with
  | zero =>
      rw [drain_zero]
      apply (programmed_call .dequeue).bind
      intro first
      cases first with
      | none => exact programmed_pure ()
      | some i => exact programmed_fault rfl
  | succ n ih =>
      rw [drain_succ]
      apply (programmed_call .dequeue).bind
      intro first
      cases first with
      | none => exact programmed_pure ()
      | some i =>
          exact (programmed_declareInstance depth i).bind
            fun _ => ih

/- The walk is a program of calls and asks for its roots. -/
theorem asks_walk (depth count : Nat) (r : ExtractionRequest) :
    Asks v (r.roots.flatMap (rootInstances v.known))
      (v.walk depth count r) := by
  have hScope := programmed_forM (v := v)
    programmed_requireSpace r.scope
  have hDrain := programmed_drain (v := v) depth count
  have hRoots := (asks_forM (v := v) asks_roots.1 r.roots).bind
    fun _ => hDrain.asks
  have hWalk := hScope.asks.bind fun _ => hRoots
  rw [List.nil_append, List.append_nil] at hWalk
  exact hWalk

end Source

end WireSchema
