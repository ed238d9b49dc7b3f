import WireSchema.Proofs.Extraction.Invariant

/-
  What steps keep of a walk, item by item.

  A standard says what is asked of every type that has been
  declared, of every item in the queue and of the memory.  A
  step that keeps to it does so from any state, whatever
  names are taken.

  Key definitions include:
    * `Walk.Standard`, `Walk.Meets`
    * `Walk.Keeps`
    * `Walk.Resolves`, `Walk.Blames`, `Walk.IsClash`
-/

namespace WireSchema.Walk

variable {ι σ α β γ : Type}
variable {Allowed Other : ExtractionFault → Prop}

------------------------------------------------------------
-- Standards
------------------------------------------------------------

/- What is asked of types, of items and of the memory. -/
structure Standard (ι σ : Type) where
  type : WireType → Prop
  item : ι → Prop
  memory : σ → Prop

/- All that a state holds is as a standard asks. -/
structure Meets (S : Standard ι σ) (x : Walk ι σ) : Prop where
  types : ∀ t ∈ x.schema.types, S.type t
  queue : ∀ i ∈ x.queue, S.item i
  memory : S.memory x.memory

variable {S : Standard ι σ}
variable {x y : Walk ι σ}

/- At the start there is nothing but the memory. -/
theorem meets_init
    {memory : σ}
    (h : S.memory memory) :
    Meets S ({ memory } : Walk ι σ) where
  types := by simp
  queue := by simp
  memory := h

/- Names, claims and warnings have no part in it. -/
theorem Meets.congr
    (h : x.Meets S)
    (hTypes : y.schema.types = x.schema.types)
    (hQueue : y.queue = x.queue)
    (hMemory : y.memory = x.memory) : y.Meets S where
  types := by rw [hTypes]; exact h.types
  queue := by rw [hQueue]; exact h.queue
  memory := by rw [hMemory]; exact h.memory

theorem Meets.dequeue
    {i : ι}
    {rest : List ι}
    (h : x.Meets S)
    (hQueue : x.queue = i :: rest) :
    S.item i ∧ Meets S { x with queue := rest } := by
  have hItems := h.queue
  rw [hQueue, List.forall_mem_cons] at hItems
  exact ⟨hItems.1, h.types, hItems.2, h.memory⟩

/- Every fault but one that something does not resolve. -/
def Resolves (e : ExtractionFault) : Prop :=
  ∀ what, e ≠ .unresolved what

/- Of what does not resolve, only what a condition blames. -/
def Blames
    (Missing : String → Prop)
    (e : ExtractionFault) : Prop :=
  ∀ what, e = .unresolved what → Missing what

/- One name for two items. -/
def IsClash (e : ExtractionFault) : Prop :=
  ∃ id first second, e = .nameClash id first second

theorem Resolves.blames
    {Missing : String → Prop}
    {e : ExtractionFault}
    (h : Resolves e) : Blames Missing e :=
  fun what hError => absurd hError (h what)

theorem resolves_unfinished : Resolves .unfinished := by
  intro what hError
  cases hError

theorem resolves_nameClash
    (id : TypeName)
    (first second : String) :
    Resolves (.nameClash id first second) := by
  intro what hError
  cases hError

theorem IsClash.resolves
    {e : ExtractionFault}
    (h : IsClash e) : Resolves e := by
  rcases h with ⟨id, first, second, rfl⟩
  exact resolves_nameClash id first second

------------------------------------------------------------
-- Steps
------------------------------------------------------------

/- A step that keeps to a standard, and what it gives. -/
def Keeps
    (Allowed : ExtractionFault → Prop)
    (S : Standard ι σ)
    (Good : α → Prop)
    (m : WalkStep ι σ α) : Prop :=
  ∀ x, x.Meets S →
    Yields Allowed m x fun a y => y.Meets S ∧ Good a

theorem Keeps.of_run_ok
    {m : WalkStep ι σ α}
    {Good : α → Prop}
    {a : α}
    (hm : Keeps Allowed S Good m)
    (hx : x.Meets S)
    (hRun : m.run x = .ok (a, y)) : y.Meets S ∧ Good a :=
  (hm x hx).of_run_ok hRun

theorem Keeps.of_run_error
    {m : WalkStep ι σ α}
    {Good : α → Prop}
    {e : ExtractionFault}
    (hm : Keeps Allowed S Good m)
    (hx : x.Meets S)
    (hRun : m.run x = .error e) : Allowed e := by
  have hStep := hm x hx
  unfold Yields at hStep
  rw [hRun] at hStep
  exact hStep

theorem keeps_pure
    {Good : α → Prop}
    {a : α}
    (h : Good a) : Keeps Allowed S Good (pure a) :=
  fun _ hx => yields_pure ⟨hx, h⟩

/- A result of which nothing is asked. -/
theorem keeps_return (a : α) :
    Keeps Allowed S (fun _ => True) (pure a) :=
  keeps_pure trivial

theorem keeps_fault
    {Good : α → Prop}
    {e : ExtractionFault}
    (h : Allowed e) : Keeps Allowed S Good (fault e) :=
  fun _ _ => yields_fault h

theorem Keeps.imp
    {m : WalkStep ι σ α}
    {Good Weak : α → Prop}
    (hm : Keeps Allowed S Good m)
    (hImp : ∀ a, Good a → Weak a) :
    Keeps Allowed S Weak m := by
  intro x hx
  apply (hm x hx).imp
  rintro a y ⟨hy, ha⟩
  exact ⟨hy, hImp a ha⟩

/- More faults may be allowed. -/
theorem Keeps.allow
    {m : WalkStep ι σ α}
    {Good : α → Prop}
    (hm : Keeps Allowed S Good m)
    (hAllow : ∀ e, Allowed e → Other e) :
    Keeps Other S Good m := by
  intro x hx
  have hStep := hm x hx
  unfold Yields at hStep ⊢
  cases hRun : m.run x with
  | ok r =>
      rw [hRun] at hStep
      exact hStep
  | error e =>
      rw [hRun] at hStep
      exact hAllow e hStep

/- More may be to blame. -/
theorem Keeps.blames_imp
    {Missing More : String → Prop}
    {m : WalkStep ι σ α}
    {Good : α → Prop}
    (hm : Keeps (Blames Missing) S Good m)
    (hMore : ∀ what, Missing what → More what) :
    Keeps (Blames More) S Good m :=
  hm.allow fun _ h what hError => hMore what (h what hError)

/- A step for which everything resolves. -/
theorem Keeps.blames
    {Missing : String → Prop}
    {m : WalkStep ι σ α}
    {Good : α → Prop}
    (hm : Keeps Resolves S Good m) :
    Keeps (Blames Missing) S Good m :=
  hm.allow fun _ h => h.blames

theorem Keeps.bind
    {m : WalkStep ι σ α}
    {f : α → WalkStep ι σ β}
    {GoodA : α → Prop}
    {GoodB : β → Prop}
    (hm : Keeps Allowed S GoodA m)
    (hf : ∀ a, GoodA a → Keeps Allowed S GoodB (f a)) :
    Keeps Allowed S GoodB (m >>= f) := by
  intro x hx
  apply yields_bind
  apply (hm x hx).imp
  rintro a y ⟨hy, ha⟩
  exact hf a ha y hy

theorem Keeps.map
    {m : WalkStep ι σ α}
    {f : α → β}
    {GoodA : α → Prop}
    {GoodB : β → Prop}
    (hm : Keeps Allowed S GoodA m)
    (hf : ∀ a, GoodA a → GoodB (f a)) :
    Keeps Allowed S GoodB (do let a ← m; pure (f a)) :=
  hm.bind fun a ha => keeps_pure (hf a ha)

theorem keeps_mapM
    {f : α → WalkStep ι σ β}
    {Good : β → Prop}
    {xs : List α}
    (hf : ∀ a ∈ xs, Keeps Allowed S Good (f a)) :
    Keeps Allowed S (fun bs => ∀ b ∈ bs, Good b)
      (xs.mapM f) := by
  induction xs with
  | nil =>
      rw [List.mapM_nil]
      exact keeps_pure (List.forall_mem_nil _)
  | cons a rest ih =>
      rw [List.forall_mem_cons] at hf
      rw [List.mapM_cons]
      apply hf.1.bind
      intro b hb
      apply (ih hf.2).map
      intro bs hbs
      exact List.forall_mem_cons.mpr ⟨hb, hbs⟩

theorem keeps_forM
    {f : α → WalkStep ι σ PUnit}
    {Good : α → Prop}
    {xs : List α}
    (hf : ∀ a ∈ xs, Keeps Allowed S (fun _ => Good a) (f a)) :
    Keeps Allowed S (fun _ => ∀ a ∈ xs, Good a)
      (xs.forM f) := by
  induction xs with
  | nil => exact keeps_pure (List.forall_mem_nil _)
  | cons a rest ih =>
      rw [List.forall_mem_cons] at hf
      rw [List.forM_eq_forM, List.forM_cons]
      apply hf.1.bind
      intro _ ha
      apply (ih hf.2).imp
      intro _ hRest
      exact List.forall_mem_cons.mpr ⟨ha, hRest⟩

------------------------------------------------------------
-- Single Steps
------------------------------------------------------------

theorem keeps_note (w : Warning) :
    Keeps Allowed S (fun _ => True)
      (note w : WalkStep ι σ Unit) := by
  intro x hx
  apply yields_modify
  have hTypes := Schema.types_note x.schema w
  exact ⟨hx.congr hTypes rfl rfl, trivial⟩

/- A warning in front of a step. -/
theorem keeps_noted
    {m : WalkStep ι σ α}
    {Good : α → Prop}
    (w : Warning)
    (hm : Keeps Allowed S Good m) :
    Keeps Allowed S Good (do note w; m) :=
  (keeps_note w).bind fun _ _ => hm

theorem keeps_takeName (id : TypeName) :
    Keeps Allowed S (fun _ => True)
      (takeName id : WalkStep ι σ Bool) := by
  intro x hx
  apply yields_takeName
  · intro _
    exact ⟨hx, trivial⟩
  · intro _
    exact ⟨hx.congr rfl rfl rfl, trivial⟩

theorem keeps_claim
    [BEq ι]
    {shown : ι → String}
    {id : TypeName}
    {i : ι}
    (hClash : ∀ first, Allowed (.nameClash id first (shown i))) :
    Keeps Allowed S (fun _ => True) (claim shown id i) := by
  intro x hx
  apply yields_claim
  · intro _ _ _
    exact ⟨hx, trivial⟩
  · intro _
    exact ⟨hx.congr rfl rfl rfl, trivial⟩
  · intro first _ _
    exact hClash (shown first)

theorem keeps_enqueue
    {i : ι}
    (id : TypeName)
    (hItem : S.item i) :
    Keeps Allowed S (fun _ => True)
      (enqueue id i : WalkStep ι σ Unit) := by
  intro x hx
  apply yields_enqueue
  · intro _
    exact ⟨hx, trivial⟩
  · intro _
    refine ⟨⟨hx.types, ?_, hx.memory⟩, trivial⟩
    intro j hj
    rcases List.mem_append.mp hj with hj | hj
    · exact hx.queue j hj
    · rwa [List.mem_singleton.mp hj]

/- A declaration with a name, as the standard asks for it. -/
theorem keeps_declare
    {id : TypeName}
    {t : WireType}
    (hId : t.id? = some id)
    (ht : S.type t) :
    Keeps Allowed S (fun _ => True)
      (declare t : WalkStep ι σ Unit) := by
  intro x hx
  unfold Yields
  rw [run_declare hId]
  refine ⟨⟨?_, hx.queue, hx.memory⟩, trivial⟩
  intro u hu
  rcases List.mem_append.mp hu with hu | hu
  · exact hx.types u hu
  · rwa [List.mem_singleton.mp hu]

/- Items are declared one by one until none is left. -/
theorem keeps_drain
    {declareItem : ι → WalkStep ι σ Unit}
    (hUnfinished : Allowed .unfinished)
    (hItem : ∀ i, S.item i →
      Keeps Allowed S (fun _ => True) (declareItem i))
    (bound : Nat) :
    Keeps Allowed S (fun _ => True)
      (drain declareItem bound) := by
  intro x hx
  refine (yields_drain (fun _ => Meets S) ?_ ?_ bound hx).imp ?_
  · intro _ _ _
    exact hUnfinished
  · intro n y i rest hy hQueue
    have hPopped := hy.dequeue hQueue
    apply (hItem i hPopped.1 _ hPopped.2).imp
    intro _ z hz
    exact hz.1
  · rintro _ y ⟨-, n, hy⟩
    exact ⟨hy, trivial⟩

------------------------------------------------------------
-- Whole Walks
------------------------------------------------------------

/-
  The namespaces of a scope.  Of those that are lacking, the
  first is to blame.
-/
theorem keeps_scope
    {f : String → WalkStep ι σ Unit}
    {lacks : String → Bool}
    {scope : List String}
    (hf : ∀ space ∈ scope,
      Keeps
        (fun e => e = .unresolved space ∧ lacks space = true
          ∨ Other e)
        S (fun _ => lacks space = false) (f space)) :
    Keeps
      (fun e =>
        (∃ what, e = .unresolved what
          ∧ scope.find? lacks = some what)
          ∨ Other e)
      S (fun _ => scope.find? lacks = none) (scope.forM f) := by
  induction scope with
  | nil => exact keeps_pure rfl
  | cons space rest ih =>
      rw [List.forall_mem_cons] at hf
      rw [List.forM_eq_forM, List.forM_cons]
      apply (hf.1.allow ?_).bind
      · intro _ hHas
        rw [List.find?_cons_of_neg (by simp [hHas])]
        exact ih hf.2
      · rintro e (⟨hError, hLacks⟩ | hOther)
        · left
          exact ⟨space, hError, List.find?_cons_of_pos hLacks⟩
        · exact .inr hOther

section Ends

variable {steps : WalkStep ι σ Unit}
variable {Good : Unit → Prop}
variable {memory : σ}

/- All types of a schema are as the standard asks. -/
theorem Keeps.of_finish_eq_ok
    {s : Schema}
    (h : Keeps Allowed S Good steps)
    (hMemory : S.memory memory)
    (hEnd : finish memory steps = .ok s) :
    (∀ t ∈ s.types, S.type t) ∧ Good () := by
  unfold finish at hEnd
  rcases eq_ok_of_bind hEnd with ⟨⟨_, y⟩, hRun, hSchema⟩
  cases hSchema
  have hKept := h.of_run_ok (meets_init hMemory) hRun
  exact ⟨hKept.1.types, hKept.2⟩

theorem Keeps.of_finish_eq_error
    {e : ExtractionFault}
    (h : Keeps Allowed S Good steps)
    (hMemory : S.memory memory)
    (hEnd : finish memory steps = .error e) : Allowed e := by
  have hRun := eq_error_of_bind_ok hEnd
  exact h.of_run_error (meets_init hMemory) hRun

/- Nothing but the walk fails, once something is asked for. -/
theorem resolves_of_check
    {r : ExtractionRequest}
    {e : ExtractionFault}
    (h : r.check = .error e) : Resolves e := by
  unfold ExtractionRequest.check at h
  split at h
  · cases h
    exact fun _ => nofun
  · cases h

theorem check_of_mem_scope
    {r : ExtractionRequest}
    {space : String}
    (h : space ∈ r.scope) : r.check = .ok () := by
  unfold ExtractionRequest.check
  cases hScope : r.scope with
  | nil =>
      rw [hScope] at h
      cases h
  | cons first rest => simp

/- A walk of which nothing good can come fails. -/
theorem Keeps.exists_fault
    (h : Keeps Allowed S (fun _ => False) steps)
    (hMemory : S.memory memory) :
    ∃ e, finish memory steps = .error e ∧ Allowed e := by
  cases hEnd : finish memory steps with
  | ok s => exact (h.of_finish_eq_ok hMemory hEnd).2.elim
  | error e => exact ⟨e, rfl, h.of_finish_eq_error hMemory hEnd⟩

end Ends

------------------------------------------------------------
-- Members
------------------------------------------------------------

/- Fields that are as a condition says. -/
def FieldsMeet
    (Good : Field WireType → Prop)
    (m : Members) : Prop :=
  ∀ f ∈ m.1, Good f

variable {Good : Field WireType → Prop}

theorem fieldsMeet_nil
    (parents : List TypeName) : FieldsMeet Good ([], parents) :=
  List.forall_mem_nil _

theorem FieldsMeet.append
    {a b : Members}
    (ha : FieldsMeet Good a)
    (hb : FieldsMeet Good b) : FieldsMeet Good (a.append b) := by
  intro f hf
  rcases List.mem_append.mp hf with hf | hf
  · exact ha f hf
  · exact hb f hf

theorem fieldsMeet_foldl
    {parts : List Members}
    {first : Members}
    (hFirst : FieldsMeet Good first)
    (hParts : ∀ m ∈ parts, FieldsMeet Good m) :
    FieldsMeet Good (parts.foldl Members.append first) := by
  induction parts generalizing first with
  | nil => exact hFirst
  | cons m rest ih =>
      rw [List.forall_mem_cons] at hParts
      exact ih (hFirst.append hParts.1) hParts.2

section Fields

variable {t : WalkStep ι σ WireType}
variable {Lowered : WireType → Prop}
variable {name : String}
variable {facts : FieldFacts}
variable {doc : Doc}

/- A field of a type is made of that type. -/
theorem keeps_tagged
    (ht : Keeps Allowed S Lowered t)
    (hField : ∀ t, Lowered t →
      Good (taggedField name facts t doc)) :
    Keeps Allowed S (FieldsMeet Good)
      (do
        let t ← t
        pure ([taggedField name facts t doc], [])) := by
  apply ht.map
  intro t hLowered f hf
  rw [List.mem_singleton.mp hf]
  exact hField t hLowered

theorem keeps_exported
    (ht : Keeps Allowed S Lowered t)
    (hField : ∀ t, Lowered t →
      Good (taggedField name facts t doc)) :
    Keeps Allowed S (FieldsMeet Good)
      (if isExported name then do
        let t ← t
        pure ([taggedField name facts t doc], [])
      else pure ([], [])) := by
  split
  · exact keeps_tagged ht hField
  · exact keeps_pure (fieldsMeet_nil [])

end Fields

/- What a field adds if there is no parent in its place. -/
theorem keeps_parentOr
    {parent? : WalkStep ι σ (Option TypeName)}
    {own : WalkStep ι σ Members}
    (hParent : Keeps Allowed S (fun _ => True) parent?)
    (hOwn : Keeps Allowed S (FieldsMeet Good) own) :
    Keeps Allowed S (FieldsMeet Good)
      (do
        match ← parent? with
        | some parent => pure ([], [parent])
        | none => own) := by
  apply hParent.bind
  intro parent? _
  cases parent? with
  | none => exact hOwn
  | some parent => exact keeps_pure (fieldsMeet_nil _)

theorem keeps_append
    {first more : WalkStep ι σ Members}
    (hFirst : Keeps Allowed S (FieldsMeet Good) first)
    (hMore : Keeps Allowed S (FieldsMeet Good) more) :
    Keeps Allowed S (FieldsMeet Good)
      (do
        let first ← first
        let more ← more
        pure (first.append more)) :=
  hFirst.bind fun _ ha => hMore.map fun _ hb => ha.append hb

/-
  A struct without a name is declared if its name is free.
-/
theorem keeps_struct
    {id : TypeName}
    {source : Option SourcePlace}
    {members : WalkStep ι σ Members}
    (hMembers : Keeps Allowed S (FieldsMeet Good) members)
    (hRecord : ∀ d : RecordDecl WireType,
      (∀ f ∈ d.fields, Good f) → S.type (.record d)) :
    Keeps Allowed S (fun t : WireType => t = .reference id)
      (do
        if ← takeName id then
          let (fields, parents) ← members
          declare (.record { id, fields, parents, source })
        pure (.reference id)) := by
  apply (keeps_takeName id).bind
  intro free _
  cases free with
  | false => exact keeps_pure rfl
  | true =>
      apply hMembers.bind
      rintro ⟨fields, parents⟩ hFields
      have hDecl := hRecord { id, fields, parents, source } hFields
      exact (keeps_declare rfl hDecl).bind fun _ _ =>
        keeps_pure rfl

end WireSchema.Walk
