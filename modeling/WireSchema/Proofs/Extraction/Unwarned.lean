import WireSchema.Extraction.Walk

/-
  Steps of a walk that differ in their warnings alone.

  Warnings are written and never read, so that steps that
  agree on everything else go on to agree on it.

  Key definitions include:
    * `Walk.warned`, `Walk.unwarned`
    * `Walk.Matches`
-/

namespace WireSchema.Walk

variable {ι σ α β : Type}

/- A state with other warnings. -/
def warned (x : Walk ι σ) (ws : List Warning) : Walk ι σ :=
  { x with schema := { x.schema with warnings := ws } }

/- A state without the warnings that have been given. -/
def unwarned (x : Walk ι σ) : Walk ι σ :=
  x.warned []

/- How a run ends, but for its warnings. -/
def ending
    (m : WalkStep ι σ α)
    (x : Walk ι σ) : Except ExtractionFault (α × Walk ι σ) :=
  (m.run x).map fun r => (r.1, r.2.unwarned)

section

variable (x : Walk ι σ)
variable (ws : List Warning)

@[simp]
theorem warned_taken : (x.warned ws).taken = x.taken :=
  rfl

@[simp]
theorem warned_claims : (x.warned ws).claims = x.claims :=
  rfl

@[simp]
theorem warned_queue : (x.warned ws).queue = x.queue :=
  rfl

@[simp]
theorem warned_memory : (x.warned ws).memory = x.memory :=
  rfl

end

/-
  From states that differ in their warnings alone, two steps
  give the same result, or fail with the same fault, and end
  in states that differ in their warnings alone.
-/
def Matches (m n : WalkStep ι σ α) : Prop :=
  ∀ x y : Walk ι σ, x.unwarned = y.unwarned →
    ending m x = ending n y

------------------------------------------------------------
-- Runs
------------------------------------------------------------

theorem ending_of_run_ok
    {m : WalkStep ι σ α}
    {x y : Walk ι σ}
    {a : α}
    (h : m.run x = .ok (a, y)) :
    ending m x = .ok (a, y.unwarned) := by
  unfold ending
  rw [h]
  rfl

theorem ending_of_run_error
    {m : WalkStep ι σ α}
    {x : Walk ι σ}
    {e : ExtractionFault}
    (h : m.run x = .error e) : ending m x = .error e := by
  unfold ending
  rw [h]
  rfl

theorem ending_bind_of_run_ok
    {m : WalkStep ι σ α}
    {f : α → WalkStep ι σ β}
    {x y : Walk ι σ}
    {a : α}
    (h : m.run x = .ok (a, y)) :
    ending (m >>= f) x = ending (f a) y := by
  unfold ending
  rw [StateT.run_bind, h]
  rfl

theorem ending_bind_of_run_error
    {m : WalkStep ι σ α}
    {f : α → WalkStep ι σ β}
    {x : Walk ι σ}
    {e : ExtractionFault}
    (h : m.run x = .error e) :
    ending (m >>= f) x = .error e := by
  unfold ending
  rw [StateT.run_bind, h]
  rfl

------------------------------------------------------------
-- Laws
------------------------------------------------------------

theorem matches_pure (a : α) :
    Matches (pure a : WalkStep ι σ α) (pure a) := by
  intro x y h
  rw [ending_of_run_ok (m := pure a) (x := x) rfl,
    ending_of_run_ok (m := pure a) (x := y) rfl, h]

theorem matches_fault (e : ExtractionFault) :
    Matches (fault e : WalkStep ι σ α) (fault e) := by
  intro x y h
  rfl

theorem Matches.bind
    {m n : WalkStep ι σ α}
    {f g : α → WalkStep ι σ β}
    (h : Matches m n)
    (hNext : ∀ a, Matches (f a) (g a)) :
    Matches (m >>= f) (n >>= g) := by
  intro x y hxy
  have hEnds := h x y hxy
  cases hm : m.run x with
  | error e =>
      rw [ending_of_run_error hm] at hEnds
      cases hn : n.run y with
      | error e' =>
          rw [ending_of_run_error hn] at hEnds
          cases hEnds
          rw [ending_bind_of_run_error hm,
            ending_bind_of_run_error hn]
      | ok s =>
          rw [ending_of_run_ok hn] at hEnds
          cases hEnds
  | ok r =>
      rw [ending_of_run_ok hm] at hEnds
      cases hn : n.run y with
      | error e =>
          rw [ending_of_run_error hn] at hEnds
          cases hEnds
      | ok s =>
          rw [ending_of_run_ok hn] at hEnds
          simp only [Except.ok.injEq, Prod.mk.injEq] at hEnds
          rw [ending_bind_of_run_ok hm, ending_bind_of_run_ok hn,
            hEnds.1]
          exact hNext s.1 r.2 s.2 hEnds.2

theorem Matches.map
    {m n : WalkStep ι σ α}
    {f : α → β}
    (h : Matches m n) :
    Matches (do let a ← m; pure (f a))
      (do let a ← n; pure (f a)) :=
  h.bind fun a => matches_pure (f a)

theorem matches_mapM
    {γ : Type}
    {f g : γ → WalkStep ι σ α}
    (h : ∀ c, Matches (f c) (g c))
    (cs : List γ) : Matches (cs.mapM f) (cs.mapM g) := by
  induction cs with
  | nil =>
      simp only [List.mapM_nil]
      exact matches_pure []
  | cons c rest ih =>
      simp only [List.mapM_cons]
      exact (h c).bind fun _ => ih.map

------------------------------------------------------------
-- Steps on the State
------------------------------------------------------------

/- A state is another one but for the warnings in it. -/
theorem eq_of_unwarned_eq
    {x y : Walk ι σ}
    (h : x.unwarned = y.unwarned) :
    ∃ ws, y = x.warned ws := by
  refine ⟨y.schema.warnings, ?_⟩
  rcases x with ⟨⟨_, _, _, _⟩, _, _, _, _⟩
  rcases y with ⟨⟨_, _, _, _⟩, _, _, _, _⟩
  simp only [unwarned, warned, mk.injEq, Schema.mk.injEq] at h ⊢
  grind

theorem matches_get
    {f : Walk ι σ → WalkStep ι σ α}
    (h : ∀ x ws, Matches (f x) (f (x.warned ws))) :
    Matches (get >>= f) (get >>= f) := by
  intro x y hxy
  rw [ending_bind_of_run_ok (m := get) (a := x) (y := x) rfl,
    ending_bind_of_run_ok (m := get) (a := y) (y := y) rfl]
  rcases eq_of_unwarned_eq hxy with ⟨ws, rfl⟩
  exact h x ws _ _ hxy

theorem matches_modify
    {f : Walk ι σ → Walk ι σ}
    (h : ∀ x ws, (f (x.warned ws)).unwarned = (f x).unwarned) :
    Matches (modify f : WalkStep ι σ PUnit) (modify f) := by
  intro x y hxy
  rcases eq_of_unwarned_eq hxy with ⟨ws, rfl⟩
  have hx := ending_of_run_ok (m := modify f) (x := x) rfl
  rw [hx, ending_of_run_ok (m := modify f) rfl, h]

theorem matches_set
    {x y : Walk ι σ}
    (h : x.unwarned = y.unwarned) :
    Matches (set x : WalkStep ι σ PUnit) (set y) := by
  intro z w _
  have hx := ending_of_run_ok (m := set x) (x := z) rfl
  rw [hx, ending_of_run_ok (m := set y) rfl, h]

theorem matches_liftM (r : Except ExtractionFault α) :
    Matches (liftM r : WalkStep ι σ α) (liftM r) := by
  cases r with
  | ok a => exact matches_pure a
  | error e => exact matches_fault e

------------------------------------------------------------
-- Steps of a Walk
------------------------------------------------------------

/- Any two warnings are as good as each other. -/
theorem matches_note (w w' : Warning) :
    Matches (note w : WalkStep ι σ Unit) (note w') := by
  have hNote : ∀ (x : Walk ι σ) w,
      unwarned { x with schema := x.schema.note w } =
        x.unwarned := by
    intro x w
    unfold unwarned warned Schema.note
    split <;> rfl
  intro x y h
  rw [ending_of_run_ok (m := note w) rfl,
    ending_of_run_ok (m := note w') rfl, hNote, hNote, h]

theorem matches_declare (t : WireType) :
    Matches (declare t : WalkStep ι σ Unit) (declare t) := by
  apply matches_get
  intro x ws
  unfold Schema.addType
  cases t.id? with
  | none => exact matches_fault _
  | some id => exact matches_set rfl

theorem matches_takeName (id : TypeName) :
    Matches (takeName id : WalkStep ι σ Bool)
      (takeName id) := by
  apply matches_get
  intro x ws
  rw [warned_taken]
  split
  · exact matches_pure false
  · exact (matches_set rfl).bind fun _ => matches_pure true

theorem matches_claim
    [BEq ι]
    (shown : ι → String)
    (id : TypeName)
    (i : ι) :
    Matches (claim shown id i : WalkStep ι σ Unit)
      (claim shown id i) := by
  apply matches_get
  intro x ws
  rw [warned_claims]
  cases x.claims.lookup id with
  | none => exact matches_set rfl
  | some first =>
      dsimp only
      split
      · exact matches_pure ()
      · exact matches_fault _

theorem matches_enqueue (id : TypeName) (i : ι) :
    Matches (enqueue id i : WalkStep ι σ Unit)
      (enqueue id i) := by
  apply (matches_takeName id).bind
  intro free
  split
  · exact matches_modify fun _ _ => rfl
  · exact matches_pure ()

end WireSchema.Walk
