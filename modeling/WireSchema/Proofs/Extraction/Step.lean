import WireSchema.Extraction.Walk
import WireSchema.Proofs.Outcome

/-
  What steps of a walk yield.

  A step from a state either ends in a result and a state, or
  fails.  A condition on how it ends is shown for each kind
  of step and passed on from the parts of a step to the step.

  Key definitions include:
    * `Walk.Yields`
    * `Walk.Drains`
-/

namespace WireSchema.Walk

variable {ι σ α β γ : Type}
variable {Allowed : ExtractionFault → Prop}
variable {x : Walk ι σ}

/-
  From a state, a step ends as a condition says, or else in a
  fault that is allowed.
-/
def Yields
    (Allowed : ExtractionFault → Prop)
    (m : WalkStep ι σ α)
    (x : Walk ι σ)
    (Q : α → Walk ι σ → Prop) : Prop :=
  match m.run x with
  | .ok (a, y) => Q a y
  | .error e => Allowed e

------------------------------------------------------------
-- Runs
------------------------------------------------------------

/- How a run that succeeds ends. -/
theorem Yields.of_run_ok
    {m : WalkStep ι σ α}
    {Q : α → Walk ι σ → Prop}
    {a : α}
    {y : Walk ι σ}
    (h : Yields Allowed m x Q)
    (hRun : m.run x = .ok (a, y)) : Q a y := by
  unfold Yields at h
  rw [hRun] at h
  exact h

/- A weaker condition holds as well. -/
theorem Yields.imp
    {m : WalkStep ι σ α}
    {Q R : α → Walk ι σ → Prop}
    (h : Yields Allowed m x Q)
    (hImp : ∀ a y, Q a y → R a y) :
    Yields Allowed m x R := by
  unfold Yields at h ⊢
  cases hRun : m.run x with
  | ok r =>
      rw [hRun] at h
      exact hImp r.1 r.2 h
  | error e =>
      rw [hRun] at h
      exact h

/- The condition is one on runs that succeed. -/
theorem Yields.allowAll
    {m : WalkStep ι σ α}
    {Q : α → Walk ι σ → Prop}
    (h : Yields Allowed m x Q) :
    Yields (fun _ => True) m x Q := by
  unfold Yields at h ⊢
  cases hRun : m.run x with
  | ok r =>
      rw [hRun] at h
      exact h
  | error e => trivial

/- How a step ends is how its run ends. -/
theorem Yields.with_run
    {m : WalkStep ι σ α}
    {Q : α → Walk ι σ → Prop}
    (h : Yields Allowed m x Q) :
    Yields Allowed m x fun a y =>
      m.run x = .ok (a, y) ∧ Q a y := by
  unfold Yields at h ⊢
  cases hRun : m.run x with
  | ok r =>
      rw [hRun] at h
      exact ⟨rfl, h⟩
  | error e =>
      rw [hRun] at h
      exact h

/- What two steps give is what the second one makes. -/
theorem run_bind_eq_ok
    {m : WalkStep ι σ α}
    {f : α → WalkStep ι σ β}
    {b : β}
    {z : Walk ι σ}
    (h : (m >>= f).run x = .ok (b, z)) :
    ∃ a y, m.run x = .ok (a, y)
      ∧ (f a).run y = .ok (b, z) := by
  rw [StateT.run_bind] at h
  rcases eq_ok_of_bind h with ⟨⟨a, y⟩, hFirst, hNext⟩
  exact ⟨a, y, hFirst, hNext⟩

/- What is made of a result alone ends where that was found. -/
theorem run_map_eq_ok
    {m : WalkStep ι σ α}
    {f : α → β}
    {b : β}
    {y : Walk ι σ}
    (h : (do let a ← m; pure (f a)).run x = .ok (b, y)) :
    ∃ a, m.run x = .ok (a, y) := by
  rcases run_bind_eq_ok h with ⟨a, _, hRun, hEnd⟩
  cases hEnd
  exact ⟨a, hRun⟩

/- Of two steps the second begins where the first has ended. -/
theorem run_map₂_eq_ok
    {m : WalkStep ι σ α}
    {n : WalkStep ι σ β}
    {f : α → β → γ}
    {a : α}
    {c : γ}
    {y z : Walk ι σ}
    (hFirst : m.run x = .ok (a, y))
    (h : (do let a ← m; let b ← n; pure (f a b)).run x =
      .ok (c, z)) : ∃ b, n.run y = .ok (b, z) := by
  rcases run_bind_eq_ok h with ⟨_, _, hSame, hRun⟩
  rw [hFirst] at hSame
  cases hSame
  exact run_map_eq_ok hRun

/- Of steps for a list, those before an element come first. -/
theorem run_mapM_eq_ok
    {f : α → WalkStep ι σ β}
    {before after : List α}
    {a : α}
    {cs bs : List β}
    {y z : Walk ι σ}
    (hBefore : (before.mapM f).run x = .ok (cs, y))
    (h : ((before ++ a :: after).mapM f).run x =
      .ok (bs, z)) :
    ∃ b w ds, (f a).run y = .ok (b, w)
      ∧ (after.mapM f).run w = .ok (ds, z) := by
  rw [List.mapM_append, List.mapM_cons] at h
  rcases run_bind_eq_ok h with ⟨cs', y', hSame, h⟩
  rw [hBefore] at hSame
  cases hSame
  rcases run_bind_eq_ok h with ⟨rest, z', h, hEnd⟩
  cases hEnd
  rcases run_bind_eq_ok h with ⟨b, w, hElem, h⟩
  rcases run_bind_eq_ok h with ⟨ds, z', hAfter, hEnd⟩
  cases hEnd
  exact ⟨b, w, ds, hElem, hAfter⟩

------------------------------------------------------------
-- Single Steps
------------------------------------------------------------

theorem yields_pure
    {a : α}
    {Q : α → Walk ι σ → Prop}
    (h : Q a x) :
    Yields Allowed (pure a : WalkStep ι σ α) x Q :=
  h

theorem yields_fault
    {e : ExtractionFault}
    {Q : α → Walk ι σ → Prop}
    (h : Allowed e) :
    Yields Allowed (fault e : WalkStep ι σ α) x Q :=
  h

theorem yields_get
    {Q : Walk ι σ → Walk ι σ → Prop}
    (h : Q x x) :
    Yields Allowed (get : WalkStep ι σ (Walk ι σ)) x Q :=
  h

theorem yields_set
    {y : Walk ι σ}
    {Q : PUnit → Walk ι σ → Prop}
    (h : Q ⟨⟩ y) :
    Yields Allowed (set y : WalkStep ι σ PUnit) x Q :=
  h

theorem yields_modify
    {f : Walk ι σ → Walk ι σ}
    {Q : PUnit → Walk ι σ → Prop}
    (h : Q ⟨⟩ (f x)) :
    Yields Allowed (modify f : WalkStep ι σ PUnit) x Q :=
  h

/- What reads files leaves the state as it is. -/
theorem yields_liftM
    {r : Except ExtractionFault α}
    {Q : α → Walk ι σ → Prop}
    (hFault : ∀ e, r = .error e → Allowed e)
    (h : ∀ a, r = .ok a → Q a x) :
    Yields Allowed (liftM r : WalkStep ι σ α) x Q := by
  cases r with
  | ok a => exact h a rfl
  | error e => exact hFault e rfl

/- A declaration with a name is the last one then. -/
theorem run_declare
    {id : TypeName}
    {t : WireType}
    (hId : t.id? = some id) :
    (declare t : WalkStep ι σ Unit).run x =
      .ok
        ((),
          { x with
            schema :=
              { x.schema with
                types := x.schema.types ++ [t] } }) := by
  unfold declare Schema.addType
  rw [StateT.run_bind, StateT.run_get, hId]
  rfl

theorem run_takeName_of_mem
    {id : TypeName}
    (h : id ∈ x.taken) :
    (takeName id : WalkStep ι σ Bool).run x =
      .ok (false, x) := by
  unfold takeName
  rw [StateT.run_bind, StateT.run_get]
  simp only [pure_bind, List.contains_eq_mem, h, decide_true,
    if_true]
  rfl

theorem run_takeName_of_not_mem
    {id : TypeName}
    (h : id ∉ x.taken) :
    (takeName id : WalkStep ι σ Bool).run x =
      .ok (true, { x with taken := id :: x.taken }) := by
  unfold takeName
  rw [StateT.run_bind, StateT.run_get]
  simp only [pure_bind, List.contains_eq_mem, h, decide_false]
  rfl

------------------------------------------------------------
-- Sequences
------------------------------------------------------------

theorem yields_bind
    {m : WalkStep ι σ α}
    {f : α → WalkStep ι σ β}
    {Q : β → Walk ι σ → Prop}
    (h : Yields Allowed m x fun a y => Yields Allowed (f a) y Q) :
    Yields Allowed (m >>= f) x Q := by
  unfold Yields at h ⊢
  rw [StateT.run_bind]
  cases hRun : m.run x with
  | ok r =>
      rw [hRun] at h
      exact h
  | error e =>
      rw [hRun] at h
      exact h

/-
  A condition on what is left to do, once it is kept by each
  step, holds at the end for all results.
-/
theorem yields_mapM
    (Inv : List β → Walk ι σ → Prop)
    {f : α → WalkStep ι σ β}
    {xs : List α}
    (hStep : ∀ a ∈ xs, ∀ done x, Inv done x →
      Yields Allowed (f a) x fun b y => Inv (done ++ [b]) y)
    {done : List β}
    (h : Inv done x) :
    Yields Allowed (xs.mapM f) x fun bs y =>
      Inv (done ++ bs) y := by
  induction xs generalizing x done with
  | nil =>
      rw [List.mapM_nil]
      exact yields_pure (by simpa using h)
  | cons a rest ih =>
      rw [List.mapM_cons]
      apply yields_bind
      apply (hStep a List.mem_cons_self done x h).imp
      intro b y hy
      have hRest : ∀ a ∈ rest, ∀ done x, Inv done x →
          Yields Allowed (f a) x fun b y =>
            Inv (done ++ [b]) y := by
        intro a' ha'
        exact hStep a' (List.mem_cons_of_mem a ha')
      apply yields_bind
      apply (ih hRest hy).imp
      intro bs z hz
      apply yields_pure
      simpa using hz

------------------------------------------------------------
-- Draining
------------------------------------------------------------

/-
  The states between two declarations, each with the items
  that have been declared by then.
-/
inductive Drains
    (declareItem : ι → WalkStep ι σ Unit)
    (x : Walk ι σ) : List ι → Walk ι σ → Prop where
  | start : Drains declareItem x [] x
  | step
      {spent : List ι}
      {y z : Walk ι σ}
      {i : ι}
      {rest : List ι}
      (hReached : Drains declareItem x spent y)
      (hQueue : y.queue = i :: rest)
      (hRun :
        (declareItem i).run { y with queue := rest } =
          .ok ((), z)) :
      Drains declareItem x (spent ++ [i]) z

/-
  A condition on the declarations that may follow holds until
  the queue is empty.  It is kept if each declaration uses up
  one of them.
-/
theorem yields_drain
    (Inv : Nat → Walk ι σ → Prop)
    {declareItem : ι → WalkStep ι σ Unit}
    (hEnd : ∀ x, Inv 0 x → x.queue ≠ [] → Allowed .unfinished)
    (hStep : ∀ n x i rest, Inv (n + 1) x →
      x.queue = i :: rest →
      Yields Allowed (declareItem i) { x with queue := rest }
        fun _ y => Inv n y)
    (bound : Nat)
    (h : Inv bound x) :
    Yields Allowed (drain declareItem bound) x fun _ y =>
      y.queue = [] ∧ ∃ n, Inv n y := by
  induction bound generalizing x with
  | zero =>
      unfold drain
      apply yields_bind
      apply yields_get
      cases hQueue : x.queue with
      | nil => exact yields_pure ⟨hQueue, 0, h⟩
      | cons i rest =>
          apply yields_fault
          apply hEnd x h
          simp [hQueue]
  | succ n ih =>
      unfold drain
      apply yields_bind
      apply yields_get
      cases hQueue : x.queue with
      | nil => exact yields_pure ⟨hQueue, n + 1, h⟩
      | cons i rest =>
          apply yields_bind
          apply yields_set
          apply yields_bind
          apply (hStep n x i rest h hQueue).imp
          intro _ y hy
          exact ih hy

/- Where the queue has a first item, it is declared next. -/
theorem run_drain_cons
    {declareItem : ι → WalkStep ι σ Unit}
    {bound : Nat}
    {i : ι}
    {rest : List ι}
    {z : Walk ι σ}
    (hQueue : x.queue = i :: rest)
    (h : (drain declareItem bound).run x = .ok ((), z)) :
    ∃ n y, (declareItem i).run { x with queue := rest } =
        .ok ((), y)
      ∧ (drain declareItem n).run y = .ok ((), z) := by
  cases bound with
  | zero =>
      unfold drain at h
      rcases run_bind_eq_ok h with ⟨_, _, hGet, h⟩
      cases hGet
      rw [hQueue] at h
      cases h
  | succ n =>
      unfold drain at h
      rcases run_bind_eq_ok h with ⟨_, _, hGet, h⟩
      cases hGet
      rw [hQueue] at h
      rcases run_bind_eq_ok h with ⟨_, _, hSet, h⟩
      cases hSet
      rcases run_bind_eq_ok h with ⟨_, y, hItem, h⟩
      exact ⟨n, y, hItem, h⟩

/- From each state between two declarations it goes on. -/
theorem Drains.run_drain
    {declareItem : ι → WalkStep ι σ Unit}
    {bound : Nat}
    {spent : List ι}
    {y z : Walk ι σ}
    (hDrains : Drains declareItem x spent y)
    (h : (drain declareItem bound).run x = .ok ((), z)) :
    ∃ n, (drain declareItem n).run y = .ok ((), z) := by
  induction hDrains with
  | start => exact ⟨bound, h⟩
  | step hReached hQueue hRun ih =>
      rcases ih with ⟨n, hRest⟩
      rcases run_drain_cons hQueue hRest with
        ⟨n, w, hItem, hRest⟩
      rw [hRun] at hItem
      cases hItem
      exact ⟨n, hRest⟩

/- A condition that each declaration keeps holds at the end. -/
theorem of_run_drain
    (Inv : Walk ι σ → Prop)
    {declareItem : ι → WalkStep ι σ Unit}
    (hStep : ∀ x i rest, Inv x → x.queue = i :: rest →
      Yields Allowed (declareItem i) { x with queue := rest }
        fun _ y => Inv y)
    {bound : Nat}
    {z : Walk ι σ}
    (hx : Inv x)
    (h : (drain declareItem bound).run x = .ok ((), z)) :
    Inv z := by
  have hDrain :
      Yields (fun _ => True) (drain declareItem bound) x
        fun _ y => y.queue = [] ∧ ∃ _ : Nat, Inv y := by
    refine yields_drain (fun _ => Inv) ?_ ?_ bound hx
    · intro _ _ _
      trivial
    · intro _ y i rest hy hQueue
      exact (hStep y i rest hy hQueue).allowAll
  rcases hDrain.of_run_ok h with ⟨-, -, hz⟩
  exact hz

end WireSchema.Walk
