import WireSchema.Proofs.Source.Parts
import WireSchema.Proofs.Source.Program

/-
  Extraction within larger limits.

  A walk is cut off where bounds lie deeper inside each other
  than a limit says, or when more is to be declared than
  another one allows.  Nothing that comes before depends on
  the limits: what a walk answers within some of them, it
  answers within all larger ones.

  Key definitions include:
    * `Walk.Below`
    * `FileTree.AnswersFinally`
-/

namespace WireSchema

------------------------------------------------------------
-- Steps Below Other Steps
------------------------------------------------------------

namespace Walk

variable {ι σ α β : Type}

/- A step that is cut off, or else ends as another one does. -/
def Below (m n : WalkStep ι σ α) : Prop :=
  ∀ x, m.run x = .error .unfinished ∨ m.run x = n.run x

theorem below_refl (m : WalkStep ι σ α) : Below m m :=
  fun _ => .inr rfl

theorem below_unfinished (m : WalkStep ι σ α) :
    Below (fault .unfinished) m :=
  fun _ => .inl rfl

theorem Below.bind
    {m n : WalkStep ι σ α}
    {f g : α → WalkStep ι σ β}
    (hm : Below m n)
    (hf : ∀ a, Below (f a) (g a)) :
    Below (m >>= f) (n >>= g) := by
  intro x
  rw [StateT.run_bind, StateT.run_bind]
  rcases hm x with hCut | hSame
  · rw [hCut]
    exact .inl rfl
  · rw [hSame]
    cases n.run x with
    | error e => exact .inr rfl
    | ok r => exact hf r.1 r.2

/- What follows upon one and the same step. -/
theorem below_after
    {m : WalkStep ι σ α}
    {f g : α → WalkStep ι σ β}
    (hf : ∀ a, Below (f a) (g a)) :
    Below (m >>= f) (m >>= g) :=
  (below_refl m).bind hf

theorem Below.map
    {m n : WalkStep ι σ α}
    {f : α → β}
    (hm : Below m n) :
    Below (do let a ← m; pure (f a))
      (do let a ← n; pure (f a)) :=
  hm.bind fun a => below_refl (pure (f a))

theorem below_mapM
    {f g : α → WalkStep ι σ β}
    (hf : ∀ a, Below (f a) (g a))
    (xs : List α) : Below (xs.mapM f) (xs.mapM g) := by
  induction xs with
  | nil =>
      rw [List.mapM_nil, List.mapM_nil]
      exact below_refl _
  | cons a rest ih =>
      rw [List.mapM_cons, List.mapM_cons]
      exact (hf a).bind fun _ => ih.map

/- With a higher bound, more is declared of the same queue. -/
theorem below_drain
    {f g : ι → WalkStep ι σ Unit}
    {bound more : Nat}
    (hf : ∀ i, Below (f i) (g i))
    (hMore : bound ≤ more) :
    Below (drain f bound) (drain g more) := by
  induction bound generalizing more with
  | zero =>
      intro x
      cases hQueue : x.queue with
      | nil =>
          right
          cases more with
          | zero => rfl
          | succ more =>
              simp only [drain, StateT.run_bind, StateT.run_get,
                pure_bind, hQueue, List.isEmpty_nil, if_true]
      | cons i rest =>
          left
          simp only [drain, StateT.run_bind, StateT.run_get,
            pure_bind, hQueue, List.isEmpty_cons]
          rfl
  | succ bound ih =>
      cases more with
      | zero => omega
      | succ more =>
          unfold drain
          apply below_after
          intro x
          split
          · exact below_refl _
          · apply below_after
            intro _
            exact (hf _).bind fun _ => ih (by omega)

/- The schema at the end of a step that is not cut off. -/
theorem Below.finish_eq
    {m n : WalkStep ι σ Unit}
    {memory : σ}
    (h : Below m n)
    (hEnd : finish memory m ≠ .error .unfinished) :
    finish memory n = finish memory m := by
  unfold finish at hEnd ⊢
  rcases h { memory } with hCut | hSame
  · rw [hCut] at hEnd
    exact absurd rfl hEnd
  · rw [hSame]

end Walk

namespace Source

open Walk

variable {v : ModuleView}
variable {depth deeper : Nat}

------------------------------------------------------------
-- Larger Limits
------------------------------------------------------------

/- Bounds that are not too deep are not too deep below more. -/
theorem below_bounds (hDeeper : depth ≤ deeper) :
    (∀ x t, Below (v.lowerBound depth x t)
      (v.lowerBound deeper x t))
      ∧ ∀ x t, Below (v.lowerTerm depth x t)
        (v.lowerTerm deeper x t) := by
  induction depth generalizing deeper with
  | zero =>
      constructor
      · intro x t
        rw [ModuleView.lowerBound]
        exact below_unfinished _
      · intro x t
        rw [ModuleView.lowerTerm]
        exact below_unfinished _
  | succ depth ih =>
      cases deeper with
      | zero => omega
      | succ deeper =>
          have ih := ih (Nat.le_of_succ_le_succ hDeeper)
          constructor
          · intro x t
            have hTerms := below_mapM (ih.2 x)
            cases t with
            | ident name =>
                unfold ModuleView.lowerBound
                split
                · exact below_refl _
                · split
                  · exact ih.1 _ _
                  · exact below_refl _
            | qualified package name =>
                unfold ModuleView.lowerBound
                split
                · exact below_refl _
                · apply below_after
                  intro found
                  split
                  · exact below_refl _
                  · split
                    · exact ih.1 _ _
                    · exact below_refl _
            | interface elems hasMethods =>
                unfold ModuleView.lowerBound
                exact (hTerms elems).map
            | union items =>
                unfold ModuleView.lowerBound
                exact (hTerms items).map
            | _ =>
                unfold ModuleView.lowerBound
                exact below_refl _
          · intro x t
            cases t with
            | union items =>
                unfold ModuleView.lowerTerm
                exact (below_mapM (ih.2 x) items).map
            | tilde elem =>
                unfold ModuleView.lowerTerm
                exact below_refl _
            | _ =>
                unfold ModuleView.lowerTerm
                exact (ih.1 x _).map

theorem below_params
    (hDeeper : depth ≤ deeper)
    (x : SourceScope)
    (ps : List SourceParam) :
    Below (v.lowerParams depth x ps)
      (v.lowerParams deeper x ps) := by
  induction ps with
  | nil => exact below_refl _
  | cons p rest ih =>
      unfold ModuleView.lowerParams
      exact ((below_bounds hDeeper).1 x p.bound).bind
        fun _ => ih.map

theorem below_declare
    (hDeeper : depth ≤ deeper)
    (i : Instance) :
    Below (v.declareInstance depth i)
      (v.declareInstance deeper i) := by
  rw [declareInstance_eq, declareInstance_eq]
  apply below_after
  rintro ⟨x, d⟩
  dsimp only
  unfold itemParams
  split
  · exact (below_params hDeeper x d.params).bind
      fun _ => below_refl _
  · exact below_refl _

theorem below_walk
    {count more : Nat}
    (hDeeper : depth ≤ deeper)
    (hMore : count ≤ more)
    (r : ExtractionRequest) :
    Below (v.walk depth count r) (v.walk deeper more r) := by
  unfold ModuleView.walk
  apply below_after
  intro _
  apply below_after
  intro _
  exact below_drain (below_declare hDeeper) hMore

end Source

------------------------------------------------------------
-- Extractions
------------------------------------------------------------

namespace FileTree

open Source Walk

variable {t : FileTree}
variable {read : SourceReader}
variable {root : String}
variable {known : WellKnown}
variable {r : ExtractionRequest}

/-
  An answer that no limits cut off: a schema, or why there is
  none, within some limits and all larger ones.
-/
structure AnswersFinally
    (t : FileTree)
    (read : SourceReader)
    (root : String)
    (known : WellKnown)
    (r : ExtractionRequest)
    (answer : Except ExtractionFault Schema) : Prop where
  ended : answer ≠ .error .unfinished
  stays : ∃ depth count, ∀ deeper more,
    depth ≤ deeper → count ≤ more →
      t.extractWithin read root known deeper more r = answer

/- What is not cut off is not cut off by larger limits. -/
theorem extractWithin_of_le
    {depth deeper count more : Nat}
    (hDeeper : depth ≤ deeper)
    (hMore : count ≤ more)
    (hEnd : t.extractWithin read root known depth count r ≠
      .error .unfinished) :
    t.extractWithin read root known deeper more r =
      t.extractWithin read root known depth count r := by
  unfold extractWithin at hEnd ⊢
  cases hCheck : r.check with
  | error e => simp only [bind, Except.bind]
  | ok _ =>
      cases hOpen : ModuleSource.open? t root with
      | error e => simp only [bind, Except.bind]
      | ok module =>
          rw [hCheck, hOpen] at hEnd
          exact (below_walk hDeeper hMore r).finish_eq hEnd

/- To be final, an answer has to be given within some limits. -/
theorem answersFinally_of_extractWithin
    {depth count : Nat}
    (hEnd : t.extractWithin read root known depth count r ≠
      .error .unfinished) :
    t.AnswersFinally read root known r
      (t.extractWithin read root known depth count r) where
  ended := hEnd
  stays := by
    refine ⟨depth, count, ?_⟩
    intro deeper more hDeeper hMore
    exact extractWithin_of_le hDeeper hMore hEnd

/- There is one final answer at most. -/
theorem AnswersFinally.unique
    {a b : Except ExtractionFault Schema}
    (ha : t.AnswersFinally read root known r a)
    (hb : t.AnswersFinally read root known r b) : a = b := by
  rcases ha.stays with ⟨depth, count, hA⟩
  rcases hb.stays with ⟨depth', count', hB⟩
  have hSameA := hA (max depth depth') (max count count')
    (Nat.le_max_left _ _) (Nat.le_max_left _ _)
  have hSameB := hB (max depth depth') (max count count')
    (Nat.le_max_right _ _) (Nat.le_max_right _ _)
  exact hSameA.symm.trans hSameB

end FileTree

end WireSchema
