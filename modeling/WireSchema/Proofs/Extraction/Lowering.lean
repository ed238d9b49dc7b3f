import WireSchema.Proofs.Extraction.Invariant

/-
  Steps that lower the parts of a declaration.

  Such a step keeps the invariant of its walk, whatever names
  are pending, and takes back neither a name nor a
  declaration.  Its result is good for the names that are
  taken when it ends.

  Key definitions include:
    * `Walk.Stable`
    * `Walk.Lowers`
-/

namespace WireSchema.Walk

variable {ι σ α β γ : Type}
variable {Allowed : ExtractionFault → Prop}
variable {idOf : ι → TypeName}
variable {bound : WireType → Prop}
variable {Inv : List TypeName → Walk ι σ → Prop}

------------------------------------------------------------
-- Stable Invariants
------------------------------------------------------------

/-
  An invariant of sound walks that survives when a name is
  taken and when the schema changes soundly.
-/
structure Stable
    (idOf : ι → TypeName)
    (bound : WireType → Prop)
    (Inv : List TypeName → Walk ι σ → Prop) : Prop where
  sound :
    ∀ {pending x}, Inv pending x → Sound idOf bound pending x
  take :
    ∀ {pending x id}, Inv pending x → id ∉ x.taken →
      Inv (id :: pending) { x with taken := id :: x.taken }
  schema :
    ∀ {pending pending' x schema}, Inv pending x →
      Sound idOf bound pending' { x with schema } →
      Inv pending' { x with schema }

theorem stable_sound :
    Stable idOf bound
      (Sound idOf bound : _ → Walk ι σ → Prop) where
  sound h := h
  take h hFree := h.take hFree
  schema _ h := h

------------------------------------------------------------
-- Lowering
------------------------------------------------------------

/- What a step that lowers keeps and what it gives. -/
def Lowers
    (Allowed : ExtractionFault → Prop)
    (Inv : List TypeName → Walk ι σ → Prop)
    (Good : List TypeName → α → Prop)
    (m : WalkStep ι σ α) : Prop :=
  ∀ pending x, Inv pending x →
    Yields Allowed m x fun a y =>
      Inv pending y ∧ x.Within y ∧ Good y.taken a

theorem lowers_pure
    {Good : List TypeName → α → Prop}
    {a : α}
    (h : ∀ names, Good names a) :
    Lowers Allowed Inv Good (pure a) := by
  intro pending x hx
  exact yields_pure ⟨hx, .refl x, h _⟩

theorem lowers_fault
    {Good : List TypeName → α → Prop}
    {e : ExtractionFault}
    (h : Allowed e) : Lowers Allowed Inv Good (fault e) := by
  intro pending x _
  exact yields_fault h

/- A run of such a step that succeeds. -/
theorem Lowers.of_run
    {m : WalkStep ι σ α}
    {Good : List TypeName → α → Prop}
    {pending : List TypeName}
    {x y : Walk ι σ}
    {a : α}
    (hm : Lowers Allowed Inv Good m)
    (hx : Inv pending x)
    (hRun : m.run x = .ok (a, y)) :
    Inv pending y ∧ x.Within y ∧ Good y.taken a :=
  (hm pending x hx).of_run_ok hRun

/- What is good in a weaker sense is good. -/
theorem Lowers.imp
    {m : WalkStep ι σ α}
    {Good Weak : List TypeName → α → Prop}
    (hm : Lowers Allowed Inv Good m)
    (hImp : ∀ names a, Good names a → Weak names a) :
    Lowers Allowed Inv Weak m := by
  intro pending x hx
  apply (hm pending x hx).imp
  rintro a y ⟨hy, hxy, ha⟩
  exact ⟨hy, hxy, hImp _ a ha⟩

/- A step after one whose result need not stay good. -/
theorem Lowers.bind
    {m : WalkStep ι σ α}
    {f : α → WalkStep ι σ β}
    {GoodA : List TypeName → α → Prop}
    {GoodB : List TypeName → β → Prop}
    (hm : Lowers Allowed Inv GoodA m)
    (hf : ∀ a, Lowers Allowed Inv GoodB (f a)) :
    Lowers Allowed Inv GoodB (m >>= f) := by
  intro pending x hx
  apply yields_bind
  apply (hm pending x hx).imp
  rintro a y ⟨hy, hxy, -⟩
  apply (hf a pending y hy).imp
  rintro b z ⟨hz, hyz, hb⟩
  exact ⟨hz, hxy.trans hyz, hb⟩

/- What is made of a good result alone. -/
theorem Lowers.map
    {m : WalkStep ι σ α}
    {f : α → β}
    {GoodA : List TypeName → α → Prop}
    {GoodB : List TypeName → β → Prop}
    (hm : Lowers Allowed Inv GoodA m)
    (hf : ∀ names a, GoodA names a → GoodB names (f a)) :
    Lowers Allowed Inv GoodB (do let a ← m; pure (f a)) := by
  intro pending x hx
  apply yields_bind
  apply (hm pending x hx).imp
  rintro a y ⟨hy, hxy, ha⟩
  exact yields_pure ⟨hy, hxy, hf _ _ ha⟩

/-
  What is made of two good results.  The first one has to
  stay good while the second one is found.
-/
theorem Lowers.map₂
    {m : WalkStep ι σ α}
    {n : WalkStep ι σ β}
    {f : α → β → γ}
    {GoodA : List TypeName → α → Prop}
    {GoodB : List TypeName → β → Prop}
    {GoodC : List TypeName → γ → Prop}
    (hm : Lowers Allowed Inv GoodA m)
    (hMono : ∀ names more a, GoodA names a → names ⊆ more →
      GoodA more a)
    (hn : Lowers Allowed Inv GoodB n)
    (hf : ∀ names a b, GoodA names a → GoodB names b →
      GoodC names (f a b)) :
    Lowers Allowed Inv GoodC
      (do let a ← m; let b ← n; pure (f a b)) := by
  intro pending x hx
  apply yields_bind
  apply (hm pending x hx).imp
  rintro a y ⟨hy, hxy, ha⟩
  apply yields_bind
  apply (hn pending y hy).imp
  rintro b z ⟨hz, hyz, hb⟩
  have hKept : GoodA z.taken a := hMono _ _ a ha hyz.taken
  exact yields_pure ⟨hz, hxy.trans hyz, hf _ a b hKept hb⟩

/- Of two such steps the first ends before the second does. -/
theorem Lowers.run_first
    {m : WalkStep ι σ α}
    {n : WalkStep ι σ β}
    {f : α → β → γ}
    {GoodA : List TypeName → α → Prop}
    {GoodB : List TypeName → β → Prop}
    {pending : List TypeName}
    {x z : Walk ι σ}
    {c : γ}
    (hm : Lowers Allowed Inv GoodA m)
    (hn : Lowers Allowed Inv GoodB n)
    (hx : Inv pending x)
    (h : (do let a ← m; let b ← n; pure (f a b)).run x =
      .ok (c, z)) :
    ∃ y, (∃ a, m.run x = .ok (a, y)) ∧ y.Within z := by
  rcases run_bind_eq_ok h with ⟨a, y, hFirst, hRest⟩
  rcases run_map_eq_ok hRest with ⟨b, hSecond⟩
  have hy := (hm.of_run hx hFirst).1
  exact ⟨y, ⟨a, hFirst⟩, (hn.of_run hy hSecond).2.1⟩

/- A map has two types as its parts. -/
theorem lowers_map
    {key value : WalkStep ι σ WireType}
    (hKey : Lowers Allowed Inv WireType.IsPlainOver key)
    (hValue : Lowers Allowed Inv WireType.IsPlainOver value) :
    Lowers Allowed Inv WireType.IsPlainOver
      (do
        let key ← key
        let value ← value
        pure (.map key value)) := by
  apply hKey.map₂ _ hValue
  · intro names k v hk hv
    simpa using ⟨hk, hv⟩
  · intro names more k hk hMore
    exact hk.mono hMore

/- Results for each element of a list. -/
theorem lowers_mapM
    {f : α → WalkStep ι σ β}
    {Good : List TypeName → β → Prop}
    {xs : List α}
    (hMono : ∀ names more b, Good names b → names ⊆ more →
      Good more b)
    (hf : ∀ a ∈ xs, Lowers Allowed Inv Good (f a)) :
    Lowers Allowed Inv (fun names bs => ∀ b ∈ bs, Good names b)
      (xs.mapM f) := by
  intro pending x hx
  let Kept := fun (done : List β) (y : Walk ι σ) =>
    Inv pending y ∧ x.Within y ∧ ∀ b ∈ done, Good y.taken b
  have hStart : Kept [] x := ⟨hx, .refl x, by simp⟩
  refine yields_mapM Kept ?_ hStart
  · rintro a ha done y ⟨hy, hxy, hDone⟩
    apply (hf a ha pending y hy).imp
    rintro b z ⟨hz, hyz, hb⟩
    refine ⟨hz, hxy.trans hyz, ?_⟩
    intro b' hb'
    rcases List.mem_append.mp hb' with hb' | hb'
    · exact hMono _ _ b' (hDone b' hb') hyz.taken
    · rwa [List.mem_singleton.mp hb']

/- Of such steps for a list, one ends before all of them do. -/
theorem Lowers.run_mapM
    {f : α → WalkStep ι σ β}
    {Good : List TypeName → β → Prop}
    {pending : List TypeName}
    {x y z : Walk ι σ}
    {before after : List α}
    {a : α}
    {cs bs : List β}
    (hf : ∀ a, Lowers Allowed Inv Good (f a))
    (hx : Inv pending x)
    (hBefore : (before.mapM f).run x = .ok (cs, y))
    (h : ((before ++ a :: after).mapM f).run x =
      .ok (bs, z)) :
    Inv pending y
      ∧ ∃ w, (∃ b, (f a).run y = .ok (b, w)) ∧ w.Within z := by
  have hAll : ∀ xs : List α,
      Lowers Allowed Inv (fun _ bs => ∀ b ∈ bs, True)
        (xs.mapM f) := by
    intro xs
    apply lowers_mapM fun _ _ _ h _ => h
    intro a _
    exact (hf a).imp fun _ _ _ => trivial
  have hy := ((hAll before).of_run hx hBefore).1
  rcases run_mapM_eq_ok hBefore h with ⟨b, w, ds, hElem, hRest⟩
  have hw := ((hf a).of_run hy hElem).1
  have hwz := ((hAll after).of_run hw hRest).2.1
  exact ⟨hy, w, ⟨b, hElem⟩, hwz⟩

/- A step for each element of a list. -/
theorem lowers_forM
    (Good : α → List TypeName → Prop)
    {f : α → WalkStep ι σ PUnit}
    {xs : List α}
    (hMono : ∀ a names more, Good a names → names ⊆ more →
      Good a more)
    (hf : ∀ a ∈ xs,
      Lowers Allowed Inv (fun names _ => Good a names) (f a)) :
    Lowers Allowed Inv (fun names _ => ∀ a ∈ xs, Good a names)
      (xs.forM f) := by
  induction xs with
  | nil => exact lowers_pure (by simp)
  | cons a rest ih =>
      rw [List.forall_mem_cons] at hf
      intro pending x hx
      rw [List.forM_eq_forM, List.forM_cons]
      apply yields_bind
      apply (hf.1 pending x hx).imp
      rintro _ y ⟨hy, hxy, ha⟩
      apply (ih hf.2 pending y hy).imp
      rintro _ z ⟨hz, hyz, hRest⟩
      refine ⟨hz, hxy.trans hyz, ?_⟩
      have hFirst : Good a z.taken := hMono a _ _ ha hyz.taken
      exact List.forall_mem_cons.mpr ⟨hFirst, hRest⟩

/- Steps for all elements, of which no more is asked. -/
theorem lowers_each
    {f : α → WalkStep ι σ PUnit}
    {xs : List α}
    (hf : ∀ a ∈ xs, Lowers Allowed Inv (fun _ _ => True) (f a)) :
    Lowers Allowed Inv (fun _ _ => True) (xs.forM f) := by
  apply (lowers_forM (fun _ _ => True) ?_ hf).imp
  · intro _ _ _
    trivial
  · intro _ _ _ _ _
    trivial

/- Warnings do not change how a step ends. -/
theorem lowers_note
    (hStable : Stable idOf bound Inv)
    {w : Warning}
    {m : WalkStep ι σ α}
    {Good : List TypeName → α → Prop}
    (hm : Lowers Allowed Inv Good m) :
    Lowers Allowed Inv Good (do note w; m) := by
  intro pending x hx
  apply yields_bind
  apply yields_note (hStable.sound hx)
  intro schema hSound hWithin
  apply (hm pending _ (hStable.schema hx hSound)).imp
  rintro a y ⟨hy, hxy, ha⟩
  exact ⟨hy, hWithin.trans hxy, ha⟩

------------------------------------------------------------
-- Declarations
------------------------------------------------------------

/-
  A declaration over taken names ends its pending name, and
  nothing from before it is lost.
-/
theorem yields_declareOver
    (hStable : Stable idOf bound Inv)
    {id : TypeName}
    {t : WireType}
    {pending : List TypeName}
    {x y : Walk ι σ}
    (hy : Inv (id :: pending) y)
    (hxy : x.Within y)
    (hId : t.id? = some id)
    (ht : t.IsDeclOver bound y.taken) :
    Yields Allowed (declare t) y fun _ z =>
      Inv pending z ∧ x.Within z := by
  apply yields_declare (hStable.sound hy) hId ht
  intro schema hSound hWithin
  exact ⟨hStable.schema hy hSound, hxy.trans hWithin⟩

/-
  A struct without a name is declared where it stands, unless
  its name is taken.
-/
theorem lowers_struct
    (hStable : Stable idOf bound Inv)
    {id : TypeName}
    {source : Option SourcePlace}
    {members : WalkStep ι σ Members}
    (hMembers :
      Lowers Allowed Inv Members.IsPlainOver members) :
    Lowers Allowed Inv WireType.IsPlainOver
      (do
        if ← takeName id then
          let (fields, parents) ← members
          declare (.record { id, fields, parents, source })
        pure (.reference id)) := by
  intro pending x hx
  apply yields_bind
  apply yields_takeName
  · intro hTaken
    apply yields_pure
    exact ⟨hx, .refl x, by simpa using hTaken⟩
  · intro hFree
    simp only [if_true]
    apply yields_bind
    apply (hMembers _ _ (hStable.take hx hFree)).imp
    rintro ⟨fields, parents⟩ y ⟨hy, hxy, hGood⟩
    apply yields_bind
    have hRecord :
        (WireType.record
          { id, fields, parents, source }).IsDeclOver
            bound y.taken :=
      WireType.isDeclOver_record boundsOver_nil hGood
    apply (yields_declareOver hStable hy hxy rfl hRecord).imp
    rintro _ z ⟨hz, hxz⟩
    have hTaken : id ∈ z.taken := hxz.taken List.mem_cons_self
    apply yields_pure
    exact ⟨hz, (within_take x id).trans hxz,
      by simpa using hTaken⟩

------------------------------------------------------------
-- Members
------------------------------------------------------------

theorem lowers_noMembers :
    Lowers Allowed Inv Members.IsPlainOver (pure ([], [])) :=
  lowers_pure fun _ => Members.isPlainOver_nil

/- A field of a type, made as its tag wants it. -/
theorem lowers_tagged
    {t : WalkStep ι σ WireType}
    (ht : Lowers Allowed Inv WireType.IsPlainOver t)
    (name : String)
    (facts : FieldFacts)
    (doc : Doc) :
    Lowers Allowed Inv Members.IsPlainOver
      (do
        let t ← t
        pure ([taggedField name facts t doc], [])) := by
  apply ht.map
  intro names t hGood
  exact Members.isPlainOver_tagged hGood name facts doc

/- A parent if there is one, or else what the field adds. -/
theorem lowers_parentOr
    {parent? : WalkStep ι σ (Option TypeName)}
    {own : WalkStep ι σ Members}
    (hParent :
      Lowers Allowed Inv (fun names p => ∀ id ∈ p, id ∈ names)
        parent?)
    (hOwn : Lowers Allowed Inv Members.IsPlainOver own) :
    Lowers Allowed Inv Members.IsPlainOver
      (do
        match ← parent? with
        | some parent => pure ([], [parent])
        | none => own) := by
  intro pending x hx
  apply yields_bind
  apply (hParent pending x hx).imp
  rintro (_ | parent) y ⟨hy, hxy, hGood⟩
  · apply (hOwn pending y hy).imp
    rintro m z ⟨hz, hyz, hm⟩
    exact ⟨hz, hxy.trans hyz, hm⟩
  · apply yields_pure
    have hTaken : parent ∈ y.taken := hGood parent rfl
    exact ⟨hy, hxy, Members.isPlainOver_parent hTaken⟩

theorem lowers_noParentOr
    {own : WalkStep ι σ Members}
    (hOwn : Lowers Allowed Inv Members.IsPlainOver own) :
    Lowers Allowed Inv Members.IsPlainOver
      (do
        let parent? ← pure none
        match parent? with
        | some parent => pure ([], [parent])
        | none => own) :=
  lowers_parentOr (lowers_pure (by simp)) hOwn

/- The name behind the pointers of a type is a parent. -/
theorem lowers_embedded
    {t : WalkStep ι σ WireType}
    {own : WalkStep ι σ Members}
    (ht : Lowers Allowed Inv WireType.IsPlainOver t)
    (hOwn : Lowers Allowed Inv Members.IsPlainOver own) :
    Lowers Allowed Inv Members.IsPlainOver
      (do
        let t ← t
        let parent? ← pure t.target.referent?
        match parent? with
        | some parent => pure ([], [parent])
        | none => own) := by
  have hReferent :
      Lowers Allowed Inv (fun names p => ∀ id ∈ p, id ∈ names)
        (do let t ← t; pure t.target.referent?) := by
    apply ht.map
    intro names t hGood id hId
    exact hGood.of_target hId
  have hBoth := lowers_parentOr hReferent hOwn
  rwa [bind_assoc] at hBoth

/- The members of two parts of a struct. -/
theorem lowers_append
    {first more : WalkStep ι σ Members}
    (hFirst : Lowers Allowed Inv Members.IsPlainOver first)
    (hMore : Lowers Allowed Inv Members.IsPlainOver more) :
    Lowers Allowed Inv Members.IsPlainOver
      (do
        let first ← first
        let more ← more
        pure (first.append more)) := by
  apply hFirst.map₂ _ hMore
  · intro names a b ha hb
    exact ha.append hb
  · intro names more a ha hMore
    exact ha.mono hMore

end WireSchema.Walk
