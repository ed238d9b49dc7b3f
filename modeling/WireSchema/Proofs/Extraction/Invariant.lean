import WireSchema.Proofs.Extraction.Step
import WireSchema.Proofs.Schema.Plain

/-
  What every walk keeps.

  A name that is taken is declared, in the queue, or pending:
  its declaration has begun and waits for its parts.  What is
  declared depends on taken names only.  Once nothing is in
  the queue and nothing pending, the schema is complete.

  Key definitions include:
    * `WireType.IsPlainOver`, `Members.IsPlainOver`
    * `WireType.IsDeclOver`
    * `Walk.Sound`, `Walk.Within`
-/

namespace WireSchema

------------------------------------------------------------
-- Types over Names
------------------------------------------------------------

/- A plain type that refers to given names only. -/
structure WireType.IsPlainOver
    (names : List TypeName)
    (t : WireType) : Prop where
  plain : t.IsPlain
  within : t.references ⊆ names

namespace WireType

variable {names : List TypeName}

@[simp] theorem isPlainOver_base (kind : BaseKind) (bits : Nat) :
    (base kind bits).IsPlainOver names :=
  ⟨by simp, by simp⟩

@[simp] theorem isPlainOver_any : any.IsPlainOver names :=
  isPlainOver_base .any 0

@[simp] theorem isPlainOver_param (name : String) :
    (param { name }).IsPlainOver names :=
  ⟨by simp, by simp [boundReferences]⟩

@[simp] theorem isPlainOver_reference (id : TypeName) :
    (reference id).IsPlainOver names ↔ id ∈ names := by
  constructor
  · intro h
    exact h.within (by simp)
  · intro h
    exact ⟨by simp, by simpa using h⟩

@[simp] theorem isPlainOver_array (elem : WireType) (len : Nat) :
    (array elem len).IsPlainOver names ↔
      elem.IsPlainOver names := by
  constructor
  · intro h
    exact ⟨by simpa using h.plain, by simpa using h.within⟩
  · intro h
    exact ⟨by simpa using h.plain, by simpa using h.within⟩

@[simp] theorem isPlainOver_pointer (elem : WireType) :
    (pointer elem).IsPlainOver names ↔
      elem.IsPlainOver names := by
  constructor
  · intro h
    exact ⟨by simpa using h.plain, by simpa using h.within⟩
  · intro h
    exact ⟨by simpa using h.plain, by simpa using h.within⟩

@[simp] theorem isPlainOver_map (key value : WireType) :
    (map key value).IsPlainOver names ↔
      key.IsPlainOver names ∧ value.IsPlainOver names := by
  constructor
  · intro h
    have hPlain := (isPlain_map key value).mp h.plain
    have hWithin := h.within
    rw [references_map, List.append_subset] at hWithin
    exact ⟨⟨hPlain.1, hWithin.1⟩, ⟨hPlain.2, hWithin.2⟩⟩
  · rintro ⟨hKey, hValue⟩
    refine ⟨by simp [hKey.plain, hValue.plain], ?_⟩
    rw [references_map, List.append_subset]
    exact ⟨hKey.within, hValue.within⟩

/- With more names, it is a type over them as well. -/
theorem IsPlainOver.mono
    {more : List TypeName}
    {t : WireType}
    (h : t.IsPlainOver names)
    (hMore : names ⊆ more) : t.IsPlainOver more :=
  ⟨h.plain, List.Subset.trans h.within hMore⟩

theorem IsPlainOver.collapse
    {t : WireType}
    (h : t.IsPlainOver names) :
    t.collapse.IsPlainOver names :=
  ⟨h.plain.collapse, by simpa using h.within⟩

/- The name behind the pointers of a type is given. -/
theorem IsPlainOver.of_target
    {t : WireType}
    {id : TypeName}
    (h : t.IsPlainOver names)
    (hTarget : t.target.referent? = some id) : id ∈ names :=
  h.within (mem_references_of_target hTarget)

/- Predeclared and well-known types refer to no name. -/
theorem isPlainOver_of_builtinType?
    {name : String}
    {t : WireType}
    (h : builtinType? name = some t) :
    t.IsPlainOver names := by
  unfold builtinType? at h
  rcases Option.map_eq_some_iff.mp h with ⟨p, -, rfl⟩
  exact isPlainOver_base p.1 p.2

theorem isPlainOver_builtin (name : String) :
    ((builtinType? name).getD .any).IsPlainOver names := by
  cases h : builtinType? name with
  | none => exact isPlainOver_any
  | some t => exact isPlainOver_of_builtinType? h

theorem isPlainOver_of_find?
    {known : WellKnown}
    {space name : String}
    {t : WireType}
    (h : known.find? space name = some t) :
    t.IsPlainOver names := by
  unfold WellKnown.find? at h
  rcases Option.map_eq_some_iff.mp h with ⟨kind, -, rfl⟩
  exact isPlainOver_base kind _

end WireType

------------------------------------------------------------
-- Members over Names
------------------------------------------------------------

/- Fields of types over names, and parents among them. -/
structure Members.IsPlainOver
    (names : List TypeName)
    (m : Members) : Prop where
  fields : ∀ f ∈ m.1, f.type.IsPlainOver names
  parents : m.2 ⊆ names

namespace Members

variable {names : List TypeName}

theorem isPlainOver_nil :
    IsPlainOver names ([], []) :=
  ⟨by simp, by simp⟩

theorem isPlainOver_parent
    {id : TypeName}
    (h : id ∈ names) : IsPlainOver names ([], [id]) :=
  ⟨by simp, by simpa using h⟩

/- A tagged field has the type it was made from, collapsed. -/
theorem isPlainOver_tagged
    {t : WireType}
    (h : t.IsPlainOver names)
    (name : String)
    (facts : FieldFacts)
    (doc : Doc) :
    IsPlainOver names ([taggedField name facts t doc], []) := by
  constructor
  · intro f hf
    rw [List.mem_singleton] at hf
    subst hf
    exact h.collapse
  · simp

theorem IsPlainOver.append
    {a b : Members}
    (ha : a.IsPlainOver names)
    (hb : b.IsPlainOver names) :
    (a.append b).IsPlainOver names := by
  constructor
  · intro f hf
    rcases List.mem_append.mp hf with hf | hf
    · exact ha.fields f hf
    · exact hb.fields f hf
  · exact List.append_subset.mpr ⟨ha.parents, hb.parents⟩

/- Good parts of a struct are good together. -/
theorem isPlainOver_foldl
    {parts : List Members}
    {first : Members}
    (hFirst : first.IsPlainOver names)
    (hParts : ∀ m ∈ parts, m.IsPlainOver names) :
    (parts.foldl append first).IsPlainOver names := by
  induction parts generalizing first with
  | nil => exact hFirst
  | cons m rest ih =>
      rw [List.forall_mem_cons] at hParts
      exact ih (hFirst.append hParts.1) hParts.2

theorem IsPlainOver.mono
    {more : List TypeName}
    {m : Members}
    (h : m.IsPlainOver names)
    (hMore : names ⊆ more) : m.IsPlainOver more :=
  ⟨fun f hf => (h.fields f hf).mono hMore,
    List.Subset.trans h.parents hMore⟩

end Members

------------------------------------------------------------
-- Declarations over Names
------------------------------------------------------------

/- Parameters with bounds of a kind that refer to names. -/
structure BoundsOver
    (bound : WireType → Prop)
    (names : List TypeName)
    (params : List (TypeParam WireType)) : Prop where
  kind : WireType.BoundsSatisfy bound params
  within :
    ∀ p ∈ params, WireType.boundReferences p ⊆ names

/- A plain declaration that depends on given names only. -/
structure WireType.IsDeclOver
    (bound : WireType → Prop)
    (names : List TypeName)
    (t : WireType) : Prop where
  decl : t.IsPlainDecl bound
  closed : t.dependencies ⊆ names

variable {bound : WireType → Prop}
variable {names : List TypeName}

theorem boundsOver_nil : BoundsOver bound names [] :=
  ⟨by simp [WireType.BoundsSatisfy], by simp⟩

namespace WireType

theorem isDeclOver_record
    {d : RecordDecl WireType}
    (hParams : BoundsOver bound names d.params)
    (hMembers :
      Members.IsPlainOver names (d.fields, d.parents)) :
    (record d).IsDeclOver bound names := by
  refine ⟨⟨hParams.kind, ?_⟩, ?_⟩
  · intro f hf
    exact (hMembers.fields f hf).plain
  · intro id hId
    simp only [dependencies, references_record,
      List.mem_append, List.mem_flatMap] at hId
    rcases hId with hId | ⟨p, hp, hId⟩ | ⟨f, hf, hId⟩
    · exact hMembers.parents hId
    · exact hParams.within p hp hId
    · exact (hMembers.fields f hf).within hId

theorem isDeclOver_synonym
    {d : SynonymDecl WireType}
    (hParams : BoundsOver bound names d.params)
    (hTarget : d.target.IsPlainOver names) :
    (synonym d).IsDeclOver bound names := by
  refine ⟨⟨hParams.kind, hTarget.plain⟩, ?_⟩
  intro id hId
  simp only [dependencies, references_synonym,
    List.mem_append, List.mem_flatMap] at hId
  rcases hId with ⟨p, hp, hId⟩ | hId
  · exact hParams.within p hp hId
  · exact hTarget.within hId

theorem isDeclOver_enum (d : EnumDecl) :
    (enum d).IsDeclOver bound names :=
  ⟨trivial, by simp [dependencies]⟩

end WireType

------------------------------------------------------------
-- Sound States
------------------------------------------------------------

/- A warning is no declaration. -/
theorem Schema.types_note (s : Schema) (w : Warning) :
    (s.note w).types = s.types := by
  unfold Schema.note
  split
  · rfl
  · rfl

namespace Walk

variable {ι σ : Type}
variable {Allowed : ExtractionFault → Prop}
variable {idOf : ι → TypeName}
variable {pending : List TypeName}
variable {x y : Walk ι σ}

/-
  A walk that is sound up to its pending names.  Every taken
  name is accounted for once.
-/
structure Sound
    (idOf : ι → TypeName)
    (bound : WireType → Prop)
    (pending : List TypeName)
    (x : Walk ι σ) : Prop where
  services : x.schema.services = []
  decls : ∀ t ∈ x.schema.types, t.IsPlainDecl bound
  closed :
    ∀ t ∈ x.schema.types, t.dependencies ⊆ x.taken
  distinct : x.taken.Nodup
  accounts :
    x.taken.Perm
      (pending ++ (x.schema.names ++ x.queue.map idOf))

/- The start of a walk is sound. -/
theorem sound_init (memory : σ) :
    Sound idOf bound [] ({ memory } : Walk ι σ) where
  services := rfl
  decls := by simp
  closed := by simp
  distinct := List.nodup_nil
  accounts := by simp [Schema.names]

/- Claims and memory have no part in it. -/
theorem Sound.congr
    (h : Sound idOf bound pending x)
    (hSchema : y.schema = x.schema)
    (hTaken : y.taken = x.taken)
    (hQueue : y.queue = x.queue) :
    Sound idOf bound pending y where
  services := by rw [hSchema, h.services]
  decls := by rw [hSchema]; exact h.decls
  closed := by rw [hSchema, hTaken]; exact h.closed
  distinct := by rw [hTaken]; exact h.distinct
  accounts := by
    rw [hSchema, hTaken, hQueue]
    exact h.accounts

/- The name of a declaration that begins becomes pending. -/
theorem Sound.take
    {id : TypeName}
    (h : Sound idOf bound pending x)
    (hFree : id ∉ x.taken) :
    Sound idOf bound (id :: pending)
      { x with taken := id :: x.taken } where
  services := h.services
  decls := h.decls
  closed := by
    intro t ht
    exact List.Subset.trans (h.closed t ht)
      (List.subset_cons_self ..)
  distinct := List.nodup_cons.mpr ⟨hFree, h.distinct⟩
  accounts := h.accounts.cons id

/- The name of an item in the queue is accounted for. -/
theorem Sound.enqueue
    {i : ι}
    (h : Sound idOf bound pending x)
    (hFree : idOf i ∉ x.taken) :
    Sound idOf bound pending
      { x with
        taken := idOf i :: x.taken
        queue := x.queue ++ [i] } where
  services := h.services
  decls := h.decls
  closed := (h.take hFree).closed
  distinct := (h.take hFree).distinct
  accounts := by
    have hSwap :
        (idOf i :: (pending
          ++ (x.schema.names ++ x.queue.map idOf))).Perm
        ((pending ++ (x.schema.names ++ x.queue.map idOf))
          ++ [idOf i]) :=
      @List.perm_append_comm _ [idOf i] _
    simpa using (h.accounts.cons (idOf i)).trans hSwap

/- The name of an item that leaves the queue is pending. -/
theorem Sound.dequeue
    {i : ι}
    {rest : List ι}
    (h : Sound idOf bound pending x)
    (hQueue : x.queue = i :: rest) :
    Sound idOf bound (idOf i :: pending)
      { x with queue := rest } where
  services := h.services
  decls := h.decls
  closed := h.closed
  distinct := h.distinct
  accounts := by
    apply h.accounts.trans
    rw [hQueue, List.map_cons, ← List.append_assoc,
      ← List.append_assoc]
    exact List.perm_middle

/- A pending name that is declared is pending no more. -/
theorem Sound.declare
    {id : TypeName}
    {t : WireType}
    (h : Sound idOf bound (id :: pending) x)
    (hId : t.id? = some id)
    (ht : t.IsDeclOver bound x.taken) :
    Sound idOf bound pending
      { x with
        schema :=
          { x.schema with types := x.schema.types ++ [t] } }
    where
  services := h.services
  decls := by
    intro u hu
    rcases List.mem_append.mp hu with hu | hu
    · exact h.decls u hu
    · rw [List.mem_singleton.mp hu]
      exact ht.decl
  closed := by
    intro u hu
    rcases List.mem_append.mp hu with hu | hu
    · exact h.closed u hu
    · rw [List.mem_singleton.mp hu]
      exact ht.closed
  distinct := h.distinct
  accounts := by
    have hNames :
        ({ x.schema with types := x.schema.types ++ [t] } :
          Schema).names = x.schema.names ++ [id] := by
      simp [Schema.names, hId]
    apply h.accounts.trans
    rw [hNames, List.append_assoc, List.cons_append,
      List.singleton_append, ← List.append_assoc,
      ← List.append_assoc]
    exact List.perm_middle.symm

/- Without a queue the taken names are the declared ones. -/
theorem Sound.taken_perm
    (h : Sound idOf bound [] x)
    (hQueue : x.queue = []) : x.taken.Perm x.schema.names := by
  simpa [hQueue] using h.accounts

/-
  With no name pending and nothing in the queue, the schema
  is complete.
-/
theorem Sound.isComplete
    (h : Sound idOf bound [] x)
    (hQueue : x.queue = []) : x.schema.IsComplete := by
  have hTaken := h.taken_perm hQueue
  constructor
  · exact hTaken.nodup_iff.mp h.distinct
  · intro t ht id hId
    exact hTaken.mem_iff.mp (h.closed t ht hId)

------------------------------------------------------------
-- Later States
------------------------------------------------------------

/- Names and declarations of a state that a later one has. -/
structure Within (x y : Walk ι σ) : Prop where
  taken : x.taken ⊆ y.taken
  types : x.schema.types <+: y.schema.types

theorem Within.refl (x : Walk ι σ) : x.Within x :=
  ⟨List.Subset.refl _, List.prefix_refl _⟩

theorem Within.trans
    {z : Walk ι σ}
    (hxy : x.Within y)
    (hyz : y.Within z) : x.Within z :=
  ⟨List.Subset.trans hxy.taken hyz.taken,
    hxy.types.trans hyz.types⟩

theorem within_take (x : Walk ι σ) (id : TypeName) :
    x.Within { x with taken := id :: x.taken } :=
  ⟨List.subset_cons_self .., List.prefix_refl _⟩

theorem within_enqueue
    (x : Walk ι σ)
    (id : TypeName)
    (i : ι) :
    x.Within
      { x with
        taken := id :: x.taken
        queue := x.queue ++ [i] } :=
  ⟨List.subset_cons_self .., List.prefix_refl _⟩

theorem within_dequeue (x : Walk ι σ) (rest : List ι) :
    x.Within { x with queue := rest } :=
  ⟨List.Subset.refl _, List.prefix_refl _⟩

theorem within_note (x : Walk ι σ) (w : Warning) :
    x.Within { x with schema := x.schema.note w } := by
  have hTypes := Schema.types_note x.schema w
  refine ⟨List.Subset.refl _, [], ?_⟩
  rw [List.append_nil, hTypes]

theorem within_claim
    (x : Walk ι σ)
    (id : TypeName)
    (i : ι) :
    x.Within { x with claims := (id, i) :: x.claims } :=
  ⟨List.Subset.refl _, List.prefix_refl _⟩

theorem within_declare (x : Walk ι σ) (t : WireType) :
    x.Within
      { x with
        schema :=
          { x.schema with types := x.schema.types ++ [t] } } :=
  ⟨List.Subset.refl _, List.prefix_append _ _⟩

/- What is declared stands in the schema after that. -/
theorem within_of_run_declare
    {t : WireType}
    (h : (declare t : WalkStep ι σ Unit).run x = .ok ((), y)) :
    x.Within y ∧ t ∈ y.schema.types := by
  cases hId : t.id? with
  | none =>
      unfold declare Schema.addType at h
      rw [StateT.run_bind, StateT.run_get, hId] at h
      cases h
  | some id =>
      rw [run_declare hId] at h
      cases h
      refine ⟨within_declare x t, ?_⟩
      exact List.mem_append_right _ List.mem_cons_self

------------------------------------------------------------
-- Steps
------------------------------------------------------------

/- A warning changes nothing that is accounted for. -/
theorem yields_note
    {w : Warning}
    {Q : Unit → Walk ι σ → Prop}
    (h : Sound idOf bound pending x)
    (hQ : ∀ schema,
      Sound idOf bound pending { x with schema } →
      x.Within { x with schema } →
      Q () { x with schema }) :
    Yields Allowed (note w) x Q := by
  apply yields_modify
  apply hQ
  · unfold Schema.note
    split
    · exact h
    · constructor
      · exact h.services
      · exact h.decls
      · exact h.closed
      · exact h.distinct
      · exact h.accounts
  · exact within_note x w

theorem yields_declare
    {id : TypeName}
    {t : WireType}
    {Q : Unit → Walk ι σ → Prop}
    (h : Sound idOf bound (id :: pending) x)
    (hId : t.id? = some id)
    (ht : t.IsDeclOver bound x.taken)
    (hQ : ∀ schema,
      Sound idOf bound pending { x with schema } →
      x.Within { x with schema } →
      Q () { x with schema }) :
    Yields Allowed (declare t) x Q := by
  unfold Yields
  rw [run_declare hId]
  exact hQ _ (h.declare hId ht) (within_declare x t)

theorem yields_takeName
    {id : TypeName}
    {Q : Bool → Walk ι σ → Prop}
    (hTaken : id ∈ x.taken → Q false x)
    (hFree : id ∉ x.taken →
      Q true { x with taken := id :: x.taken }) :
    Yields Allowed (takeName id : WalkStep ι σ Bool) x Q := by
  unfold Yields
  by_cases hId : id ∈ x.taken
  · rw [run_takeName_of_mem hId]
    exact hTaken hId
  · rw [run_takeName_of_not_mem hId]
    exact hFree hId

theorem yields_enqueue
    {id : TypeName}
    {i : ι}
    {Q : Unit → Walk ι σ → Prop}
    (hTaken : id ∈ x.taken → Q () x)
    (hFree : id ∉ x.taken →
      Q ()
        { x with
          taken := id :: x.taken
          queue := x.queue ++ [i] }) :
    Yields Allowed (enqueue id i : WalkStep ι σ Unit) x Q := by
  apply yields_bind
  apply yields_takeName
  · intro hId
    exact yields_pure (hTaken hId)
  · intro hId
    apply yields_modify
    exact hFree hId

theorem yields_claim
    [BEq ι]
    {shown : ι → String}
    {id : TypeName}
    {i : ι}
    {Q : Unit → Walk ι σ → Prop}
    (hOwn : ∀ first, x.claims.lookup id = some first →
      (first == i) = true → Q () x)
    (hNew : x.claims.lookup id = none →
      Q () { x with claims := (id, i) :: x.claims })
    (hClash : ∀ first, x.claims.lookup id = some first →
      (first == i) = false →
      Allowed (.nameClash id (shown first) (shown i))) :
    Yields Allowed (claim shown id i) x Q := by
  apply yields_bind
  apply yields_get
  cases hLookup : x.claims.lookup id with
  | none => exact yields_set (hNew hLookup)
  | some first =>
      cases hSame : first == i with
      | true =>
          simp only [hSame, if_true]
          exact yields_pure (hOwn first hLookup hSame)
      | false =>
          simp only [hSame]
          exact yields_fault (hClash first hLookup hSame)

end Walk

end WireSchema
