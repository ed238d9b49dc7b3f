import Mathlib.Data.Set.Card
import WireSchema.Proofs.Source.Finite
import WireSchema.Proofs.Source.Keeping

/-
  The expressions that an extraction from a grounded module
  can come to.

  The rank of a place of an argument counts the parameters
  that something is put around on some way to that place.  If
  no way leads back, what stands in a place is made of what
  stands in places of lower rank, and so there are finitely
  many expressions for each rank.

  Key definitions include:
    * `ModuleView.rank`
    * `ModuleView.values`
    * `ModuleView.Fits`
    * `ModuleView.Confines`, `exists_confines`
-/

namespace WireSchema.Source

open TypeExpr

namespace ModuleView

variable {v : ModuleView}

------------------------------------------------------------
-- Ranks
------------------------------------------------------------

/- The places that grow on the way to a place. -/
def growing (v : ModuleView) (b : Slot) : Set Slot :=
  { a | ∃ c, v.Grows a c ∧ Relation.ReflTransGen v.Flows c b }

theorem finite_growing (b : Slot) : (v.growing b).Finite := by
  apply (finite_flowing v).subset
  rintro a ⟨c, hGrows, -⟩
  exact ⟨c, hGrows.flows⟩

noncomputable def rank (v : ModuleView) (b : Slot) : Nat :=
  (v.growing b).ncard

/- No place has a higher rank. -/
noncomputable def topRank (v : ModuleView) : Nat :=
  { a | ∃ b, v.Flows a b }.ncard

theorem rank_le_topRank (b : Slot) : v.rank b ≤ v.topRank := by
  apply Set.ncard_le_ncard _ (finite_flowing v)
  rintro a ⟨c, hGrows, -⟩
  exact ⟨c, hGrows.flows⟩

theorem growing_subset
    {a b : Slot}
    (h : v.Flows a b) : v.growing a ⊆ v.growing b := by
  rintro c ⟨d, hGrows, hPath⟩
  exact ⟨d, hGrows, hPath.tail h⟩

theorem rank_le_of_flows
    {a b : Slot}
    (h : v.Flows a b) : v.rank a ≤ v.rank b :=
  Set.ncard_le_ncard (growing_subset h) (finite_growing b)

theorem rank_lt_of_grows
    {a b : Slot}
    (hGrounded : v.IsGrounded)
    (h : v.Grows a b) : v.rank a < v.rank b := by
  apply Set.ncard_lt_ncard _ (finite_growing b)
  refine ⟨growing_subset h.flows, ?_⟩
  intro hSubset
  have hSelf : a ∈ v.growing b := ⟨b, h, .refl⟩
  rcases hSubset hSelf with ⟨c, hGrows, hPath⟩
  exact hGrounded.arguments a c hGrows hPath

------------------------------------------------------------
-- Values
------------------------------------------------------------

/-
  What may stand in a place of a rank, if it starts from some
  expressions: what is made of expressions that are written
  and of what may stand in places of lower rank.
-/
def values (v : ModuleView) (seeds : Set TypeExpr) :
    Nat → Set TypeExpr
  | 0 => seeds ∪ v.written
  | n + 1 =>
      values v seeds n
        ∪ ⋃ e ∈ v.written, fillings (values v seeds n) e

variable {seeds : Set TypeExpr}

theorem finite_values
    (hSeeds : seeds.Finite)
    (n : Nat) : (v.values seeds n).Finite := by
  induction n with
  | zero => exact hSeeds.union (finite_written v)
  | succ n ih =>
      exact ih.union ((finite_written v).biUnion
        fun e _ => (finite_fillings ih).1 e)

theorem values_mono
    {m n : Nat}
    (h : m ≤ n) : v.values seeds m ⊆ v.values seeds n := by
  induction h with
  | refl => exact fun _ he => he
  | step _ ih => exact fun _ he => .inl (ih he)

theorem written_subset_values (n : Nat) :
    v.written ⊆ v.values seeds n := by
  intro e he
  exact values_mono (Nat.zero_le n) (.inr he)

theorem put_mem_values
    {n : Nat}
    {e : TypeExpr}
    {σ : String → TypeExpr}
    (he : e ∈ v.written)
    (hσ : ∀ name, .param name ∈ e.parts →
      σ name ∈ v.values seeds n) :
    e.put σ ∈ v.values seeds (n + 1) :=
  .inr (Set.mem_biUnion he ⟨σ, hσ, rfl⟩)

/- With an expression come its parts. -/
theorem parts_mem_values
    (hSeeds : ∀ e ∈ seeds, ∀ w ∈ e.parts, w ∈ seeds)
    {n : Nat}
    {e w : TypeExpr}
    (he : e ∈ v.values seeds n)
    (hw : w ∈ e.parts) : w ∈ v.values seeds n := by
  induction n generalizing e w with
  | zero =>
      rcases he with he | he
      · exact .inl (hSeeds e he w hw)
      · exact .inr (written_parts he hw)
  | succ n ih =>
      rcases he with he | he
      · exact .inl (ih he hw)
      · rcases Set.mem_iUnion₂.mp he with ⟨u, hu, σ, hσ, rfl⟩
        rcases isPartOfPut_of_mem.1 u w hw with
          ⟨t, ht, -, rfl⟩ | ⟨name, hName, hw⟩
        · apply put_mem_values (written_parts hu ht)
          intro name hName
          exact hσ name (mem_parts_trans hName ht)
        · exact .inl (ih (hσ name hName) hw)

------------------------------------------------------------
-- Ranked Expressions
------------------------------------------------------------

/- Each argument inside an expression is a value for its place. -/
def IsRanked
    (v : ModuleView)
    (seeds : Set TypeExpr)
    (e : TypeExpr) : Prop :=
  ∀ space name args, .named space name args ∈ e.parts →
    ∀ (index : Nat) (arg : TypeExpr), args[index]? = some arg →
      arg ∈ v.values seeds (v.rank { space, name, index })

theorem IsRanked.part
    {e w : TypeExpr}
    (h : v.IsRanked seeds e)
    (hw : w ∈ e.parts) : v.IsRanked seeds w := by
  intro space name args hPart
  exact h space name args (mem_parts_trans hPart hw)

/- All parts of an expression are values from the start. -/
theorem isRanked_of_parts
    {e : TypeExpr}
    (h : ∀ w ∈ e.parts, w ∈ v.values seeds 0) :
    v.IsRanked seeds e := by
  intro space name args hPart index arg hArg
  exact values_mono (Nat.zero_le _)
    (h arg (arg_mem_parts hPart hArg))

/-
  What is put for parameters of a declaration: each stands
  for itself, or for a ranked value for its place.
-/
def Supplies
    (v : ModuleView)
    (seeds : Set TypeExpr)
    (space name : String)
    (d : TypeSource)
    (σ : String → TypeExpr) : Prop :=
  ∀ param, σ param = .param param
    ∨ ∃ index, (d.params.map (·.name))[index]? = some param
      ∧ σ param ∈ v.values seeds (v.rank { space, name, index })
      ∧ v.IsRanked seeds (σ param)

variable {space name : String}
variable {d : TypeSource}
variable {e : TypeExpr}
variable {σ : String → TypeExpr}

/-
  An argument that is written in a declaration, with what is
  put for parameters, is a value for its place.
-/
theorem Supplies.put_arg
    (hGrounded : v.IsGrounded)
    (hSupplies : v.Supplies seeds space name d σ)
    (hUses : v.Uses space name d e)
    {b : Slot}
    {args : List TypeExpr}
    {arg : TypeExpr}
    (hPart : .named b.space b.name args ∈ e.parts)
    (hArg : args[b.index]? = some arg) :
    arg.put σ ∈ v.values seeds (v.rank b) := by
  have hInside : arg ∈ e.parts := arg_mem_parts hPart hArg
  have hWritten : ∀ w ∈ arg.parts, ∀ n,
      w ∈ v.values seeds n := fun w hw n =>
    written_subset_values n
      (hUses.written (mem_parts_trans hw hInside))
  have hPasses : ∀ {index : Nat} {param : String},
      (d.params.map (·.name))[index]? = some param →
      .param param ∈ arg.parts →
      v.Passes { space, name, index } b param arg :=
    fun hParam hIn => ⟨hUses, hParam, hPart, hArg, hIn⟩
  by_cases hAlone : ∃ param, arg = .param param
  · rcases hAlone with ⟨param, rfl⟩
    have hSelf := mem_parts_self (.param param)
    rw [put]
    rcases hSupplies param with hItself | ⟨index, hParam, hValue, -⟩
    · rw [hItself]
      exact hWritten _ hSelf _
    · have hFlows : v.Flows { space, name, index } b :=
        ⟨_, _, hPasses hParam hSelf⟩
      exact values_mono (rank_le_of_flows hFlows) hValue
  · -- what is put around a parameter is of a higher rank
    have hLower : ∀ param, .param param ∈ arg.parts →
        σ param = .param param
          ∨ ∃ n < v.rank b, σ param ∈ v.values seeds n := by
      intro param hIn
      rcases hSupplies param with
        hItself | ⟨index, hParam, hValue, -⟩
      · exact .inl hItself
      · have hGrows : v.Grows { space, name, index } b :=
          ⟨_, _, hPasses hParam hIn,
            fun hSame => hAlone ⟨param, hSame⟩⟩
        exact .inr ⟨_, rank_lt_of_grows hGrounded hGrows, hValue⟩
    cases hRank : v.rank b with
    | zero =>
        rw [(put_eq_self).1 arg]
        · exact hWritten arg (mem_parts_self arg) 0
        · intro param hIn
          rcases hLower param hIn with hItself | ⟨n, hn, -⟩
          · exact hItself
          · omega
    | succ n =>
        apply put_mem_values
          (hUses.written hInside)
        intro param hIn
        rcases hLower param hIn with hItself | ⟨k, hk, hValue⟩
        · rw [hItself]
          exact hWritten _ hIn n
        · exact values_mono (by omega) hValue

theorem Supplies.isRanked_put
    (hGrounded : v.IsGrounded)
    (hSupplies : v.Supplies seeds space name d σ)
    (hUses : v.Uses space name d e) :
    v.IsRanked seeds (e.put σ) := by
  intro space' name' args hPart index arg hArg
  rcases isPartOfPut_of_mem.1 e _ hPart with
    ⟨u, hu, hOther, hPut⟩ | ⟨param, hIn, hPart⟩
  · cases u with
    | named space'' name'' given =>
        rw [put, putArgs_eq_map] at hPut
        cases hPut
        rw [List.getElem?_map, Option.map_eq_some_iff] at hArg
        rcases hArg with ⟨own, hOwn, rfl⟩
        exact hSupplies.put_arg hGrounded hUses hu hOwn
    | param given => exact absurd rfl (hOther given)
    | _ => rw [put] at hPut; cases hPut
  · rcases hSupplies param with hItself | ⟨_, -, -, hRanked⟩
    · rw [hItself, parts, List.mem_singleton] at hPart
      cases hPart
    · exact hRanked _ _ args hPart index arg hArg

theorem Supplies.put_mem_values
    (hSupplies : v.Supplies seeds space name d σ)
    (hUses : v.Uses space name d e) :
    e.put σ ∈ v.values seeds (v.topRank + 1) := by
  apply ModuleView.put_mem_values
    (hUses.written (mem_parts_self e))
  intro param hIn
  rcases hSupplies param with hItself | ⟨index, -, hValue, -⟩
  · rw [hItself]
    exact written_subset_values _ (hUses.written hIn)
  · exact values_mono (rank_le_topRank _) hValue

------------------------------------------------------------
-- Scopes of Instances
------------------------------------------------------------

variable {i : Instance}
variable {x : SourceScope}

/- Parameters stand for themselves or for arguments in order. -/
theorem bindings_cases
    {params : List String}
    {args : List TypeExpr}
    {bindings : List (String × Binding)}
    (h : bindingsOf? params args = some bindings) :
    bindings = (params.map fun p => (p, .itself)).reverse
      ∨ args.length = params.length
        ∧ bindings = (params.zip (args.map .argument)).reverse := by
  unfold bindingsOf? at h
  split at h
  · exact .inl (Option.some.inj h).symm
  · split at h
    · next hLength =>
        exact .inr ⟨hLength, (Option.some.inj h).symm⟩
    · cases h

/- An instance of a declaration has its scope as it stands. -/
theorem Declares.generic_eq
    (h : v.Declares i x d)
    (hPlace : x.place = d.place) :
    x.generic = genericScope x.package x.file d := by
  unfold SourceScope.generic genericScope
  rw [hPlace]
  congr 1
  rcases bindings_cases h.bindings with hOwn | ⟨hLength, hOwn⟩
  · rw [hOwn]
    simp
  · have hNames :
        ((d.params.map (·.name)).zip
          (i.args.map Binding.argument)).map Prod.fst =
            d.params.map (·.name) :=
      List.map_fst_zip (by simp [hLength])
    have hEach := congrArg
      (List.map fun given => (given, Binding.itself)) hNames
    rw [hOwn, List.map_reverse]
    congr 1
    rw [List.map_map, List.map_map] at hEach
    exact hEach

/- Only parameters of its declaration are bound in a scope. -/
theorem Declares.binds_eq_false
    {given : String}
    (h : v.Declares i x d)
    (hPlace : x.place = d.place)
    (hOther : given ∉ d.params.map (·.name)) :
    x.binds given = false := by
  have hGeneric := SourceScope.lookup_generic (x := x) given
  rw [h.generic_eq hPlace] at hGeneric
  unfold SourceScope.binds
  cases hLookup : x.bindings.lookup given with
  | none => rfl
  | some b =>
      rw [hLookup, Option.map_some,
        List.lookup_eq_some_iff] at hGeneric
      rcases hGeneric with ⟨before, after, hSplit, -⟩
      have hMem : (given, Binding.itself) ∈
          (genericScope x.package x.file d).bindings := by
        rw [hSplit]
        simp
      apply absurd _ hOther
      simpa [genericScope] using hMem

/- What is looked up for a parameter is an argument in its place. -/
theorem Declares.exists_index
    {param : String}
    (h : v.Declares i x d)
    (hLookup : x.bindings.lookup param = some (.argument e)) :
    ∃ index : Nat, (d.params.map (·.name))[index]? = some param
      ∧ i.args[index]? = some e := by
  rcases List.lookup_eq_some_iff.mp hLookup with
    ⟨before, after, hSplit, -⟩
  have hMem : (param, Binding.argument e) ∈ x.bindings := by
    rw [hSplit]
    simp
  rcases bindings_cases h.bindings with hOwn | ⟨-, hOwn⟩
  · rw [hOwn] at hMem
    simp at hMem
  · rw [hOwn, List.mem_reverse] at hMem
    rcases List.mem_iff_getElem?.mp hMem with ⟨index, hPair⟩
    rcases List.getElem?_zip_eq_some.mp hPair with
      ⟨hParam, hArg⟩
    rw [List.getElem?_map, Option.map_eq_some_iff] at hArg
    rcases hArg with ⟨arg, hArg, hSame⟩
    cases hSame
    exact ⟨index, hParam, hArg⟩

------------------------------------------------------------
-- Confinement
------------------------------------------------------------

/- An instance of a type, with its arguments or without. -/
def IsAsked (Fits : TypeExpr → Prop) (i : Instance) : Prop :=
  ∃ args, Fits (.named i.space i.name args)
    ∧ (i.args = args ∨ i.args = [])

/-
  Expressions that an extraction does not leave: with an
  expression they have its parts, and what is used by the
  declarations of their instances and in bounds.
-/
structure Confines
    (v : ModuleView)
    (Fits : TypeExpr → Prop) : Prop where
  part : ∀ {e w}, Fits e → w ∈ e.parts → Fits w
  declared :
    ∀ {i x d u e}, IsAsked Fits i → v.Declares i x d →
      x.place = d.place → u ∈ d.uses →
      x.resolve? u = some e → Fits e
  bound :
    ∀ {space name p file d u e}, v.Holds space name p file d →
      u ∈ d.uses → (scopeOf p file d).resolve? u = some e →
      Fits e

/- There are finitely many instances of finitely many types. -/
theorem finite_asked
    {Fits : TypeExpr → Prop}
    (h : { e | Fits e }.Finite) :
    { i | IsAsked Fits i }.Finite := by
  have hInj : Set.InjOn
      (fun i : Instance => TypeExpr.named i.space i.name i.args)
      (Set.preimage
        (fun i : Instance => .named i.space i.name i.args)
        { e | Fits e }) := by
    rintro ⟨space, name, args⟩ _ ⟨space', name', args'⟩ _ hSame
    cases hSame
    rfl
  have hWhole := h.preimage hInj
  have hBare := hWhole.image fun i => { i with args := [] }
  apply (hWhole.union hBare).subset
  rintro ⟨space, name, args⟩ ⟨given, hFits, rfl | rfl⟩
  · exact .inl hFits
  · exact .inr ⟨{ space, name, args := given }, hFits, rfl⟩

/- An expression that an extraction may come to. -/
structure Fits
    (v : ModuleView)
    (seeds : Set TypeExpr)
    (e : TypeExpr) : Prop where
  value : e ∈ v.values seeds (v.topRank + 1)
  ranked : v.IsRanked seeds e

theorem fits_of_parts
    (h : ∀ w ∈ e.parts, w ∈ v.values seeds 0) :
    v.Fits seeds e where
  value := values_mono (Nat.zero_le _) (h e (mem_parts_self e))
  ranked := isRanked_of_parts h

theorem supplies_of_declares
    (hAsked : IsAsked (v.Fits seeds) i)
    (hDeclares : v.Declares i x d) :
    v.Supplies seeds i.space i.name d x.standsFor := by
  intro param
  unfold SourceScope.standsFor
  cases hLookup : x.bindings.lookup param with
  | none => exact .inl rfl
  | some b =>
      cases b with
      | itself => exact .inl rfl
      | argument e =>
          right
          rcases hDeclares.exists_index hLookup with
            ⟨index, hParam, hArg⟩
          rcases hAsked with ⟨args, hFits, hArgs | hNone⟩
          · rw [hArgs] at hArg
            have hSelf := mem_parts_self
              (.named i.space i.name args)
            exact ⟨index, hParam,
              hFits.ranked _ _ _ hSelf index e hArg,
              hFits.ranked.part (arg_mem_parts hSelf hArg)⟩
          · rw [hNone] at hArg
            cases hArg

/- What fits a grounded module is not left. -/
theorem confines_fits
    (hGrounded : v.IsGrounded)
    (hSeeds : ∀ e ∈ seeds, ∀ w ∈ e.parts, w ∈ seeds) :
    v.Confines (v.Fits seeds) where
  part := by
    intro e w he hw
    exact ⟨parts_mem_values hSeeds he.value hw,
      he.ranked.part hw⟩
  declared := by
    intro i x d u e hAsked hDeclares hPlace hUse hResolve
    have hHolds : v.Holds i.space i.name x.package x.file d :=
      ⟨hDeclares.loaded, hDeclares.found⟩
    have hSupplies := supplies_of_declares hAsked hDeclares
    have hPut := SourceScope.resolve?_put.1 u fun given hGiven =>
      hDeclares.binds_eq_false hPlace
        (hGrounded.heads hHolds u hUse given hGiven)
    rw [hResolve, hDeclares.generic_eq hPlace] at hPut
    rcases Option.map_eq_some_iff.mp hPut.symm with
      ⟨own, hOwn, rfl⟩
    have hUses : v.Uses i.space i.name d own :=
      ⟨hHolds, hUse, hOwn⟩
    exact ⟨hSupplies.put_mem_values hUses,
      hSupplies.isRanked_put hGrounded hUses⟩
  bound := by
    intro space name p file d u e hHolds hUse hResolve
    apply fits_of_parts
    intro w hw
    right
    exact mem_written hHolds
      (List.mem_cons_of_mem _ (List.mem_singleton_self _))
      hUse hResolve hw

------------------------------------------------------------
-- Requests
------------------------------------------------------------

/- What a request starts from: its roots, and declared types. -/
def seedsOf
    (v : ModuleView)
    (r : ExtractionRequest) : Set TypeExpr :=
  { e | e ∈ r.roots.flatMap parts }
    ∪ { e | ∃ id : TypeName, e = .named id.space id.name []
      ∧ ∃ p file d, v.Holds id.space id.name p file d }

variable {r : ExtractionRequest}

theorem finite_seedsOf : (v.seedsOf r).Finite := by
  have hRoots := (r.roots.flatMap parts).finite_toSet
  apply hRoots.union
  apply ((finite_declared v).image fun id =>
    TypeExpr.named id.space id.name []).subset
  rintro e ⟨id, rfl, hHolds⟩
  exact ⟨id, hHolds, rfl⟩

theorem parts_mem_seedsOf :
    ∀ e ∈ v.seedsOf r, ∀ w ∈ e.parts, w ∈ v.seedsOf r := by
  rintro e (hRoot | ⟨id, rfl, hHolds⟩) w hw
  · left
    rcases List.mem_flatMap.mp hRoot with ⟨root, hMem, he⟩
    exact List.mem_flatMap.mpr
      ⟨root, hMem, mem_parts_trans hw he⟩
  · right
    rw [parts, argParts, List.mem_singleton] at hw
    exact ⟨id, hw, hHolds⟩

/-
  From a grounded module a request comes to finitely many
  expressions, which have its roots and all declared types
  among them.
-/
theorem exists_confines
    (hGrounded : v.IsGrounded)
    (r : ExtractionRequest) :
    ∃ Fits, v.Confines Fits ∧ { e | Fits e }.Finite
      ∧ (∀ e ∈ r.roots, Fits e)
      ∧ ∀ space name, v.Finds space name →
        Fits (.named space name []) := by
  have hSeeds : ∀ e ∈ v.seedsOf r, v.Fits (v.seedsOf r) e := by
    intro e he
    apply fits_of_parts
    intro w hw
    exact .inl (parts_mem_seedsOf e he w hw)
  refine ⟨v.Fits (v.seedsOf r),
    confines_fits hGrounded parts_mem_seedsOf, ?_, ?_, ?_⟩
  · apply (finite_values finite_seedsOf (v.topRank + 1)).subset
    intro e he
    exact he.value
  · intro e he
    apply hSeeds
    left
    exact List.mem_flatMap.mpr ⟨e, he, mem_parts_self e⟩
  · rintro space name ⟨p, hLoaded, hFound⟩
    apply hSeeds
    right
    rcases Option.isSome_iff_exists.mp hFound with
      ⟨⟨file, d⟩, hDecl⟩
    exact ⟨{ name, space }, rfl, p, file, d, hLoaded, hDecl⟩

end ModuleView

end WireSchema.Source
