import WireSchema.Proofs.Emit.Order
import WireSchema.Proofs.Schema.Paths

/-
  The order of emission as a whole.

  A search that finishes a declaration has seen all that the
  declaration depends on.  What it has seen is finished too, or
  stands on the path that leads to the declaration; then the
  two depend on each other.

  A search never finishes a name twice, since it only enters
  names that it has not seen.  So the order lists each named
  declaration once.  It puts a declaration before one that it
  depends on only where the two are on one cycle.

  Key definitions include:
    * `Schema.Needs`, `Schema.InOrder`
    * `Schema.inOrder_emitOrder`
    * `Schema.Adds`
    * `Schema.OnCycle`
    * `Schema.emitOrder_perm_ordered`
-/

namespace WireSchema

open Relation

namespace Schema

variable {s : Schema}

------------------------------------------------------------
-- Precedence
------------------------------------------------------------

/- A declaration of a name depends on another declared name. -/
def Needs (s : Schema) (id dep : TypeName) : Prop :=
  ∃ t ∈ s.types, t.id? = some id
    ∧ dep ∈ t.dependencies ∧ dep ∈ s.names

/-
  What a declaration in a list depends on is declared before
  it, or depends on it in turn.
-/
def InOrder (s : Schema) (ts : List WireType) : Prop :=
  ∀ before t after id, ts = before ++ t :: after →
    t.id? = some id →
    ∀ dep ∈ t.dependencies, dep ∈ s.names →
      dep ∈ before.filterMap WireType.id?
        ∨ TransGen s.Needs dep id

theorem InOrder.append
    {ts : List WireType}
    {t : WireType}
    (h : s.InOrder ts)
    (hLast : ∀ id, t.id? = some id →
      ∀ dep ∈ t.dependencies, dep ∈ s.names →
        dep ∈ ts.filterMap WireType.id?
          ∨ TransGen s.Needs dep id) :
    s.InOrder (ts ++ [t]) := by
  intro before u after id hSplit hId dep hDep hName
  rcases List.append_eq_append_iff.mp hSplit with
    ⟨rest, rfl, hRest⟩ | ⟨rest, rfl, hRest⟩
  · cases rest with
    | nil =>
        cases hRest
        rw [List.append_nil]
        exact hLast id hId dep hDep hName
    | cons first more => simp at hRest
  · cases rest with
    | nil =>
        cases hRest
        rw [List.append_nil] at hLast
        exact hLast id hId dep hDep hName
    | cons first more =>
        cases hRest
        exact h before _ more id rfl hId dep hDep hName

/-
  A search that has come along a path.  It has seen the path,
  and what else it has seen is finished in order.
-/
structure Ordered
    (s : Schema)
    (path : List TypeName)
    (state : Search) : Prop where
  entered : path ⊆ state.seen
  seen :
    ∀ id ∈ state.seen,
      id ∈ path ∨ id ∈ state.finished.filterMap WireType.id?
  finished : s.InOrder state.finished

/- Names that are not declared are passed over. -/
theorem visit_of_notMem
    {id : TypeName}
    (hId : id ∉ s.names)
    (depth : Nat)
    (state : Search) : s.visit depth state id = state := by
  have hNone : s.findLast? id = none := by
    cases hFound : s.findLast? id with
    | none => rfl
    | some t =>
        have hDecl := id?_of_findLast? hFound
        exact absurd (mem_names_of_id? hDecl.1 hDecl.2) hId
  cases depth with
  | zero => rfl
  | succ depth =>
      unfold visit
      rw [hNone]
      split
      · rfl
      · rfl

/- Steps that keep the order see all declared names. -/
theorem ordered_foldl
    {path : List TypeName}
    {step : Search → TypeName → Search}
    (hExplores : ∀ state id, s.Explores state (step state id))
    {ids : List TypeName}
    (hStep : ∀ id ∈ ids, ∀ state, s.Ordered path state →
      s.Ordered path (step state id)
        ∧ (id ∈ s.names → id ∈ (step state id).seen))
    {state : Search}
    (h : s.Ordered path state) :
    s.Ordered path (ids.foldl step state)
      ∧ ∀ id ∈ ids, id ∈ s.names →
        id ∈ (ids.foldl step state).seen := by
  induction ids generalizing state with
  | nil => exact ⟨h, List.forall_mem_nil _⟩
  | cons id rest ih =>
      rw [List.forall_mem_cons] at hStep
      rcases hStep.1 state h with ⟨hNext, hSeen⟩
      rcases ih hStep.2 hNext with ⟨hAll, hRest⟩
      refine ⟨hAll, List.forall_mem_cons.mpr ⟨?_, hRest⟩⟩
      intro hName
      exact (explores_foldl hExplores rest _).seen (hSeen hName)

/-
  A visit keeps the order and sees its name.  The depth
  suffices, since a path that uses it up would hold more names
  than are declared.
-/
theorem ordered_visit
    {depth : Nat}
    {path : List TypeName}
    {state : Search}
    {id : TypeName}
    (hPath : s.IsPath s.Needs path)
    (hSteps : (path ++ [id]).IsChain s.Needs)
    (hName : id ∈ s.names)
    (hDepth : s.types.length < path.length + depth)
    (h : s.Ordered path state) :
    s.Ordered path (s.visit depth state id)
      ∧ id ∈ (s.visit depth state id).seen := by
  induction depth generalizing path state id with
  | zero =>
      have hLength := hPath.length_le
      omega
  | succ depth ih =>
      by_cases hSeen : id ∈ state.seen
      · unfold visit
        rw [if_pos (by simpa using hSeen)]
        exact ⟨h, hSeen⟩
      · rcases exists_findLast? hName with ⟨t, hFound⟩
        have hDecl := id?_of_findLast? hFound
        unfold visit
        rw [if_neg (by simpa using hSeen), hFound]
        dsimp only
        have hNew : id ∉ path := fun hMem => hSeen (h.entered hMem)
        have hLonger := hPath.extend hSteps hName hNew
        have hEntered : s.Ordered (path ++ [id])
            { state with seen := id :: state.seen } := by
          refine ⟨?_, ?_, h.finished⟩
          · rw [List.append_subset]
            refine ⟨?_, by simp⟩
            exact List.Subset.trans h.entered
              (List.subset_cons_self id _)
          · intro other hOther
            rcases List.mem_cons.mp hOther with rfl | hOther
            · exact .inl (by simp)
            · exact (h.seen other hOther).imp_left
                (List.mem_append_left _)
        have hStep : ∀ dep ∈ t.dependencies, ∀ state,
            s.Ordered (path ++ [id]) state →
            s.Ordered (path ++ [id]) (s.visit depth state dep)
              ∧ (dep ∈ s.names →
                dep ∈ (s.visit depth state dep).seen) := by
          intro dep hDep state hState
          by_cases hDeclared : dep ∈ s.names
          · have hNeeds : s.Needs id dep :=
              ⟨t, hDecl.1, hDecl.2, hDep, hDeclared⟩
            have hLength : s.types.length <
                (path ++ [id]).length + depth := by
              rw [List.length_append, List.length_singleton]
              omega
            rcases ih hLonger (isChain_extend hSteps hNeeds)
                hDeclared hLength hState with ⟨hNext, hVisited⟩
            exact ⟨hNext, fun _ => hVisited⟩
          · rw [visit_of_notMem hDeclared]
            exact ⟨hState, fun hDep => absurd hDep hDeclared⟩
        rcases ordered_foldl (s.explores_visit depth) hStep
            hEntered with ⟨hLeft, hAll⟩
        generalize t.dependencies.foldl (s.visit depth)
          { state with seen := id :: state.seen } = left
          at hLeft hAll
        refine ⟨⟨?entered, ?seen, ?finished⟩, ?self⟩
        case entered =>
          exact (List.append_subset.mp hLeft.entered).1
        case seen =>
          intro other hOther
          rw [List.filterMap_append, List.mem_append]
          rcases hLeft.seen other hOther with hMem | hDone
          · rcases List.mem_append.mp hMem with hMem | hSelf
            · exact .inl hMem
            · rw [List.mem_singleton.mp hSelf]
              exact .inr (.inr (by simp [hDecl.2]))
          · exact .inr (.inl hDone)
        case finished =>
          apply hLeft.finished.append
          intro own hOwn dep hDep hDeclared
          cases hOwn.symm.trans hDecl.2
          rcases hLeft.seen dep (hAll dep hDep hDeclared) with
            hMem | hDone
          · right
            rcases List.mem_append.mp hMem with hMem | hSelf
            · exact transGen_of_mem hSteps hMem
            · have hSame := List.mem_singleton.mp hSelf
              rw [hSame] at hDep hDeclared ⊢
              exact .single
                ⟨t, hDecl.1, hDecl.2, hDep, hDeclared⟩
          · exact .inl hDone
        case self =>
          exact hLeft.entered (List.mem_append_right _ (by simp))

/-
  In the order of emission a declaration stands behind all it
  depends on, unless that depends on the declaration in turn.
-/
theorem inOrder_emitOrder
    (s : Schema)
    (names : EmittedNames) : s.InOrder (s.emitOrder names) := by
  have hStart : s.Ordered [] {} := by
    refine ⟨List.nil_subset _, by simp, ?_⟩
    intro before t after id hSplit
    simp at hSplit
  have hRoot : ∀ id ∈ s.roots names, ∀ state,
      s.Ordered [] state →
      s.Ordered [] (s.visit (s.types.length + 1) state id)
        ∧ (id ∈ s.names →
          id ∈ (s.visit (s.types.length + 1) state id).seen) := by
    intro id hId state hState
    have hName := mem_roots.mp hId
    have hLength : s.types.length <
        ([] : List TypeName).length + (s.types.length + 1) := by
      simp
    rcases ordered_visit isPath_nil (by simp) hName hLength
        hState with ⟨hNext, hSeen⟩
    exact ⟨hNext, fun _ => hSeen⟩
  exact (ordered_foldl (s.explores_visit _) hRoot
    hStart).1.finished

variable {before middle after : Search}

------------------------------------------------------------
-- Single Visits
------------------------------------------------------------

/-
  What a search that goes on adds to the finished ones: names
  that it had not seen and has seen then, each of them once.
-/
structure Adds (before after : Search) : Prop where
  seen : before.seen ⊆ after.seen
  added : ∃ more, after.finished = before.finished ++ more
    ∧ (more.filterMap WireType.id?).Nodup
    ∧ ∀ id ∈ more.filterMap WireType.id?,
      id ∉ before.seen ∧ id ∈ after.seen

theorem adds_refl (state : Search) : Adds state state where
  seen := List.Subset.refl _
  added := ⟨[], by simp⟩

theorem Adds.trans
    (h : Adds before middle)
    (hNext : Adds middle after) : Adds before after where
  seen := List.Subset.trans h.seen hNext.seen
  added := by
    rcases h.added with ⟨first, hFirst, hOnce, hFresh⟩
    rcases hNext.added with ⟨more, hMore, hOnce', hFresh'⟩
    refine ⟨first ++ more, ?_, ?_, ?_⟩
    · rw [hMore, hFirst, List.append_assoc]
    · rw [List.filterMap_append, List.nodup_append]
      refine ⟨hOnce, hOnce', ?_⟩
      rintro id hId _ hMem rfl
      exact (hFresh' id hMem).1 (hFresh id hId).2
    · intro id hId
      rw [List.filterMap_append, List.mem_append] at hId
      rcases hId with hId | hId
      · rcases hFresh id hId with ⟨hNew, hSeen⟩
        exact ⟨hNew, hNext.seen hSeen⟩
      · rcases hFresh' id hId with ⟨hNew, hSeen⟩
        exact ⟨fun hOld => hNew (h.seen hOld), hSeen⟩

theorem adds_foldl
    {step : Search → TypeName → Search}
    (hStep : ∀ state id, Adds state (step state id))
    (ids : List TypeName)
    (state : Search) : Adds state (ids.foldl step state) := by
  induction ids generalizing state with
  | nil => exact adds_refl state
  | cons id rest ih => exact (hStep state id).trans (ih _)

/-
  A visit adds its own name last, behind what it meets on the
  way.  By then the name has been seen, so nothing on the way
  has added it.
-/
theorem adds_visit
    (depth : Nat)
    (state : Search)
    (id : TypeName) : Adds state (s.visit depth state id) := by
  induction depth generalizing state id with
  | zero => exact adds_refl state
  | succ depth ih =>
      unfold visit
      split
      · exact adds_refl state
      · next hSeen =>
          split
          · exact adds_refl state
          · next t hFound =>
              have hId := (id?_of_findLast? hFound).2
              have hNew : id ∉ state.seen := by
                simpa using hSeen
              have hLeft := adds_foldl ih t.dependencies
                { state with seen := id :: state.seen }
              rcases hLeft.added with
                ⟨more, hMore, hOnce, hFresh⟩
              dsimp only
              refine ⟨?seen, more ++ [t], ?list, ?once, ?fresh⟩
              case seen =>
                exact List.Subset.trans
                  (List.subset_cons_self id state.seen)
                  hLeft.seen
              case list => rw [hMore, List.append_assoc]
              case once =>
                have hOther : id ∉ more.filterMap WireType.id? :=
                  fun hMem => (hFresh id hMem).1 List.mem_cons_self
                rw [List.filterMap_append, List.nodup_append]
                refine ⟨hOnce, by simp [hId], ?_⟩
                rintro other hOld _ hLast rfl
                simp only [List.filterMap_cons, hId,
                  List.filterMap_nil, List.mem_singleton]
                  at hLast
                exact hOther (hLast ▸ hOld)
              case fresh =>
                intro other hOther
                simp only [List.filterMap_append, List.mem_append,
                  List.filterMap_cons, hId, List.filterMap_nil,
                  List.mem_singleton] at hOther
                rcases hOther with hOld | rfl
                · rcases hFresh other hOld with ⟨hUnseen, hIn⟩
                  exact ⟨fun hMem =>
                    hUnseen (List.mem_cons_of_mem _ hMem), hIn⟩
                · exact ⟨hNew, hLeft.seen List.mem_cons_self⟩

------------------------------------------------------------
-- Whole Orders
------------------------------------------------------------

/- No name is listed twice. -/
theorem nodup_ids_emitOrder
    (s : Schema)
    (names : EmittedNames) :
    ((s.emitOrder names).filterMap WireType.id?).Nodup := by
  have hAdds := adds_foldl
    (s.adds_visit (s.types.length + 1)) (s.roots names) {}
  rcases hAdds.added with ⟨more, hMore, hOnce, -⟩
  unfold emitOrder
  rw [hMore]
  exact hOnce

/- Declarations of distinct names are distinct. -/
theorem nodup_of_ids
    {ts : List WireType}
    (hNamed : ∀ t ∈ ts, t.id?.isSome = true)
    (hIds : (ts.filterMap WireType.id?).Nodup) : ts.Nodup := by
  rw [List.Nodup, List.pairwise_filterMap] at hIds
  apply hIds.imp_of_mem
  rintro t _ ht - hApart rfl
  rcases Option.isSome_iff_exists.mp (hNamed t ht) with ⟨id, hId⟩
  exact hApart id hId id hId rfl

/- The named declarations, in another order. -/
theorem emitOrder_perm
    (hDistinct : s.names.Nodup)
    (names : EmittedNames) :
    (s.emitOrder names).Perm
      (s.types.filter fun t => t.id?.isSome) := by
  have hNamed : ∀ t ∈ s.types.filter fun t => t.id?.isSome,
      t.id?.isSome = true :=
    fun t ht => (List.mem_filter.mp ht).2
  have hIds :
      ((s.types.filter fun t => t.id?.isSome).filterMap
        WireType.id?).Nodup :=
    hDistinct.sublist
      (List.filter_sublist.filterMap WireType.id?)
  rw [List.perm_ext_iff_of_nodup
    (nodup_of_ids (fun _ ht => (mem_types_of_mem_emitOrder ht).2)
      (nodup_ids_emitOrder s names))
    (nodup_of_ids hNamed hIds)]
  intro t
  rw [mem_emitOrder hDistinct, List.mem_filter]

/- Two names that depend on each other, directly or not. -/
def OnCycle (s : Schema) (a b : TypeName) : Prop :=
  TransGen s.Needs a b ∧ TransGen s.Needs b a

/-
  The order of emission lists every named declaration once.
  A declaration stands before one that it depends on only if
  the two are on a cycle of dependencies.  Where there are no
  cycles, all that a declaration depends on stands before it.
-/
theorem emitOrder_perm_ordered
    (hDistinct : s.names.Nodup)
    (names : EmittedNames) :
    (s.emitOrder names).Perm
        (s.types.filter fun t => t.id?.isSome)
      ∧ (∀ before t between u after id dep,
        s.emitOrder names =
            before ++ t :: (between ++ u :: after) →
          t.id? = some id → u.id? = some dep →
          dep ∈ t.dependencies → s.OnCycle id dep)
      ∧ ((∀ id, ¬TransGen s.Needs id id) →
        ∀ before t after, s.emitOrder names = before ++ t :: after →
          ∀ dep ∈ t.dependencies, dep ∈ s.names →
            dep ∈ before.filterMap WireType.id?) := by
  have hOrdered := s.inOrder_emitOrder names
  refine ⟨emitOrder_perm hDistinct names, ?cycle, ?acyclic⟩
  case cycle =>
    intro before t between u after id dep hSplit hId hDep hNeeds
    have hMem : ∀ w ∈ [t, u], w ∈ s.emitOrder names := by
      rw [hSplit]
      simp
    have ht := mem_types_of_mem_emitOrder (hMem t (by simp))
    have hu := mem_types_of_mem_emitOrder (hMem u (by simp))
    have hName := mem_names_of_id? hu.1 hDep
    refine ⟨.single ⟨t, ht.1, hId, hNeeds, hName⟩, ?_⟩
    rcases hOrdered before t _ id hSplit hId dep hNeeds hName with
      hBefore | hBack
    · -- a name that is listed behind is not listed before
      have hOnce := nodup_ids_emitOrder s names
      rw [hSplit, List.filterMap_append, List.nodup_append]
        at hOnce
      have hBehind : dep ∈
          (t :: (between ++ u :: after)).filterMap
            WireType.id? :=
        List.mem_filterMap.mpr ⟨u, by simp, hDep⟩
      exact absurd rfl (hOnce.2.2 dep hBefore dep hBehind)
    · exact hBack
  case acyclic =>
    intro hAcyclic before t after hSplit dep hNeeds hName
    have hMem : t ∈ s.emitOrder names := by
      rw [hSplit]
      exact List.mem_append_right before List.mem_cons_self
    have ht := mem_types_of_mem_emitOrder hMem
    rcases Option.isSome_iff_exists.mp ht.2 with ⟨id, hId⟩
    rcases hOrdered before t after id hSplit hId dep hNeeds
        hName with hBefore | hBack
    · exact hBefore
    · exact absurd
        (hBack.tail ⟨t, ht.1, hId, hNeeds, hName⟩)
        (hAcyclic dep)

/-
  An order that is on a cycle with its customer, and an item
  that both need.
-/
def shopSchema : Schema :=
  { types :=
      [.record
          { id := { name := "Customer", space := "m" }
            fields :=
              [{ name := "Last"
                 type :=
                   .pointer
                     (.reference { name := "Order", space := "m" })
                 wireName := "last" }] },
        .record
          { id := { name := "Order", space := "m" }
            parents := [{ name := "Customer", space := "m" }]
            fields :=
              [{ name := "Items"
                 type :=
                   .array
                     (.reference { name := "Stock", space := "m" })
                     0
                 wireName := "items" }] },
        .enum { id := { name := "Stock", space := "m" } }] }

/-
  Whichever of the two is listed first depends on the other
  one, so they are on a cycle.
-/
theorem emitOrder_perm_ordered_shop :
    shopSchema.names.Nodup
      ∧ (shopSchema.emitOrder (.ofSchema shopSchema [])).Perm
        shopSchema.types
      ∧ shopSchema.OnCycle { name := "Customer", space := "m" }
        { name := "Order", space := "m" } := by
  have hDistinct : shopSchema.names.Nodup := by decide
  rcases emitOrder_perm_ordered hDistinct
      (.ofSchema shopSchema []) with ⟨hPerm, hCycle, -⟩
  have hCustomer : shopSchema.types[0] ∈
      shopSchema.emitOrder (.ofSchema shopSchema []) :=
    hPerm.mem_iff.mpr List.mem_cons_self
  have hOrder : shopSchema.types[1] ∈
      shopSchema.emitOrder (.ofSchema shopSchema []) :=
    hPerm.mem_iff.mpr
      (List.mem_cons_of_mem _ List.mem_cons_self)
  refine ⟨hDistinct, hPerm, ?_⟩
  rcases List.append_of_mem hCustomer with ⟨before, after, hSplit⟩
  rw [hSplit] at hOrder
  rcases List.mem_append.mp hOrder with hOrder | hOrder
  · rcases List.append_of_mem hOrder with ⟨front, between, rfl⟩
    rw [List.append_assoc, List.cons_append] at hSplit
    exact (hCycle front _ between _ after _ _ hSplit rfl rfl
      (by decide)).symm
  · rcases List.mem_cons.mp hOrder with hSame | hOrder
    · exact absurd (congrArg WireType.id? hSame) (by decide)
    · rcases List.append_of_mem hOrder with ⟨between, last, rfl⟩
      exact hCycle before _ between _ last _ _ hSplit rfl rfl
        (by decide)

end Schema

end WireSchema
