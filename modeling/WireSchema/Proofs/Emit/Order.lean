import WireSchema.Emit.Order
import WireSchema.Proofs.Schema.Plain
import WireSchema.Proofs.Schema.Sorted

/-
  The order in which declarations are emitted.

  A search finishes exactly what it sees, and it sees every
  root.  So each declaration of a schema is emitted, and
  nothing else.

  Key definitions include:
    * `Schema.Explores`
    * `Schema.mem_emitOrder`
-/

namespace WireSchema

namespace Schema

variable {s : Schema}
variable {before middle after : Search}

------------------------------------------------------------
-- Declarations by Name
------------------------------------------------------------

theorem id?_of_findLast?
    {id : TypeName}
    {t : WireType}
    (h : s.findLast? id = some t) :
    t ∈ s.types ∧ t.id? = some id := by
  unfold findLast? at h
  refine ⟨?_, ?_⟩
  · exact List.mem_reverse.mp (List.mem_of_find?_eq_some h)
  · simpa using List.find?_some h

/- A declared name has a last declaration. -/
theorem exists_findLast?
    {id : TypeName}
    (h : id ∈ s.names) : ∃ t, s.findLast? id = some t := by
  unfold names at h
  rcases List.mem_filterMap.mp h with ⟨t, ht, hId⟩
  unfold findLast?
  rw [← Option.isSome_iff_exists, List.find?_isSome]
  exact ⟨t, List.mem_reverse.mpr ht, by simp [hId]⟩

------------------------------------------------------------
-- Searches
------------------------------------------------------------

/-
  A search that goes on keeps what it has.  It only finishes
  declarations, and all that it sees on the way.
-/
structure Explores
    (s : Schema)
    (before after : Search) : Prop where
  seen : before.seen ⊆ after.seen
  kept : before.finished <+: after.finished
  declared :
    ∀ t ∈ after.finished,
      t ∈ before.finished
        ∨ (t ∈ s.types ∧ t.id?.isSome = true)
  fresh :
    ∀ id ∈ after.seen,
      id ∈ before.seen ∨ some id ∈ after.finished.map WireType.id?

theorem explores_refl (state : Search) :
    s.Explores state state where
  seen := List.Subset.refl _
  kept := List.prefix_refl _
  declared := fun _ h => .inl h
  fresh := fun _ h => .inl h

theorem Explores.trans
    (h : s.Explores before middle)
    (hNext : s.Explores middle after) :
    s.Explores before after where
  seen := List.Subset.trans h.seen hNext.seen
  kept := h.kept.trans hNext.kept
  declared := by
    intro t ht
    rcases hNext.declared t ht with ht | ht
    · exact h.declared t ht
    · exact .inr ht
  fresh := by
    intro id hId
    rcases hNext.fresh id hId with hId | hId
    · rcases h.fresh id hId with hId | hId
      · exact .inl hId
      · exact .inr ((hNext.kept.map _).subset hId)
    · exact .inr hId

/- A search that goes on at each of some names. -/
theorem explores_foldl
    {step : Search → TypeName → Search}
    (hStep : ∀ state id, s.Explores state (step state id))
    (ids : List TypeName)
    (state : Search) :
    s.Explores state (ids.foldl step state) := by
  induction ids generalizing state with
  | nil => exact explores_refl state
  | cons id rest ih => exact (hStep state id).trans (ih _)

theorem explores_visit
    (depth : Nat)
    (state : Search)
    (id : TypeName) :
    s.Explores state (s.visit depth state id) := by
  induction depth generalizing state id with
  | zero => exact explores_refl state
  | succ depth ih =>
      unfold visit
      split
      · exact explores_refl state
      · split
        · exact explores_refl state
        · next t hFound =>
            have hDecl := id?_of_findLast? hFound
            dsimp only
            have hLeft := explores_foldl ih t.dependencies
              { state with seen := id :: state.seen }
            refine ⟨?seen, ?kept, ?declared, ?fresh⟩
            case seen =>
              exact List.Subset.trans
                (List.subset_cons_self id state.seen) hLeft.seen
            case kept =>
              exact hLeft.kept.trans (List.prefix_append _ _)
            case declared =>
              intro u hu
              rcases List.mem_append.mp hu with hu | hu
              · exact hLeft.declared u hu
              · rw [List.mem_singleton.mp hu]
                exact .inr ⟨hDecl.1, by simp [hDecl.2]⟩
            case fresh =>
              intro other hOther
              rw [List.map_append, List.mem_append]
              rcases hLeft.fresh other hOther with hOld | hNew
              · rcases List.mem_cons.mp hOld with rfl | hOld
                · right
                  right
                  simp [hDecl.2]
                · exact .inl hOld
              · exact .inr (.inl hNew)

/- A declared name that is visited has been seen. -/
theorem mem_seen_visit
    {id : TypeName}
    (hId : id ∈ s.names)
    (depth : Nat)
    (state : Search) :
    id ∈ (s.visit (depth + 1) state id).seen := by
  rcases exists_findLast? hId with ⟨t, hFound⟩
  unfold visit
  split
  · next hSeen => simpa using hSeen
  · rw [hFound]
    have hLeft := explores_foldl (s.explores_visit depth)
      t.dependencies { state with seen := id :: state.seen }
    exact hLeft.seen List.mem_cons_self

/- Every declared name among the roots is seen. -/
theorem mem_seen_foldl
    {id : TypeName}
    {ids : List TypeName}
    (hId : id ∈ s.names)
    (hRoot : id ∈ ids)
    (depth : Nat)
    (state : Search) :
    id ∈ (ids.foldl (s.visit (depth + 1)) state).seen := by
  induction ids generalizing state with
  | nil => cases hRoot
  | cons first rest ih =>
      rw [List.foldl_cons]
      rcases List.mem_cons.mp hRoot with rfl | hRoot
      · exact (explores_foldl (s.explores_visit (depth + 1)) rest
          _).seen (mem_seen_visit hId depth state)
      · exact ih hRoot _

------------------------------------------------------------
-- Orders
------------------------------------------------------------

theorem mem_roots
    {names : EmittedNames}
    {id : TypeName} :
    id ∈ s.roots names ↔ id ∈ s.names := by
  unfold roots
  rw [(perm_sortUpTo _ _).mem_iff, mem_sortNames]

/- What is emitted is declared. -/
theorem mem_types_of_mem_emitOrder
    {names : EmittedNames}
    {t : WireType}
    (h : t ∈ s.emitOrder names) :
    t ∈ s.types ∧ t.id?.isSome = true := by
  unfold emitOrder at h
  have hSearch := explores_foldl
    (s.explores_visit (s.types.length + 1)) (s.roots names) {}
  rcases hSearch.declared t h with h | h
  · cases h
  · exact h

/- What the order names is what the schema declares. -/
theorem mem_ids_emitOrder
    {names : EmittedNames}
    {id : TypeName} :
    id ∈ (s.emitOrder names).filterMap WireType.id? ↔
      id ∈ s.names := by
  constructor
  · intro hId
    rcases List.mem_filterMap.mp hId with ⟨t, ht, hId⟩
    exact mem_names_of_id? (mem_types_of_mem_emitOrder ht).1 hId
  · intro hId
    have hSearch := explores_foldl
      (s.explores_visit (s.types.length + 1)) (s.roots names) {}
    have hSeen := mem_seen_foldl hId
      (mem_roots.mpr hId : id ∈ s.roots names) s.types.length {}
    rcases hSearch.fresh id hSeen with hNone | hFinished
    · cases hNone
    · exact List.mem_filterMap.mpr (List.mem_map.mp hFinished)

/- All declarations of a schema are emitted. -/
theorem mem_emitOrder
    {names : EmittedNames}
    {t : WireType}
    (hDistinct : s.names.Nodup) :
    t ∈ s.emitOrder names ↔
      t ∈ s.types ∧ t.id?.isSome = true := by
  constructor
  · exact mem_types_of_mem_emitOrder
  · rintro ⟨ht, hSome⟩
    rcases Option.isSome_iff_exists.mp hSome with ⟨id, hId⟩
    have hName := mem_names_of_id? ht hId
    rcases List.mem_filterMap.mp (mem_ids_emitOrder.mpr hName)
      with ⟨u, hu, hIdU⟩
    have hDecl := mem_types_of_mem_emitOrder hu
    rw [eq_of_id?_eq hDistinct ht hDecl.1 hId hIdU]
    exact hu

end Schema

end WireSchema
