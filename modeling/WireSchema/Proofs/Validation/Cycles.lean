import WireSchema.Proofs.Schema.Paths
import WireSchema.Proofs.Schema.Sorted
import WireSchema.Proofs.Validation.Checks

/-
  Cycles among the parents of records.

  The search goes along parents and leaves a name when all of
  its parents have been followed.  By then each of them has
  been left as well, or it starts a cycle that the search has
  met.  A walk that turns back to its start without a name of
  that kind would go on to names left ever earlier.

  Key definitions include:
    * `Schema.Extends`, `Schema.Turns`
    * `Schema.Settled`, `Schema.Searched`
    * `Schema.circularInheritance_exact`
-/

namespace WireSchema

open Relation

------------------------------------------------------------
-- The Graph of Parents
------------------------------------------------------------

namespace Schema

variable {s : Schema}

/- A record of a name has a parent that is declared. -/
def Extends (s : Schema) (child parent : TypeName) : Prop :=
  ∃ d : RecordDecl WireType,
    .record d ∈ s.types ∧ d.id = child
      ∧ parent ∈ d.parents ∧ parent ∈ s.names

/- A walk along parents that leads from a name back to it. -/
structure Turns
    (s : Schema)
    (start : TypeName)
    (walk : List TypeName) : Prop where
  head : walk.head? = some start
  steps : (walk ++ [start]).IsChain s.Extends

theorem mem_declaredParents
    {child parent : TypeName}
    {t : WireType} :
    parent ∈ declaredParents child t ↔
      ∃ d : RecordDecl WireType,
        t = .record d ∧ d.id = child ∧ parent ∈ d.parents := by
  cases t with
  | record d =>
      by_cases hId : d.id = child
      · simp [declaredParents, hId]
      · simp [declaredParents, hId]
  | _ => simp [declaredParents]

theorem mem_parentsOf {child parent : TypeName} :
    parent ∈ s.parentsOf child ↔ s.Extends child parent := by
  unfold parentsOf Extends
  simp only [List.mem_filter, List.mem_flatMap,
    mem_declaredParents, contains_iff]
  constructor
  · rintro ⟨⟨t, ht, d, rfl, hId, hParent⟩, hName⟩
    exact ⟨d, ht, hId, hParent, hName⟩
  · rintro ⟨d, hd, hId, hParent, hName⟩
    exact ⟨⟨_, hd, d, rfl, hId, hParent⟩, hName⟩

theorem mem_recordNames {id : TypeName} :
    id ∈ s.recordNames ↔
      ∃ d : RecordDecl WireType,
        .record d ∈ s.types ∧ d.id = id := by
  unfold recordNames
  rw [mem_sortNames, List.mem_filterMap]
  constructor
  · rintro ⟨t, ht, hId⟩
    cases t with
    | record d => exact ⟨d, ht, Option.some.inj hId⟩
    | _ => cases hId
  · rintro ⟨d, hd, rfl⟩
    exact ⟨_, hd, rfl⟩

theorem mem_names_of_mem_recordNames
    {id : TypeName}
    (h : id ∈ s.recordNames) : id ∈ s.names := by
  rcases mem_recordNames.mp h with ⟨d, hd, rfl⟩
  exact List.mem_filterMap.mpr ⟨_, hd, rfl⟩

/- What has a parent is the name of a record. -/
theorem Extends.mem_recordNames
    {child parent : TypeName}
    (h : s.Extends child parent) : child ∈ s.recordNames := by
  rcases h with ⟨d, hd, hId, -, -⟩
  exact Schema.mem_recordNames.mpr ⟨d, hd, hId⟩

theorem Extends.mem_names
    {child parent : TypeName}
    (h : s.Extends child parent) : parent ∈ s.names := by
  rcases h with ⟨d, -, -, -, hName⟩
  exact hName

/- A way along parents from a name to itself is a walk. -/
theorem exists_turns_of_transGen
    {start : TypeName}
    (h : TransGen s.Extends start start) :
    ∃ walk, s.Turns start walk := by
  rcases TransGen.tail'_iff.mp h with ⟨last, hWay, hLast⟩
  rcases List.exists_isChain_cons_of_relationReflTransGen hWay
    with ⟨rest, hSteps, hEnd⟩
  refine ⟨start :: rest, rfl, ?_⟩
  refine List.isChain_append.mpr ⟨hSteps, by simp, ?_⟩
  intro child hChild parent hParent
  simp only [List.head?_cons, Option.mem_some] at hParent
  rw [List.getLast?_eq_some_getLast (by simp), hEnd,
    Option.mem_some] at hChild
  rwa [← hChild, ← hParent]

theorem Turns.transGen
    {start : TypeName}
    {walk : List TypeName}
    (h : s.Turns start walk) :
    TransGen s.Extends start start := by
  rcases List.head?_eq_some_iff.mp h.head with ⟨rest, rfl⟩
  exact transGen_of_isChain h.steps

------------------------------------------------------------
-- Searches
------------------------------------------------------------

/- The names at which the cycles met so far start. -/
def CycleSearch.starts (state : CycleSearch) :
    List TypeName :=
  state.cycles.map InheritanceCycle.start

/-
  Of the names that have been left, the last one first: the
  parents of each have been left before it or start a cycle.
-/
def Settled (s : Schema) (starts : List TypeName) :
    List TypeName → Prop
  | [] => True
  | id :: earlier =>
      (∀ parent, s.Extends id parent →
        parent ∈ earlier ∨ parent ∈ starts)
        ∧ Settled s starts earlier

theorem Settled.mono
    {starts more left : List TypeName}
    (h : s.Settled starts left)
    (hMore : starts ⊆ more) : s.Settled more left := by
  induction left with
  | nil => trivial
  | cons id earlier ih =>
      refine ⟨?_, ih h.2⟩
      intro parent hParent
      exact (h.1 parent hParent).imp_right fun hStart =>
        hMore hStart

/-
  A search that has come along a path.  What it has entered is
  on the path or has been left, and its cycles are walks that
  turn.
-/
structure Searched
    (s : Schema)
    (path left : List TypeName)
    (state : CycleSearch) : Prop where
  entered :
    ∀ id, id ∈ state.entered ↔ id ∈ path ∨ id ∈ left
  settled : s.Settled state.starts left
  turns : ∀ c ∈ state.cycles, s.Turns c.start c.walk

/-
  A search that goes on leaves further names, keeps its
  cycles, and settles something of the names it goes to.
-/
def Advances
    (s : Schema)
    (path left : List TypeName)
    (before after : CycleSearch)
    (P : List TypeName → CycleSearch → Prop) : Prop :=
  ∃ more, s.Searched path (more ++ left) after
    ∧ before.starts ⊆ after.starts ∧ P (more ++ left) after

/- What is settled of each name is settled of all of them. -/
theorem advances_foldl
    {path : List TypeName}
    {step : CycleSearch → TypeName → CycleSearch}
    (P : TypeName → List TypeName → CycleSearch → Prop)
    (hMono : ∀ id left more before after, P id left before →
      before.starts ⊆ after.starts → P id (more ++ left) after)
    (ids : List TypeName)
    (hStep : ∀ id ∈ ids, ∀ left state,
      s.Searched path left state →
      s.Advances path left state (step state id) (P id))
    {left : List TypeName}
    {state : CycleSearch}
    (h : s.Searched path left state) :
    s.Advances path left state (ids.foldl step state)
      fun left after => ∀ id ∈ ids, P id left after := by
  induction ids generalizing left state with
  | nil =>
      exact ⟨[], h, List.Subset.refl _, List.forall_mem_nil _⟩
  | cons id rest ih =>
      rw [List.forall_mem_cons] at hStep
      rcases hStep.1 left state h with
        ⟨more, hSearched, hKept, hFirst⟩
      rcases ih hStep.2 hSearched with
        ⟨further, hAfter, hKeptRest, hRest⟩
      rw [← List.append_assoc] at hAfter hRest
      refine ⟨further ++ more, hAfter,
        List.Subset.trans hKept hKeptRest, ?_⟩
      refine List.forall_mem_cons.mpr ⟨?_, hRest⟩
      rw [List.append_assoc]
      exact hMono id _ further _ _ hFirst hKeptRest

/- What the search does with a parent of the last name. -/
def follow
    (s : Schema)
    (depth : Nat)
    (path : List TypeName)
    (state : CycleSearch)
    (parent : TypeName) : CycleSearch :=
  if path.contains parent then
    { state with
      cycles :=
        state.cycles
          ++ [{ start := parent
                walk := path.dropWhile fun n => n != parent }] }
  else s.cyclesFrom depth path state parent

theorem cyclesFrom_succ
    (depth : Nat)
    (path : List TypeName)
    (state : CycleSearch)
    (id : TypeName) :
    s.cyclesFrom (depth + 1) path state id =
      if state.entered.contains id then state
      else
        (s.parentsOf id).foldl (s.follow depth (path ++ [id]))
          { state with entered := id :: state.entered } :=
  rfl

/- The part of a path behind a name on it turns back to it. -/
theorem turns_of_mem
    {path : List TypeName}
    {id parent : TypeName}
    (hSteps : (path ++ [id]).IsChain s.Extends)
    (hMem : parent ∈ path ++ [id])
    (hParent : s.Extends id parent) :
    s.Turns parent
      ((path ++ [id]).dropWhile fun n => n != parent) := by
  constructor
  · generalize path ++ [id] = whole at hMem
    induction whole with
    | nil => cases hMem
    | cons first rest ih =>
        by_cases hFirst : first = parent
        · simp [hFirst]
        · have hRest : parent ∈ rest := by
            simpa [Ne.symm hFirst] using hMem
          simpa [hFirst] using ih hRest
  · rcases List.dropWhile_suffix
      (l := path ++ [id]) (fun n => n != parent) with
      ⟨before, hSplit⟩
    apply (isChain_extend hSteps hParent).suffix
    refine ⟨before, ?_⟩
    rw [← List.append_assoc, hSplit]

/- A name is left once its parents are settled. -/
theorem Searched.leave
    {path left : List TypeName}
    {state : CycleSearch}
    {id : TypeName}
    (h : s.Searched (path ++ [id]) left state)
    (hParents : ∀ parent, s.Extends id parent →
      parent ∈ left ∨ parent ∈ state.starts) :
    s.Searched path (id :: left) state where
  entered := by
    intro other
    rw [h.entered, List.mem_append, List.mem_singleton,
      List.mem_cons, or_assoc]
  settled := ⟨hParents, h.settled⟩
  turns := h.turns

/- A parent on the path starts a cycle. -/
theorem Searched.meet
    {path left : List TypeName}
    {state : CycleSearch}
    {cycle : InheritanceCycle}
    (h : s.Searched path left state)
    (hTurns : s.Turns cycle.start cycle.walk) :
    s.Searched path left
      { state with cycles := state.cycles ++ [cycle] } where
  entered := h.entered
  settled := by
    apply h.settled.mono
    unfold CycleSearch.starts
    rw [List.map_append]
    exact List.subset_append_left ..
  turns := by
    intro c hc
    rcases List.mem_append.mp hc with hc | hc
    · exact h.turns c hc
    · rwa [List.mem_singleton.mp hc]

/-
  A visit leaves its name.  The depth suffices, since a path
  that uses it up would hold more names than are declared.
-/
theorem advances_cyclesFrom
    {depth : Nat}
    {path left : List TypeName}
    {state : CycleSearch}
    {id : TypeName}
    (hPath : s.IsPath s.Extends path)
    (hSteps : (path ++ [id]).IsChain s.Extends)
    (hName : id ∈ s.names)
    (hNew : id ∉ path)
    (hDepth : s.types.length < path.length + depth)
    (h : s.Searched path left state) :
    s.Advances path left state
      (s.cyclesFrom depth path state id)
      fun left _ => id ∈ left := by
  induction depth generalizing path left state id with
  | zero =>
      have hLength := hPath.length_le
      omega
  | succ depth ih =>
      rw [cyclesFrom_succ]
      by_cases hSeen : id ∈ state.entered
      · have hLeft : id ∈ left :=
          ((h.entered id).mp hSeen).resolve_left hNew
        rw [if_pos (by simpa using hSeen)]
        exact ⟨[], h, List.Subset.refl _, hLeft⟩
      · rw [if_neg (by simpa using hSeen)]
        have hLonger := hPath.extend hSteps hName hNew
        have hEntered : s.Searched (path ++ [id]) left
            { state with entered := id :: state.entered } := by
          refine ⟨?_, h.settled, h.turns⟩
          intro other
          simp only [List.mem_cons, h.entered, List.mem_append,
            List.not_mem_nil, or_false]
          tauto
        have hParents : ∀ parent ∈ s.parentsOf id,
            ∀ left state, s.Searched (path ++ [id]) left state →
            s.Advances (path ++ [id]) left state
              (s.follow depth (path ++ [id]) state parent)
              fun left after =>
                parent ∈ left ∨ parent ∈ after.starts := by
          intro parent hParent left state hState
          have hExtends := mem_parentsOf.mp hParent
          unfold follow
          by_cases hMem : parent ∈ path ++ [id]
          · rw [if_pos (by simpa using hMem)]
            refine ⟨[], hState.meet
              (turns_of_mem hSteps hMem hExtends), ?_, .inr ?_⟩
            · unfold CycleSearch.starts
              rw [List.map_append]
              exact List.subset_append_left ..
            · simp [CycleSearch.starts]
          · rw [if_neg (by simpa using hMem)]
            have hLength : s.types.length <
                (path ++ [id]).length + depth := by
              rw [List.length_append, List.length_singleton]
              omega
            rcases ih hLonger (isChain_extend hSteps hExtends)
                hExtends.mem_names hMem hLength hState with
              ⟨more, hAfter, hKept, hLeft⟩
            exact ⟨more, hAfter, hKept, .inl hLeft⟩
        have hMono : ∀ (parent : TypeName)
            (left more : List TypeName)
            (before after : CycleSearch),
            parent ∈ left ∨ parent ∈ before.starts →
            before.starts ⊆ after.starts →
            parent ∈ more ++ left ∨ parent ∈ after.starts := by
          intro parent left more before after hBefore hKept
          rcases hBefore with hLeft | hStart
          · exact .inl (List.mem_append_right _ hLeft)
          · exact .inr (hKept hStart)
        rcases advances_foldl _ hMono _ hParents hEntered with
          ⟨more, hAfter, hKept, hAll⟩
        refine ⟨id :: more, ?_, hKept, List.mem_cons_self⟩
        apply hAfter.leave
        intro parent hParent
        exact hAll parent (mem_parentsOf.mpr hParent)

------------------------------------------------------------
-- Whole Searches
------------------------------------------------------------

/- The search leaves the name of every record. -/
theorem exists_searched (s : Schema) :
    ∃ left state,
      s.inheritanceCycles = state.cycles
        ∧ s.Searched [] left state
        ∧ ∀ id ∈ s.recordNames, id ∈ left := by
  have hStart : s.Searched [] [] {} :=
    ⟨by simp, trivial, by simp⟩
  have hRoot : ∀ id ∈ s.recordNames, ∀ left state,
      s.Searched [] left state →
      s.Advances [] left state
        (s.cyclesFrom (s.types.length + 1) [] state id)
        fun left _ => id ∈ left := by
    intro id hId left state hState
    apply advances_cyclesFrom isPath_nil (by simp)
      (mem_names_of_mem_recordNames hId) (by simp) ?_ hState
    rw [List.length_nil]
    omega
  have hMono : ∀ (id : TypeName) (left more : List TypeName)
      (before after : CycleSearch), id ∈ left →
      before.starts ⊆ after.starts → id ∈ more ++ left := by
    intro id left more _ _ hLeft _
    exact List.mem_append_right _ hLeft
  rcases advances_foldl (fun id left _ => id ∈ left) hMono _
      hRoot hStart with ⟨more, hSearched, -, hLeft⟩
  exact ⟨_, _, rfl, hSearched, hLeft⟩

/-
  A step along parents to a name at which no cycle that was
  met starts.
-/
def QuietStep
    (s : Schema)
    (starts : List TypeName)
    (child parent : TypeName) : Prop :=
  s.Extends child parent ∧ parent ∉ starts

/- Quiet steps go to names that have been left. -/
theorem Settled.mem_of_quiet
    {starts left : List TypeName}
    {first last : TypeName}
    (h : s.Settled starts left)
    (hFirst : first ∈ left)
    (hSteps : ReflTransGen (s.QuietStep starts) first last) :
    last ∈ left := by
  have hStep : ∀ child parent, child ∈ left →
      s.QuietStep starts child parent → parent ∈ left := by
    intro child parent hChild hQuiet
    clear hSteps hFirst
    induction left with
    | nil => cases hChild
    | cons id earlier ih =>
        rcases List.mem_cons.mp hChild with rfl | hChild
        · have hParent :=
            (h.1 parent hQuiet.1).resolve_right hQuiet.2
          exact List.mem_cons_of_mem _ hParent
        · exact List.mem_cons_of_mem _ (ih h.2 hChild)
  induction hSteps with
  | refl => exact hFirst
  | tail _ hLast ih => exact hStep _ _ ih hLast

/-
  Quiet steps never lead back: each one goes to a name that
  has been left earlier.
-/
theorem Settled.not_transGen
    {starts left : List TypeName}
    {id : TypeName}
    (h : s.Settled starts left)
    (hId : id ∈ left) :
    ¬TransGen (s.QuietStep starts) id id := by
  induction left generalizing id with
  | nil => cases hId
  | cons last earlier ih =>
      intro hTurn
      apply ih h.2 ?_ hTurn
      rcases List.mem_cons.mp hId with rfl | hEarlier
      · rcases TransGen.head'_iff.mp hTurn with
          ⟨next, hNext, hBack⟩
        have hLeft :=
          (h.1 next hNext.1).resolve_right hNext.2
        exact h.2.mem_of_quiet hLeft hBack
      · exact hEarlier

/- On every walk that turns there is the start of a cycle. -/
theorem exists_start_of_turns
    {left : List TypeName}
    {state : CycleSearch}
    {start : TypeName}
    {walk : List TypeName}
    (hSearched : s.Searched [] left state)
    (hLeft : ∀ id ∈ s.recordNames, id ∈ left)
    (h : s.Turns start walk) :
    ∃ id ∈ walk, id ∈ state.starts := by
  by_contra hNone
  rcases List.head?_eq_some_iff.mp h.head with ⟨rest, rfl⟩
  have hQuiet :
      (start :: (rest ++ [start])).IsChain
        (s.QuietStep state.starts) := by
    refine h.steps.imp_of_mem_imp ?_
    intro child parent _ hParent hExtends
    refine ⟨hExtends, ?_⟩
    intro hStart
    apply hNone
    refine ⟨parent, ?_, hStart⟩
    simpa [or_comm] using hParent
  have hTurn := transGen_of_isChain hQuiet
  have hRecord : start ∈ s.recordNames := by
    rcases TransGen.head'_iff.mp hTurn with ⟨next, hNext, -⟩
    exact hNext.1.mem_recordNames
  exact hSearched.settled.not_transGen (hLeft start hRecord)
    hTurn

------------------------------------------------------------
-- Violations
------------------------------------------------------------

/- Cycles are what the check of inheritance alone reports. -/
theorem mem_circularInheritance_iff {x : Violation} :
    x ∈ s.circularInheritance ↔
      x ∈ s.validate ∧ x.code = "circular_inheritance" := by
  constructor
  · intro hx
    refine ⟨?_, code_of_mem_circularInheritance hx⟩
    unfold validate
    simp only [List.mem_append]
    tauto
  · rintro ⟨hx, hCode⟩
    unfold validate at hx
    simp only [List.mem_append] at hx
    rcases hx with (((((hx | hx) | hx) | hx) | hx) | hx) | hx
    · rw [code_of_mem_duplicateTypes hx] at hCode
      exact absurd hCode (by decide)
    · rw [code_of_mem_encodingFaults hx] at hCode
      exact absurd hCode (by decide)
    · rw [code_of_mem_unknownParents hx] at hCode
      exact absurd hCode (by decide)
    · exact hx
    · rw [code_of_mem_danglingReferences hx] at hCode
      exact absurd hCode (by decide)
    · have hCodes := code_of_mem_serviceFaults hx
      rw [hCode] at hCodes
      simp at hCodes
    · rw [code_of_mem_unionFaults hx] at hCode
      exact absurd hCode (by decide)

/-
  Every walk along parents that turns back to its start holds
  a name that a violation is reported for.  Every violation of
  this kind shows a walk that turns back to the name it is
  reported for.  So none is reported exactly when no name is
  among its own ancestors.
-/
theorem circularInheritance_exact (s : Schema) :
    (∀ start walk, s.Turns start walk →
      ∃ id ∈ walk, ∃ x ∈ s.validate,
        x.code = "circular_inheritance" ∧ x.owner? = some id)
      ∧ (∀ x ∈ s.validate, x.code = "circular_inheritance" →
        ∃ start walk, s.Turns start walk
          ∧ x.owner? = some start
          ∧ x.message =
            "circular inheritance: "
              ++ Text.joinWith " -> "
                ((walk ++ [start]).map TypeName.name))
      ∧ ((∀ x ∈ s.validate, x.code ≠ "circular_inheritance")
        ↔ ∀ id, ¬TransGen s.Extends id id) := by
  rcases s.exists_searched with
    ⟨left, state, hCycles, hSearched, hLeft⟩
  have hFound : ∀ start walk, s.Turns start walk →
      ∃ id ∈ walk, ∃ x ∈ s.circularInheritance,
        x.owner? = some id := by
    intro start walk hTurns
    rcases exists_start_of_turns hSearched hLeft hTurns with
      ⟨id, hId, hStart⟩
    rcases List.mem_map.mp hStart with ⟨c, hc, hSame⟩
    refine ⟨id, hId, .circularInheritance c.start c.walk, ?_,
      congrArg some hSame⟩
    unfold circularInheritance
    rw [hCycles]
    exact List.mem_map_of_mem hc
  have hShown : ∀ x ∈ s.circularInheritance,
      ∃ start walk, s.Turns start walk
        ∧ x = .circularInheritance start walk := by
    intro x hx
    unfold circularInheritance at hx
    rw [hCycles] at hx
    rcases List.mem_map.mp hx with ⟨c, hc, rfl⟩
    exact ⟨c.start, c.walk, hSearched.turns c hc, rfl⟩
  refine ⟨?found, ?shown, ?none⟩
  case found =>
    intro start walk hTurns
    rcases hFound start walk hTurns with ⟨id, hId, x, hx, hOwner⟩
    rw [mem_circularInheritance_iff] at hx
    exact ⟨id, hId, x, hx.1, hx.2, hOwner⟩
  case shown =>
    intro x hx hCode
    rcases hShown x (mem_circularInheritance_iff.mpr ⟨hx, hCode⟩)
      with ⟨start, walk, hTurns, rfl⟩
    exact ⟨start, walk, hTurns, rfl, rfl⟩
  case none =>
    constructor
    · intro hNone id hTurn
      rcases exists_turns_of_transGen hTurn with ⟨walk, hTurns⟩
      rcases hFound id walk hTurns with ⟨_, -, x, hx, -⟩
      rw [mem_circularInheritance_iff] at hx
      exact hNone x hx.1 hx.2
    · intro hNone x hx hCode
      rcases hShown x
        (mem_circularInheritance_iff.mpr ⟨hx, hCode⟩) with
        ⟨start, walk, hTurns, -⟩
      exact hNone start hTurns.transGen

end Schema

end WireSchema
