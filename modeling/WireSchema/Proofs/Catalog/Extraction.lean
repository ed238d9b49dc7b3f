import WireSchema.Catalog.Extraction
import WireSchema.Proofs.Extraction.Lowering

/-
  Schemas extracted from catalogs are complete.

  Items that have been in the queue of a walk are names the
  catalog reports, each one declared by a name that stands for
  it alone.  So there are no more of them than entries.

  Key definitions include:
    * `Catalog.Claimed`
    * `Catalog.Ready`
    * `Catalog.requests`
    * `Catalog.Reaches`
-/

namespace WireSchema.Catalog

open Walk

variable {c : Catalog}
variable {known : WellKnown}
variable {spent : List ReportedName}
variable {pending : List TypeName}
variable {x y : Walk ReportedName Unit}

/- Every fault but one: the bound on declarations suffices. -/
abbrev Finishes (e : ExtractionFault) : Prop :=
  e ≠ .unfinished

------------------------------------------------------------
-- Claimed Names
------------------------------------------------------------

/-
  What is known of the items in the queue and of those that
  have left it, which are spent.
-/
structure Claimed
    (c : Catalog)
    (spent : List ReportedName)
    (x : Walk ReportedName Unit) : Prop where
  reported :
    ∀ n ∈ spent ++ x.queue, (c.find? n.space n.name).isSome
  claimed :
    ∀ n ∈ spent ++ x.queue, x.claims.lookup n.id = some n
  taken : ∀ n ∈ spent ++ x.queue, n.id ∈ x.taken
  distinct : ((spent ++ x.queue).map ReportedName.id).Nodup

theorem claimed_init : Claimed c [] { memory := () } where
  reported := by simp
  claimed := by simp
  taken := by simp
  distinct := by simp

/- Only the queue, the claims and the names have a part. -/
theorem Claimed.congr
    (h : Claimed c spent x)
    (hQueue : y.queue = x.queue)
    (hClaims : y.claims = x.claims)
    (hTaken : x.taken ⊆ y.taken) : Claimed c spent y where
  reported := by rw [hQueue]; exact h.reported
  claimed := by rw [hQueue, hClaims]; exact h.claimed
  taken := by
    rw [hQueue]
    intro n hn
    exact hTaken (h.taken n hn)
  distinct := by rw [hQueue]; exact h.distinct

/- A new claim leaves the claims of other names alone. -/
theorem Claimed.claim
    {n : ReportedName}
    (h : Claimed c spent x)
    (hNew : x.claims.lookup n.id = none) :
    Claimed c spent
      { x with claims := (n.id, n) :: x.claims } where
  reported := h.reported
  claimed := by
    intro m hm
    have hOld := h.claimed m hm
    have hOther : m.id ≠ n.id := by
      intro hSame
      rw [hSame, hNew] at hOld
      cases hOld
    simp only [List.lookup_cons, beq_false_of_ne hOther]
    exact hOld
  taken := h.taken
  distinct := h.distinct

/- An item joins the queue when its name has been free. -/
theorem Claimed.enqueue
    {n : ReportedName}
    (h : Claimed c spent x)
    (hFound : (c.find? n.space n.name).isSome)
    (hOwn : x.claims.lookup n.id = some n)
    (hFree : n.id ∉ x.taken) :
    Claimed c spent
      { x with
        taken := n.id :: x.taken
        queue := x.queue ++ [n] } where
  reported := by
    intro m hm
    rw [← List.append_assoc, List.mem_append,
      List.mem_singleton] at hm
    rcases hm with hm | rfl
    · exact h.reported m hm
    · exact hFound
  claimed := by
    intro m hm
    rw [← List.append_assoc, List.mem_append,
      List.mem_singleton] at hm
    rcases hm with hm | rfl
    · exact h.claimed m hm
    · exact hOwn
  taken := by
    intro m hm
    rw [← List.append_assoc, List.mem_append,
      List.mem_singleton] at hm
    rcases hm with hm | rfl
    · exact List.mem_cons_of_mem _ (h.taken m hm)
    · exact List.mem_cons_self
  distinct := by
    rw [← List.append_assoc, List.map_append,
      List.nodup_append]
    refine ⟨h.distinct, by simp, ?_⟩
    intro id hId id' hId' hSame
    rw [List.map_singleton, List.mem_singleton] at hId'
    rcases List.mem_map.mp hId with ⟨m, hm, rfl⟩
    apply hFree
    rw [← hId', ← hSame]
    exact h.taken m hm

/- An item that leaves the queue is spent. -/
theorem Claimed.dequeue
    {n : ReportedName}
    {rest : List ReportedName}
    (h : Claimed c spent x)
    (hQueue : x.queue = n :: rest) :
    Claimed c (spent ++ [n]) { x with queue := rest } := by
  have hSame : (spent ++ [n]) ++ rest = spent ++ x.queue := by
    simp [hQueue]
  constructor
  · rw [hSame]; exact h.reported
  · rw [hSame]; exact h.claimed
  · rw [hSame]; exact h.taken
  · rw [hSame]; exact h.distinct

/- What the catalog finds is one of its entries. -/
theorem mem_entries_of_find?
    {n : ReportedName}
    (h : (c.find? n.space n.name).isSome) :
    n ∈ c.entries.map fun e => ⟨e.space, e.name⟩ := by
  rcases Option.isSome_iff_exists.mp h with ⟨e, he⟩
  have hMem : e ∈ c.entries := List.mem_of_find?_eq_some he
  have hName := List.find?_some he
  simp only [Bool.and_eq_true, beq_iff_eq] at hName
  rw [List.mem_map]
  exact ⟨e, hMem, by rw [hName.1, hName.2]⟩

/- No more items get into the queue than there are entries. -/
theorem Claimed.length_le (h : Claimed c spent x) :
    spent.length + x.queue.length ≤ c.entries.length := by
  have hWithin :
      spent ++ x.queue ⊆
        c.entries.map fun e => ⟨e.space, e.name⟩ := by
    intro n hn
    exact mem_entries_of_find? (h.reported n hn)
  have hLength := h.distinct.length_le_of_subset
    (List.map_subset ReportedName.id hWithin)
  simpa using hLength

------------------------------------------------------------
-- Ready States
------------------------------------------------------------

/-
  A sound walk with its names claimed.  Declarations have no
  parameters and therefore no bounds.
-/
structure Ready
    (c : Catalog)
    (spent : List ReportedName)
    (pending : List TypeName)
    (x : Walk ReportedName Unit) : Prop where
  sound :
    Sound ReportedName.id (fun _ => False) pending x
  claimed : Claimed c spent x

theorem ready_init (c : Catalog) :
    Ready c [] [] { memory := () } :=
  ⟨sound_init (), claimed_init⟩

theorem stable_ready :
    Stable ReportedName.id (fun _ => False)
      (Ready c spent) where
  sound h := h.sound
  take h hFree :=
    ⟨h.sound.take hFree,
      h.claimed.congr rfl rfl (List.subset_cons_self ..)⟩
  schema h hSound :=
    ⟨hSound, h.claimed.congr rfl rfl (List.Subset.refl _)⟩

/- A reported name that is asked for will be declared. -/
theorem lowers_enqueue
    {n : ReportedName}
    (hFound : (c.find? n.space n.name).isSome) :
    Lowers Finishes (Ready c spent)
      (fun names id => id = n.id ∧ id ∈ names) n.enqueue := by
  intro pending x hx
  have hQueued : ∀ y : Walk ReportedName Unit,
      Ready c spent pending y → x.Within y →
      y.claims.lookup n.id = some n →
      Yields Finishes
        (do Walk.enqueue n.id n; pure n.id) y
        fun id z => Ready c spent pending z
          ∧ x.Within z ∧ id = n.id ∧ id ∈ z.taken := by
    intro y hy hxy hOwn
    apply yields_bind
    apply yields_enqueue
    · intro hId
      exact yields_pure ⟨hy, hxy, rfl, hId⟩
    · intro hFree
      have hEnqueued :=
        hy.claimed.enqueue hFound hOwn hFree
      apply yields_pure
      exact ⟨⟨hy.sound.enqueue hFree, hEnqueued⟩,
        hxy.trans (within_enqueue y n.id n), rfl,
        List.mem_cons_self⟩
  apply yields_bind
  apply yields_claim
  · intro first hLookup hSame
    rw [beq_iff_eq] at hSame
    exact hQueued x hx (.refl x) (by rw [hLookup, hSame])
  · intro hNew
    apply hQueued
    · exact ⟨hx.sound.congr rfl rfl rfl, hx.claimed.claim hNew⟩
    · exact within_claim x n.id n
    · simp
  · intro first _ _
    simp [Finishes]

------------------------------------------------------------
-- Shapes
------------------------------------------------------------

theorem lowers_named (space name : String) :
    Lowers Finishes (Ready c spent) WireType.IsPlainOver
      (c.lowerNamed known space name) := by
  unfold lowerNamed
  split
  · next t hKnown =>
      apply lowers_pure
      intro names
      exact WireType.isPlainOver_of_find? hKnown
  · split
    · apply lowers_note stable_ready
      apply lowers_pure
      simp
    · next e hFound =>
        apply (lowers_enqueue (n := ⟨space, name⟩)
          (by simp [hFound])).map
        rintro names id ⟨-, hId⟩
        simpa using hId

/-
  Shapes are lowered to types over taken names, and structs
  to members over them.
-/
theorem lowers_shapes (space : String) :
    (∀ hint t,
      Lowers Finishes (Ready c spent) WireType.IsPlainOver
        (c.lower known space hint t))
      ∧ (∀ owner fs,
        Lowers Finishes (Ready c spent) Members.IsPlainOver
          (c.lowerFields known space owner fs))
      ∧ (∀ owner f,
        Lowers Finishes (Ready c spent) Members.IsPlainOver
          (c.lowerField known space owner f)) := by
  refine lower.mutual_induct c known space _ _ _
    ?bool ?int ?uint ?float ?string ?interface ?bytes ?slice
    ?array ?map ?pointer ?empty ?struct ?named ?unsupported
    ?noField ?field ?skipped ?embedded ?plain
  case bool | int | uint | float | string | interface
      | bytes | empty =>
    intros
    unfold lower
    exact lowers_pure (by simp)
  case slice =>
    intro hint elem hNotByte hElem
    rw [lower.eq_8 c known space hint elem hNotByte]
    exact hElem.map (by simp)
  case array =>
    intro hint len elem hElem
    unfold lower
    exact hElem.map (by simp)
  case map =>
    intro hint key value hKey hValue
    unfold lower
    exact lowers_map hKey hValue
  case pointer =>
    intro hint elem hElem
    unfold lower
    exact hElem.map (by simp)
  case struct =>
    intro hint f rest id hFields
    unfold lower
    exact lowers_struct stable_ready hFields
  case named =>
    intro hint package name
    unfold lower
    exact lowers_named package name
  case unsupported =>
    intro hint
    unfold lower
    apply lowers_note stable_ready
    exact lowers_pure (by simp)
  case noField =>
    intro owner
    unfold lowerFields
    exact lowers_noMembers
  case field =>
    intro owner f rest hFirst hMore
    unfold lowerFields
    exact lowers_append hFirst hMore
  case skipped =>
    intro owner name type tag embedded facts hSkip
    unfold lowerField
    rw [if_pos hSkip]
    exact lowers_noMembers
  case embedded =>
    intro owner name type tag embedded facts hKept hParent
      hOwn hType
    unfold lowerField
    rw [if_neg hKept, if_pos hParent]
    apply lowers_embedded hType
    split
    · exact lowers_tagged hOwn name facts {}
    · exact lowers_noMembers
  case plain =>
    intro owner name type tag embedded facts hKept hParent hOwn
    unfold lowerField
    rw [if_neg hKept, if_neg hParent]
    apply lowers_noParentOr
    split
    · exact lowers_tagged hOwn name facts {}
    · exact lowers_noMembers

------------------------------------------------------------
-- Requests
------------------------------------------------------------

/- What a walk asks for before it declares anything. -/
def requests
    (c : Catalog)
    (known : WellKnown)
    (r : ExtractionRequest) : CatalogStep Unit := do
  r.scope.forM c.requireSpace
  r.roots.forM (c.require known)

theorem walk_eq (r : ExtractionRequest) :
    c.walk known r =
      (do
        c.requests known r
        drain (c.declareName known) c.entries.length) := by
  unfold walk requests
  rw [bind_assoc]

/- An entry of the catalog is found by its names. -/
theorem isSome_find?_of_mem
    {e : CatalogEntry}
    (h : e ∈ c.entries) :
    (c.find? e.space e.name).isSome := by
  unfold find?
  rw [List.find?_isSome]
  exact ⟨e, h, by simp⟩

theorem lowers_requireSpace (space : String) :
    Lowers Finishes (Ready c spent) (fun _ _ => True)
      (c.requireSpace space) := by
  unfold requireSpace
  dsimp only
  split
  · exact lowers_fault (by simp [Finishes])
  · have hEach :
        ∀ e ∈ c.entries.filter fun e => e.space == space,
          Lowers Finishes (Ready c spent) (fun _ _ => True)
            (do
              let _ ← ReportedName.enqueue ⟨e.space, e.name⟩) := by
      intro e he
      have hFound :=
        isSome_find?_of_mem (List.mem_filter.mp he).1
      apply (lowers_enqueue hFound).bind
      intro id
      exact lowers_pure (by simp)
    exact lowers_each hEach

/- The names that a root asks for. -/
def asked (known : WellKnown) : TypeExpr → List TypeName
  | .named space name args =>
      if (known.find? space name).isSome then []
      else [catalogName space (reportedName name args)]
  | .pointer elem => asked known elem
  | .slice elem => asked known elem
  | .array _ elem => asked known elem
  | .map key value => asked known key ++ asked known value
  | .builtin _ => []
  | .param _ => []

theorem lowers_require (t : TypeExpr) :
    Lowers Finishes (Ready c spent)
      (fun names _ => asked known t ⊆ names)
      (c.require known t) := by
  fun_induction asked known t with
  | case1 space name args hKnown =>
      unfold require
      rw [if_pos hKnown]
      exact lowers_pure (by simp)
  | case2 space name args hKnown =>
      unfold require
      rw [if_neg hKnown]
      dsimp only
      split
      · exact lowers_fault (by simp [Finishes])
      · next e hFound =>
          apply (lowers_enqueue
            (n := ⟨space, reportedName name args⟩)
            (by simp [hFound])).map
          rintro names id ⟨rfl, hId⟩
          rw [List.cons_subset]
          exact ⟨hId, List.nil_subset _⟩
  | case3 elem hElem => exact hElem
  | case4 elem hElem => exact hElem
  | case5 len elem hElem => exact hElem
  | case6 key value hKey hValue =>
      intro pending x hx
      apply yields_bind
      apply (hKey pending x hx).imp
      rintro _ y ⟨hy, hxy, hAsked⟩
      apply (hValue pending y hy).imp
      rintro _ z ⟨hz, hyz, hMore⟩
      refine ⟨hz, hxy.trans hyz, ?_⟩
      exact List.append_subset.mpr
        ⟨List.Subset.trans hAsked hyz.taken, hMore⟩
  | case7 name => exact lowers_pure (by simp)
  | case8 name => exact lowers_fault (by simp [Finishes])

/- All that roots ask for will be declared. -/
theorem lowers_requests
    (c : Catalog)
    (known : WellKnown)
    (r : ExtractionRequest) :
    Lowers Finishes (Ready c spent)
      (fun names _ => ∀ t ∈ r.roots, asked known t ⊆ names)
      (c.requests known r) := by
  have hScope :
      Lowers Finishes (Ready c spent) (fun _ _ => True)
        (r.scope.forM c.requireSpace) :=
    lowers_each fun space _ => lowers_requireSpace space
  apply hScope.bind
  intro _
  apply lowers_forM (fun t names => asked known t ⊆ names)
  · intro t names more hAsked hMore
    exact List.Subset.trans hAsked hMore
  · intro t _
    exact lowers_require t

------------------------------------------------------------
-- Declarations
------------------------------------------------------------

/- An item is declared by the name that is pending for it. -/
theorem yields_declareName
    {n : ReportedName}
    (hx : Ready c spent [n.id] x) :
    Yields Finishes (c.declareName known n) x fun _ y =>
      Ready c spent [] y ∧ x.Within y := by
  unfold declareName
  split
  · exact yields_fault (by simp [Finishes])
  · next e hFound =>
      have hName := List.find?_some hFound
      simp only [Bool.and_eq_true, beq_iff_eq] at hName
      have hId : catalogName e.space e.name = n.id := by
        rw [hName.1, hName.2]
        rfl
      have hShapes := @lowers_shapes c known spent e.space
      unfold declareEntry
      simp only [hId]
      split
      · next fields hShape =>
          apply yields_bind
          apply (hShapes.2.1 n.id fields _ x hx).imp
          rintro ⟨fields, parents⟩ y ⟨hy, hxy, hGood⟩
          have hRecord :
              (WireType.record
                { id := n.id, fields, parents }).IsDeclOver
                  (fun _ => False) y.taken :=
            WireType.isDeclOver_record boundsOver_nil hGood
          exact yields_declareOver stable_ready hy hxy rfl hRecord
      · apply yields_bind
        apply (hShapes.1 n.id.name e.shape _ x hx).imp
        rintro target y ⟨hy, hxy, hGood⟩
        have hDeclared :
            ∀ schema, Ready c spent [n.id] { y with schema } →
              x.Within { y with schema } →
              Yields Finishes
                (declare (.synonym { id := n.id, target }))
                { y with schema } fun _ z =>
                  Ready c spent [] z ∧ x.Within z := by
          intro schema hReady hWithin
          have hSynonym :
              (WireType.synonym
                { id := n.id, target }).IsDeclOver
                  (fun _ => False) y.taken :=
            WireType.isDeclOver_synonym boundsOver_nil hGood
          exact yields_declareOver stable_ready hReady hWithin
            rfl hSynonym
        split
        · apply yields_bind
          apply yields_note hy.sound
          intro schema hSound hWithin
          exact hDeclared schema (stable_ready.schema hy hSound)
            (hxy.trans hWithin)
        · exact hDeclared y.schema hy hxy

------------------------------------------------------------
-- Runs
------------------------------------------------------------

/-
  The run of a request comes to a state between two
  declarations, with the items it has declared by then.
-/
def Reaches
    (c : Catalog)
    (known : WellKnown)
    (r : ExtractionRequest)
    (spent : List ReportedName)
    (y : Walk ReportedName Unit) : Prop :=
  ∃ x, (c.requests known r).run { memory := () } = .ok ((), x)
    ∧ Drains (c.declareName known) x spent y

/- Every state that is reached is ready. -/
theorem ready_of_reaches
    {r : ExtractionRequest}
    (h : c.Reaches known r spent y) :
    Ready c spent [] y := by
  rcases h with ⟨x, hRequests, hDrains⟩
  induction hDrains with
  | start =>
      have hStart :=
        lowers_requests c known r [] _ (ready_init c)
      exact (hStart.of_run_ok hRequests).1
  | step hReached hQueue hRun ih =>
      have hPopped : Ready c _ [_] _ :=
        ⟨ih.sound.dequeue hQueue, ih.claimed.dequeue hQueue⟩
      exact ((yields_declareName hPopped).of_run_ok hRun).1

/-
  A whole run ends with an empty queue, and never for want of
  a larger bound.  What the roots ask for is declared.
-/
theorem yields_walk (r : ExtractionRequest) :
    Yields Finishes (c.walk known r) { memory := () }
      fun _ y => y.queue = []
        ∧ (∀ t ∈ r.roots, asked known t ⊆ y.taken)
        ∧ ∃ spent, c.Reaches known r spent y := by
  rw [walk_eq]
  apply yields_bind
  apply (lowers_requests c known r [] _
    (ready_init c)).with_run.imp
  rintro _ x ⟨hRequests, hx, -, hAsked⟩
  let Inv := fun (n : Nat) (y : Walk ReportedName Unit) =>
    x.Within y
      ∧ ∃ spent, Drains (c.declareName known) x spent y
        ∧ spent.length + n = c.entries.length
  have hReady : ∀ {spent y},
      Drains (c.declareName known) x spent y →
      Ready c spent [] y := by
    intro spent y hDrains
    exact ready_of_reaches ⟨x, hRequests, hDrains⟩
  have hStart : Inv c.entries.length x :=
    ⟨.refl x, [], .start, by simp⟩
  refine (yields_drain Inv ?_ ?_ _ hStart).imp ?_
  · rintro y ⟨-, spent, hDrains, hSpent⟩ hQueue
    have hLength := (hReady hDrains).claimed.length_le
    have hSome := List.length_pos_iff.mpr hQueue
    omega
  · rintro n y i rest ⟨hxy, spent, hDrains, hSpent⟩ hQueue
    have hy := hReady hDrains
    have hPopped : Ready c (spent ++ [i]) [i.id]
        { y with queue := rest } :=
      ⟨hy.sound.dequeue hQueue, hy.claimed.dequeue hQueue⟩
    apply (yields_declareName hPopped).with_run.imp
    rintro _ z ⟨hRun, -, hyz⟩
    have hPop := within_dequeue y rest
    refine ⟨hxy.trans (hPop.trans hyz), spent ++ [i],
      hDrains.step hQueue hRun, ?_⟩
    rw [List.length_append, List.length_singleton]
    omega
  · rintro _ y ⟨hQueue, n, hxy, spent, hDrains, -⟩
    refine ⟨hQueue, ?_, spent, x, hRequests, hDrains⟩
    intro t ht
    exact List.Subset.trans (hAsked t ht) hxy.taken

------------------------------------------------------------
-- Outcomes
------------------------------------------------------------

/-
  An extraction that fails does so for a fault of the request
  or of the catalog.  One that succeeds has come to the end of
  the queue.
-/
theorem extract_outcome
    (c : Catalog)
    (known : WellKnown)
    (r : ExtractionRequest) :
    (∃ e, c.extract known r = .error e ∧ Finishes e)
      ∨ ∃ spent y, c.extract known r = .ok y.schema
        ∧ c.Reaches known r spent y ∧ y.queue = []
        ∧ ∀ t ∈ r.roots, asked known t ⊆ y.taken := by
  have hWalk := @yields_walk c known r
  unfold extract finish ExtractionRequest.check
  split
  · exact .inl ⟨.nothingAsked, rfl, by simp [Finishes]⟩
  · unfold Yields at hWalk
    cases hRun : (c.walk known r).run { memory := () } with
    | error e =>
        rw [hRun] at hWalk
        left
        refine ⟨e, ?_, hWalk⟩
        simp [bind, Except.bind]
    | ok result =>
        rw [hRun] at hWalk
        rcases hWalk with ⟨hQueue, hAsked, spent, hReaches⟩
        right
        refine ⟨spent, result.2, ?_, hReaches, hQueue, hAsked⟩
        simp [bind, Except.bind]

/- A name that stands for another item already is a fault. -/
theorem run_enqueue_of_clash
    {z : Walk ReportedName Unit}
    {n m : ReportedName}
    (hClaimed : z.claims.lookup m.id = some n)
    (hOther : n ≠ m) :
    m.enqueue.run z =
      .error (.nameClash m.id n.text m.text) := by
  have hClaim :
      (Walk.claim ReportedName.text m.id m).run z =
        .error (.nameClash m.id n.text m.text) := by
    unfold Walk.claim
    rw [StateT.run_bind, StateT.run_get]
    simp only [pure_bind, hClaimed, beq_false_of_ne hOther]
    rfl
  unfold ReportedName.enqueue
  rw [StateT.run_bind, hClaim]
  rfl

------------------------------------------------------------
-- Completeness
------------------------------------------------------------

/- Items that have been in the queue never share a name. -/
theorem Claimed.id_ne
    {n m : ReportedName}
    (h : Claimed c spent x)
    (hn : n ∈ spent ++ x.queue)
    (hm : m ∈ spent ++ x.queue)
    (hOther : n ≠ m) : n.id ≠ m.id := by
  intro hSame
  have hClaimN := h.claimed n hn
  have hClaimM := h.claimed m hm
  rw [hSame, hClaimM] at hClaimN
  exact hOther (Option.some.inj hClaimN).symm

/-
  Extraction from a catalog ends without reaching the bound
  on declarations: no run puts more items in the queue than
  the catalog has entries.

  A schema that is extracted comes from a run up to its end.
  Its names are distinct, what its declarations refer to and
  extend is declared, no declaration stands inside another,
  and there is no union.

  Items that are in the queue at some time have names of
  their own; an item whose name stands for another one is a
  fault that shows both.
-/
theorem extract_complete
    (c : Catalog)
    (known : WellKnown)
    (r : ExtractionRequest) :
    c.extract known r ≠ .error .unfinished
      ∧ (∀ s, c.extract known r = .ok s →
        s.names.Nodup
          ∧ (∀ t ∈ s.types,
            t.id?.isSome = true
              ∧ (∀ id ∈ t.dependencies, id ∈ s.names)
              ∧ (∀ u ∈ t.walk.tail, u.id? = none)
              ∧ (∀ u ∈ t.walk, u.isUnion = false))
          ∧ ∃ spent y, c.Reaches known r spent y
            ∧ y.queue = [] ∧ y.schema = s)
      ∧ (∀ spent y, c.Reaches known r spent y →
        spent.length + y.queue.length ≤ c.entries.length
          ∧ ∀ n ∈ spent ++ y.queue,
            y.claims.lookup n.id = some n
              ∧ ∀ m ∈ spent ++ y.queue, n ≠ m →
                n.id ≠ m.id)
      ∧ ∀ (z : Walk ReportedName Unit) (n m : ReportedName),
        z.claims.lookup m.id = some n → n ≠ m →
          m.enqueue.run z =
            .error (.nameClash m.id n.text m.text) := by
  refine ⟨?finishes, ?closed, ?distinct, ?clash⟩
  case finishes =>
    rcases extract_outcome c known r with
      ⟨e, hError, hFinishes⟩ | ⟨spent, y, hOk, -⟩
    · rw [hError]
      intro hUnfinished
      exact hFinishes (Except.error.inj hUnfinished)
    · rw [hOk]
      exact nofun
  case closed =>
    intro s hs
    rcases extract_outcome c known r with
      ⟨e, hError, -⟩ | ⟨spent, y, hOk, hReaches, hQueue, -⟩
    · rw [hError] at hs
      cases hs
    · rw [hOk] at hs
      cases hs
      have hSound := (ready_of_reaches hReaches).sound
      have hComplete := hSound.isComplete hQueue
      refine ⟨hComplete.distinct, ?_,
        spent, y, hReaches, hQueue, rfl⟩
      intro t ht
      have hDecl := hSound.decls t ht
      refine ⟨hDecl.isSome_id?, hComplete.closed t ht,
        ?_, ?_⟩
      · intro u hu
        exact hDecl.id?_eq_none nofun hu
      · intro u hu
        exact hDecl.isUnion_eq_false nofun hu
  case distinct =>
    intro spent y hReaches
    have hClaimed := (ready_of_reaches hReaches).claimed
    refine ⟨hClaimed.length_le, ?_⟩
    intro n hn
    refine ⟨hClaimed.claimed n hn, ?_⟩
    intro m hm hOther
    exact hClaimed.id_ne hn hm hOther
  case clash =>
    intro z n m hClaimed hOther
    exact run_enqueue_of_clash hClaimed hOther

end WireSchema.Catalog
