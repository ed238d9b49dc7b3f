import WireSchema.Proofs.Source.Program
import WireSchema.Proofs.TypeExpr.Order

/-
  When one name would stand for two declared types.

  Instances with arguments are recorded under the names that
  they are given, and a second one under a name is a fault.
  A type without arguments is not recorded: where an instance
  has its name, one of the two is not declared, and no fault
  tells it.

  Key definitions include:
    * `Clash`
    * `Recorded`
    * `FileTree.extractWithin_clash`
-/

namespace WireSchema

namespace Source

open Walk

variable {α β : Type}
variable {v : ModuleView}
variable {asked : List Instance}
variable {x y : Walk Instance Loaded}

------------------------------------------------------------
-- Instances
------------------------------------------------------------

instance : LawfulBEq Instance where
  rfl {i} := by
    rcases i with ⟨space, name, args⟩
    change (space == space && (name == name && args == args))
      = true
    simp
  eq_of_beq {i j} h := by
    rcases i with ⟨space, name, args⟩
    rcases j with ⟨space', name', args'⟩
    change (space == space' && (name == name' && args == args'))
      = true at h
    simpa using h

/- A type without arguments has its own name. -/
theorem Instance.eq_of_id_eq
    {i j : Instance}
    (hi : i.args = [])
    (hj : j.args = [])
    (hSame : i.id = j.id) : i = j := by
  rcases i with ⟨space, name, args⟩
  rcases j with ⟨space', name', args'⟩
  cases hi
  cases hj
  cases hSame
  rfl

/- Two instances with arguments that have one name. -/
structure Clash (i j : Instance) : Prop where
  first : i.args ≠ []
  second : j.args ≠ []
  other : i ≠ j
  same : i.id = j.id

------------------------------------------------------------
-- Records
------------------------------------------------------------

/-
  What a state knows of the instances that were asked for:
  their names are taken, and the claims are theirs.
-/
structure Recorded
    (asked : List Instance)
    (x : Walk Instance Loaded) : Prop where
  taken : ∀ i ∈ asked, i.id ∈ x.taken
  claimed :
    ∀ i ∈ asked, i.args ≠ [] →
      x.claims.lookup i.id = some i
  origin :
    ∀ id i, x.claims.lookup id = some i →
      i ∈ asked ∧ i.args ≠ [] ∧ i.id = id

theorem recorded_init :
    Recorded [] { memory := [] } where
  taken := by simp
  claimed := by simp
  origin := by simp

/- No two instances that are recorded clash. -/
theorem Recorded.not_clash
    (h : Recorded asked x)
    {i j : Instance}
    (hi : i ∈ asked)
    (hj : j ∈ asked) : ¬Clash i j := by
  intro hClash
  have hFirst := h.claimed i hi hClash.first
  have hSecond := h.claimed j hj hClash.second
  rw [hClash.same, hSecond] at hFirst
  exact hClash.other (Option.some.inj hFirst).symm

/- Only claims and names have a part in it. -/
theorem Recorded.congr
    (h : Recorded asked x)
    (hTaken : x.taken ⊆ y.taken)
    (hClaims : y.claims = x.claims) : Recorded asked y where
  taken i hi := hTaken (h.taken i hi)
  claimed := by rw [hClaims]; exact h.claimed
  origin := by rw [hClaims]; exact h.origin

/-
  How a run fails: for two instances that it asked for and
  that clash, or for something else while none do.
-/
def Faulted
    (asked : List Instance)
    (e : ExtractionFault) : Prop :=
  (e.isClash = false ∧ ∀ i ∈ asked, ∀ j ∈ asked, ¬Clash i j)
    ∨ ∃ i ∈ asked, ∃ j ∈ asked,
      Clash i j ∧ e = .nameClash i.id i.text j.text

------------------------------------------------------------
-- Calls
------------------------------------------------------------

theorem recorded_package
    (h : Recorded asked x)
    (path : String) :
    Yields (Faulted asked) (v.package? path) x fun _ y =>
      Recorded asked y := by
  apply yields_bind
  apply yields_get
  split
  · exact yields_pure h
  · apply yields_bind
    apply yields_liftM
    · intro e hError
      left
      constructor
      · rcases fault_of_load hError with ⟨_, rfl | rfl⟩ <;> rfl
      · intro i hi j hj
        exact h.not_clash hi hj
    · intro found _
      apply yields_bind
      apply yields_modify
      exact yields_pure (h.congr (List.Subset.refl _) rfl)

/- The record of one more instance. -/
theorem Recorded.add
    {i : Instance}
    (h : Recorded asked x)
    (hTaken : x.taken ⊆ y.taken)
    (hOwn : i.id ∈ y.taken)
    (hClaims : ∀ id j,
      y.claims.lookup id = some j ↔
        x.claims.lookup id = some j
          ∨ i.args ≠ [] ∧ i.id = id ∧ i = j) :
    Recorded (asked ++ [i]) y where
  taken j hj := by
    rcases List.mem_append.mp hj with hj | hj
    · exact hTaken (h.taken j hj)
    · rwa [List.mem_singleton.mp hj]
  claimed j hj hArgs := by
    rw [hClaims]
    rcases List.mem_append.mp hj with hj | hj
    · exact .inl (h.claimed j hj hArgs)
    · cases List.mem_singleton.mp hj
      exact .inr ⟨hArgs, rfl, rfl⟩
  origin id j hLookup := by
    rcases (hClaims id j).mp hLookup with hOld | ⟨hArgs, hId, hSame⟩
    · rcases h.origin id j hOld with ⟨hj, hArgs, hId⟩
      exact ⟨List.mem_append_left _ hj, hArgs, hId⟩
    · subst hSame
      exact ⟨List.mem_append_right _ List.mem_cons_self,
        hArgs, hId⟩

/-
  An instance is claimed and taken when it is asked for.  It
  is a fault only if another one has claimed its name.
-/
theorem recorded_enqueue
    (h : Recorded asked x)
    (i : Instance) :
    Yields (Faulted (asked ++ [i])) i.enqueue x fun _ y =>
      Recorded (asked ++ [i]) y := by
  have hQueued : ∀ y : Walk Instance Loaded,
      y.taken = x.taken →
      (∀ id j,
        y.claims.lookup id = some j ↔
          x.claims.lookup id = some j
            ∨ i.args ≠ [] ∧ i.id = id ∧ i = j) →
      Yields (Faulted (asked ++ [i]))
        (do Walk.enqueue i.id i; pure i.id) y fun _ z =>
          Recorded (asked ++ [i]) z := by
    intro y hSame hClaims
    apply yields_bind
    apply yields_enqueue
    · intro hId
      apply yields_pure
      exact h.add (by rw [hSame]; exact List.Subset.refl _) hId
        hClaims
    · intro _
      apply yields_pure
      refine h.add ?_ List.mem_cons_self hClaims
      rw [hSame]
      exact List.subset_cons_self ..
  unfold Instance.enqueue
  split
  · next hSome =>
      have hArgs : i.args ≠ [] := by simpa using hSome
      apply yields_bind
      apply yields_claim
      · intro first hLookup hSame
        cases eq_of_beq hSame
        apply hQueued x rfl
        intro id j
        constructor
        · exact .inl
        · rintro (hOld | ⟨-, rfl, rfl⟩)
          · exact hOld
          · exact hLookup
      · intro hNew
        refine hQueued { x with claims := _ } rfl ?_
        intro id j
        rw [List.lookup_cons]
        by_cases hId : id = i.id
        · subst hId
          simp [hNew, hArgs]
        · have hOther : i.id ≠ id := fun h => hId h.symm
          simp [hOther, beq_false_of_ne hId]
      · intro first hLookup hOther
        rcases h.origin i.id first hLookup with
          ⟨hFirst, hFirstArgs, hSame⟩
        have hClash : Clash first i :=
          ⟨hFirstArgs, hArgs, ne_of_beq_false hOther, hSame⟩
        right
        refine ⟨first, List.mem_append_left _ hFirst, i,
          List.mem_append_right _ List.mem_cons_self, hClash, ?_⟩
        rw [hSame]
  · next hNone =>
      have hArgs : i.args = [] := by simpa using hNone
      apply hQueued x rfl
      simp [hArgs]

/- Each call keeps the record, with what it asks for. -/
theorem recorded_call
    (h : Recorded asked x)
    (c : Call β) :
    Yields (Faulted (asked ++ c.asks)) (c.step v) x fun _ y =>
      Recorded (asked ++ c.asks) y := by
  cases c with
  | enqueue i => exact recorded_enqueue h i
  | package path =>
      rw [Call.asks, List.append_nil]
      exact recorded_package h path
  | note w =>
      rw [Call.asks, List.append_nil]
      exact yields_modify (h.congr (List.Subset.refl _) rfl)
  | takeName id =>
      rw [Call.asks, List.append_nil]
      apply yields_takeName
      · intro _
        exact h
      · intro _
        exact h.congr (List.subset_cons_self ..) rfl
  | dequeue =>
      rw [Call.asks, List.append_nil]
      apply yields_bind
      apply yields_get
      split
      · exact yields_pure h
      · apply yields_bind
        apply yields_set
        exact yields_pure (h.congr (List.Subset.refl _) rfl)
  | declare t =>
      rw [Call.asks, List.append_nil]
      apply yields_bind
      apply yields_get
      split
      · exact yields_set (h.congr (List.Subset.refl _) rfl)
      · apply yields_fault
        left
        refine ⟨rfl, ?_⟩
        intro i hi j hj
        exact h.not_clash hi hj

/- Every run of a program keeps the record. -/
theorem recorded_run
    (p : Program α)
    (h : Recorded asked x) :
    Yields (Faulted (asked ++ p.asked v x)) (p.step v) x
      fun _ y => Recorded (asked ++ p.asked v x) y := by
  induction p generalizing asked x with
  | pure a =>
      apply yields_pure
      simpa [Program.asked] using h
  | fault e hOther =>
      apply yields_fault
      left
      refine ⟨hOther, ?_⟩
      simp only [Program.asked, List.append_nil]
      intro i hi j hj
      exact h.not_clash hi hj
  | call c next ih =>
      have hCall := recorded_call (v := v) h c
      unfold Yields at hCall
      unfold Yields Program.step Program.asked
      rw [StateT.run_bind]
      cases hRun : (c.step v).run x with
      | error e =>
          rw [hRun] at hCall
          simpa [bind, Except.bind] using hCall
      | ok r =>
          rw [hRun] at hCall
          have hNext := ih r.1 hCall
          rw [List.append_assoc] at hNext
          exact hNext

end Source

------------------------------------------------------------
-- Outcomes
------------------------------------------------------------

open Source Walk

/-
  The walk of an extraction, and the state it begins in.  The
  instances that it asks for are those of its programs.
-/
theorem FileTree.extractWithin_clash
    {t : FileTree}
    {read : SourceReader}
    {root : String}
    {known : WellKnown}
    {depth count : Nat}
    {r : ExtractionRequest}
    {module : ModuleSource}
    (hOpen : ModuleSource.open? t root = .ok module)
    (hCheck : r.check = .ok ()) :
    let v : ModuleView := { read, tree := t, module, known }
    Asks v (r.roots.flatMap (rootInstances known))
        (v.walk depth count r)
      ∧ ∀ p : Program Unit, p.step v = v.walk depth count r →
        let asked := p.asked v { memory := [] }
        (∀ s, t.extractWithin read root known depth count r =
            .ok s →
          (∀ i ∈ asked, i.id ∈ s.names)
            ∧ ∀ i ∈ asked, ∀ j ∈ asked,
              i ≠ j → i.id = j.id → (i.args = [] ↔ j.args ≠ []))
          ∧ ∀ e, t.extractWithin read root known depth count r =
              .error e →
            Faulted asked e := by
  intro v
  refine ⟨asks_walk depth count r, ?_⟩
  intro p hp asked
  have hRecorded := recorded_run (v := v) p recorded_init
  rw [List.nil_append, hp] at hRecorded
  rw [extractWithin_eq_finish hOpen hCheck]
  unfold finish
  cases hRun : (v.walk depth count r).run { memory := [] } with
  | error e =>
      unfold Yields at hRecorded
      rw [hRun] at hRecorded
      refine ⟨fun _ => nofun, ?_⟩
      rintro _ ⟨⟩
      exact hRecorded
  | ok result =>
      rcases result with ⟨_, y⟩
      have hEnd := hRecorded.of_run_ok hRun
      have hWalk :=
        (yields_walk (v := v) depth count r).of_run_ok hRun
      refine ⟨?_, fun _ => nofun⟩
      rintro _ ⟨⟩
      constructor
      · intro i hi
        have hNames := hWalk.1.taken_perm hWalk.2.1
        exact hNames.mem_iff.mp (hEnd.taken i hi)
      · intro i hi j hj hOther hSame
        constructor
        · intro hNone hNone'
          exact hOther (Instance.eq_of_id_eq hNone hNone' hSame)
        · intro hArgs'
          by_contra hArgs
          exact hEnd.not_clash hi hj
            ⟨hArgs, hArgs', hOther, hSame⟩

/- A generic type, and a type with an instance's name. -/
def twinTree : FileTree :=
  { entries :=
      [(["go.mod"], .file "module m\n".toUTF8),
        (["box.go"],
          .file
            ("package m\n"
              ++ "type Box[T any] struct \x7b Value T \x7d\n"
              ++ "type Box_int struct \x7b Other string \x7d\n"
              ).toUTF8)] }

def twinModule : ModuleSource :=
  { root := "/", path := "m" }

def twinView : ModuleView :=
  { read := FileSource.parse?
    tree := twinTree
    module := twinModule
    known := .default }

/- The type by its own name first, then the instance. -/
def twinRequest : ExtractionRequest :=
  { roots :=
      [.named "m" "Box_int" [], .named "m" "Box" [.builtin "int"]]
    scope := [] }

/- The walk with the limits that an extraction runs with. -/
def twinWalk : ModuleStep Unit :=
  twinView.walk twinTree.boundDepth FileTree.declarationLimit
    twinRequest

theorem open_twinTree :
    ModuleSource.open? twinTree "/" = .ok twinModule := by
  decide +kernel

/- The names that are declared for them, and all fields. -/
theorem twinTypes :
    (twinTree.extractSources "/" .default twinRequest).map
        (fun s =>
          (s.names, s.types.flatMap fun t =>
            match t with
            | .record d => d.fields.map Field.name
            | _ => [])) =
      .ok ([{ name := "Box_int", space := "m" }], ["Other"]) := by
  decide +kernel

theorem extractWithin_clash_twins :
    ModuleSource.open? twinTree "/" = .ok twinModule
      ∧ twinRequest.check = .ok ()
      ∧ ∃ (s : Schema) (p : Program Unit),
        twinTree.extractSources "/" .default twinRequest = .ok s
          ∧ p.step twinView = twinWalk
          ∧ ∀ i ∈ p.asked twinView { memory := [] },
            i.id ∈ s.names := by
  have hBoth := @FileTree.extractWithin_clash twinTree
    FileSource.parse? "/" .default twinTree.boundDepth
    FileTree.declarationLimit twinRequest twinModule
    open_twinTree rfl
  rcases hBoth.1 with ⟨p, hp, -⟩
  rcases eq_ok_of_map twinTypes with ⟨s, hOk, -⟩
  refine ⟨open_twinTree, rfl, s, p, hOk, hp, ?_⟩
  exact ((hBoth.2 p hp).1 s hOk).1

/-
  Two types that are asked for have one name, and only the
  first of them is declared.
-/
theorem twins_share_name :
    ∃ (s : Schema) (p : Program Unit) (i j : Instance),
      twinTree.extractSources "/" .default twinRequest = .ok s
        ∧ p.step twinView = twinWalk
        ∧ i ∈ p.asked twinView { memory := [] }
        ∧ j ∈ p.asked twinView { memory := [] }
        ∧ i ≠ j ∧ i.id = j.id
        ∧ s.names = [i.id] := by
  rcases eq_ok_of_map twinTypes with ⟨s, hOk, hTypes⟩
  rcases FileTree.run_of_extractWithin hOk with
    ⟨module, z, hOpen, hRun, -⟩
  rw [open_twinTree] at hOpen
  cases hOpen
  rcases asks_walk (v := twinView) twinTree.boundDepth
    FileTree.declarationLimit twinRequest with
    ⟨p, hp, hAsked⟩
  have hRoots :
      twinRequest.roots.flatMap
          (rootInstances WellKnown.default) =
        [{ space := "m", name := "Box_int" },
          { space := "m", name := "Box"
            args := [.builtin "int"] }] := by
    have hPlain :
        (WellKnown.default.find? "m" "Box_int").isSome =
          false := by
      decide +kernel
    have hBox :
        (WellKnown.default.find? "m" "Box").isSome = false := by
      decide +kernel
    simp [twinRequest, rootInstances, argInstances, hPlain, hBox]
  have hKnown : twinView.known = .default := rfl
  have hBoth := hAsked _ _ _ hRun
  rw [hKnown, hRoots] at hBoth
  refine ⟨s, p, _, _, hOk, hp, hBoth List.mem_cons_self,
    hBoth (List.mem_cons_of_mem _ List.mem_cons_self), ?_, ?_, ?_⟩
  · intro hSame
    have hName := congrArg Instance.name hSame
    exact absurd hName (by decide)
  · decide +kernel
  · exact (Prod.mk.inj hTypes).1

end WireSchema
