import WireSchema.Proofs.Source.Confined
import WireSchema.Proofs.Source.Requests

/-
  Extraction from a grounded module ends.

  No two instances in the queue have one name, and none has
  the name of one that has been there.  So no more instances
  are declared than there are names for those that may be
  asked for, which are finitely many in a grounded module.

  Key definitions include:
    * `Lined`
    * `yields_walk_of_isGrounded`
    * `FileTree.exists_answersFinally`
-/

namespace WireSchema

------------------------------------------------------------
-- Both Conditions
------------------------------------------------------------

/- A step that ends as each of two conditions says. -/
theorem Walk.Yields.and
    {ι σ α : Type}
    {Allowed : ExtractionFault → Prop}
    {x : Walk ι σ}
    {m : WalkStep ι σ α}
    {Q R : α → Walk ι σ → Prop}
    (hQ : Yields Allowed m x Q)
    (hR : Yields (fun _ => True) m x R) :
    Yields Allowed m x fun a y => Q a y ∧ R a y := by
  unfold Yields at hQ hR ⊢
  cases hRun : m.run x with
  | error e =>
      rw [hRun] at hQ
      exact hQ
  | ok r =>
      rw [hRun] at hQ hR
      exact ⟨hQ, hR⟩

namespace Source

open Walk ModuleView

variable {v : ModuleView}
variable {Fits : TypeExpr → Prop}
variable {α β : Type}
variable {spent : List TypeName}

------------------------------------------------------------
-- Queues
------------------------------------------------------------

/-
  Names of instances that have left the queue, and those in
  the queue, are taken, and no two of them are the same.
-/
structure Lined
    (spent : List TypeName)
    (x : Walk Instance Loaded) : Prop where
  distinct : (spent ++ x.queue.map Instance.id).Nodup
  taken : spent ++ x.queue.map Instance.id ⊆ x.taken

variable {x y : Walk Instance Loaded}

theorem lined_init : Lined [] { memory := [] } where
  distinct := List.nodup_nil
  taken := List.nil_subset _

/- More names may be taken. -/
theorem Lined.congr
    (h : Lined spent x)
    (hQueue : y.queue = x.queue)
    (hTaken : x.taken ⊆ y.taken) : Lined spent y where
  distinct := by rw [hQueue]; exact h.distinct
  taken := by
    rw [hQueue]
    exact List.Subset.trans h.taken hTaken

theorem Lined.enqueue
    {i : Instance}
    (h : Lined spent x)
    (hFree : i.id ∉ x.taken) :
    Lined spent
      { x with
        taken := i.id :: x.taken
        queue := x.queue ++ [i] } where
  distinct := by
    have hNew : i.id ∉ spent ++ x.queue.map Instance.id :=
      fun hMem => hFree (h.taken hMem)
    rw [List.map_append, ← List.append_assoc]
    exact h.distinct.append (List.nodup_singleton _)
      (List.disjoint_singleton.mpr hNew)
  taken := by
    rw [List.map_append, ← List.append_assoc]
    apply List.append_subset.mpr
    exact ⟨List.subset_cons_of_subset _ h.taken,
      List.cons_subset_cons _ (List.nil_subset _)⟩

/- The name of an instance that leaves the queue is spent. -/
theorem Lined.dequeue
    {i : Instance}
    {rest : List Instance}
    (h : Lined spent x)
    (hQueue : x.queue = i :: rest) :
    Lined (spent ++ [i.id]) { x with queue := rest } := by
  rcases h with ⟨hDistinct, hTaken⟩
  rw [hQueue, List.map_cons, List.append_cons] at hDistinct hTaken
  exact ⟨hDistinct, hTaken⟩

/- No call puts a name into the queue that is taken. -/
theorem Lined.call
    (c : Call β)
    (h : Lined spent x) :
    Yields (fun _ => True) (c.step v) x
      fun _ y => Lined spent y := by
  cases c with
  | note w => exact yields_modify (h.congr rfl fun _ => id)
  | declare t =>
      change Yields _ (declare t) x _
      unfold declare
      apply yields_bind
      apply yields_get
      split
      · exact yields_set (h.congr rfl fun _ => id)
      · exact yields_fault trivial
  | takeName id =>
      apply yields_takeName
      · exact fun _ => h
      · intro _
        exact h.congr rfl (List.subset_cons_self _ _)
  | package path =>
      apply yields_bind
      apply yields_get
      split
      · exact yields_pure h
      · apply yields_bind
        apply yields_liftM
        · exact fun _ _ => trivial
        · intro found _
          apply yields_bind
          apply yields_modify
          exact yields_pure (h.congr rfl fun _ => id)
  | enqueue i =>
      have hQueued : ∀ {y : Walk Instance Loaded}, Lined spent y →
          Yields (fun _ => True)
            (do Walk.enqueue i.id i; pure i.id) y
            fun _ z => Lined spent z := by
        intro y hy
        apply yields_bind
        apply yields_enqueue
        · exact fun _ => yields_pure hy
        · intro hFree
          exact yields_pure (hy.enqueue hFree)
      change Yields _ i.enqueue x _
      unfold Instance.enqueue
      split
      · apply yields_bind
        apply yields_claim
        · exact fun _ _ _ => hQueued h
        · exact fun _ => hQueued (h.congr rfl fun _ => id)
        · exact fun _ _ _ => trivial
      · exact hQueued h
  | dequeue =>
      change Yields _ Call.pop x _
      unfold Call.pop
      apply yields_bind
      apply yields_get
      cases hQueue : x.queue with
      | nil => exact yields_pure h
      | cons i rest =>
          apply yields_bind
          apply yields_set
          apply yields_pure
          rcases h.dequeue hQueue with ⟨hDistinct, hTaken⟩
          have hFewer : (spent ++ rest.map Instance.id).Sublist
              (spent ++ [i.id] ++ rest.map Instance.id) :=
            (List.sublist_append_left spent [i.id]).append_right _
          exact ⟨hDistinct.sublist hFewer,
            List.Subset.trans hFewer.subset hTaken⟩

theorem Programmed.lined
    {m : ModuleStep α}
    (hm : Programmed v m)
    (h : Lined spent x) :
    Yields (fun _ => True) m x fun _ y => Lined spent y := by
  rcases hm with ⟨p, rfl⟩
  induction p generalizing x with
  | pure a => exact yields_pure h
  | fault e hOther => exact yields_fault trivial
  | call c next ih =>
      apply yields_bind
      apply (h.call c).imp
      intro a y hy
      exact ih a hy

/- A confined step of a program, from a state in order. -/
theorem yields_stays
    {m : ModuleStep α}
    (hm : Stays v Fits m)
    (hProgram : Programmed v m)
    (hx : x.Meets (v.confined Fits))
    (h : Lined spent x) :
    Yields IsFinal m x fun _ y =>
      y.Meets (v.confined Fits) ∧ Lined spent y := by
  apply ((hm x hx).and (hProgram.lined h)).imp
  rintro _ y ⟨⟨hy, -⟩, hLined⟩
  exact ⟨hy, hLined⟩

------------------------------------------------------------
-- Draining
------------------------------------------------------------

/- A list without repetition is not longer than a set is large. -/
theorem length_le_ncard
    {S : Set α}
    {xs : List α}
    (hFinite : S.Finite)
    (hDistinct : xs.Nodup)
    (hMem : ∀ a ∈ xs, a ∈ S) : xs.length ≤ S.ncard := by
  classical
  rw [← List.toFinset_card_of_nodup hDistinct,
    ← Set.ncard_coe_finset]
  apply Set.ncard_le_ncard _ hFinite
  intro a ha
  exact hMem a (List.mem_toFinset.mp ha)

/- The names of all instances that may be asked for. -/
def askedNames (Fits : TypeExpr → Prop) : Set TypeName :=
  Instance.id '' { i | IsAsked Fits i }

/-
  The queue is empty once as many instances are declared as
  there are names for them.
-/
theorem yields_drainWithin
    {depth : Nat}
    (hFinite : { e | Fits e }.Finite)
    (hDeclare : ∀ i, IsAsked Fits i →
      Stays v Fits (v.declareInstance depth i))
    (hx : x.Meets (v.confined Fits))
    (h : Lined [] x) :
    Yields IsFinal
      (drain (v.declareInstance depth) (askedNames Fits).ncard) x
      fun _ _ => True := by
  have hNames : (askedNames Fits).Finite :=
    (finite_asked hFinite).image _
  let Inv : Nat → Walk Instance Loaded → Prop := fun n y =>
    ∃ spent, spent.length + n = (askedNames Fits).ncard
      ∧ (∀ id ∈ spent, id ∈ askedNames Fits)
      ∧ y.Meets (v.confined Fits) ∧ Lined spent y
  have hStart : Inv (askedNames Fits).ncard x :=
    ⟨[], by simp, by simp, hx, h⟩
  apply (yields_drain Inv ?_ ?_ _ hStart).imp
  · exact fun _ _ _ => trivial
  · -- with one more there would be more names than there are
    rintro y ⟨spent, hLength, hSpent, hy, hLined⟩ hQueue
    cases hNext : y.queue with
    | nil => exact absurd hNext hQueue
    | cons i rest =>
        have hAsked := (hy.dequeue hNext).1
        have hMore := (hLined.dequeue hNext).distinct
        have hShort := length_le_ncard hNames
          (hMore.sublist (List.sublist_append_left _ _)) (by
            intro id hId
            rcases List.mem_append.mp hId with hId | hId
            · exact hSpent id hId
            · rw [List.mem_singleton.mp hId]
              exact ⟨i, hAsked, rfl⟩)
        rw [List.length_append, List.length_singleton] at hShort
        omega
  · rintro n y i rest ⟨spent, hLength, hSpent, hy, hLined⟩ hQueue
    have hPopped := hy.dequeue hQueue
    apply (yields_stays (hDeclare i hPopped.1)
      (programmed_declareInstance depth i) hPopped.2
      (hLined.dequeue hQueue)).imp
    rintro _ z ⟨hz, hAfter⟩
    refine ⟨spent ++ [i.id], ?_, ?_, hz, hAfter⟩
    · rw [List.length_append, List.length_singleton]
      omega
    · intro id hId
      rcases List.mem_append.mp hId with hId | hId
      · exact hSpent id hId
      · rw [List.mem_singleton.mp hId]
        exact ⟨i, hPopped.1, rfl⟩

------------------------------------------------------------
-- Requests
------------------------------------------------------------

theorem stays_requireSpace
    (hDeclared : ∀ space name, v.Finds space name →
      Fits (.named space name []))
    (space : String) : Stays v Fits (v.requireSpace space) := by
  unfold requireSpace
  apply (stays_package space).bind
  intro found hLoaded
  split
  · exact keeps_fault (isFinal_unresolved _)
  · next p =>
      have hEach : ∀ d ∈ p.types, Stays v Fits
          (do
            let i : Instance := { space, name := d.name }
            let _ ← i.enqueue) := by
        intro d hd
        have hFinds : v.Finds space d.name :=
          ⟨p, hLoaded, isSome_find?_of_mem_types hd⟩
        apply isKind_stays.map
        exact stays_enqueue
          ⟨[], hDeclared space d.name hFinds, .inl rfl⟩
      exact (keeps_forM fun d hd =>
        hEach d (List.mem_of_mem_filter hd)).imp
          fun _ _ => trivial

theorem stays_checkRoot (space name text : String) :
    Stays v Fits (v.checkRoot space name text) := by
  unfold checkRoot
  apply isKind_stays.space
  intro package
  split
  · exact keeps_return _
  · exact keeps_fault (isFinal_unresolved _)

/- A root that fits asks for nothing that does not. -/
theorem stays_require (hConfines : v.Confines Fits) :
    (∀ t, Fits t → Stays v Fits (v.require t))
      ∧ ∀ args, (∀ arg ∈ args, Fits arg) →
        Stays v Fits (v.requireArgs args) := by
  refine ModuleView.require.mutual_induct v _ _
    ?known ?named ?pointer ?slice ?array ?map ?builtin ?other
    ?param ?noArg ?arg
  case known =>
    intro space name args hKnown _
    unfold require
    rw [if_pos hKnown]
    exact keeps_return _
  case named =>
    intro space name args hUnknown hArgs hFits
    unfold require
    rw [if_neg hUnknown]
    have hArgs := hArgs fun arg hArg => by
      rcases List.mem_iff_getElem?.mp hArg with ⟨index, hIndex⟩
      exact hConfines.part hFits
        (TypeExpr.arg_mem_parts (TypeExpr.mem_parts_self _) hIndex)
    apply isKind_stays.bind (stays_checkRoot _ _ _)
    intro _
    apply isKind_stays.bind hArgs
    intro _
    apply isKind_stays.map
    exact stays_enqueue ⟨args, hFits, .inl rfl⟩
  case pointer | slice =>
    intro elem hElem hFits
    unfold require
    exact hElem (hConfines.part hFits
      (List.mem_cons_of_mem _ (TypeExpr.mem_parts_self elem)))
  case array =>
    intro len elem hElem hFits
    unfold require
    exact hElem (hConfines.part hFits
      (List.mem_cons_of_mem _ (TypeExpr.mem_parts_self elem)))
  case map =>
    intro key value hKey hValue hFits
    unfold require
    have hKey := hKey (hConfines.part hFits
      (List.mem_cons_of_mem _ (List.mem_append_left _
        (TypeExpr.mem_parts_self key))))
    have hValue := hValue (hConfines.part hFits
      (List.mem_cons_of_mem _ (List.mem_append_right _
        (TypeExpr.mem_parts_self value))))
    exact isKind_stays.bind hKey fun _ => hValue
  case builtin =>
    intro name hName _
    unfold require
    rw [if_pos hName]
    exact keeps_return _
  case other =>
    intro name hName _
    unfold require
    rw [if_neg hName]
    exact keeps_fault (isFinal_unresolved _)
  case param =>
    intro name _
    unfold require
    exact keeps_return _
  case noArg =>
    intro _
    unfold requireArgs
    exact keeps_return _
  case arg =>
    intro arg rest hArg hRest hFits
    rw [List.forall_mem_cons] at hFits
    unfold requireArgs
    exact isKind_stays.bind (hArg hFits.1) fun _ =>
      hRest hFits.2

------------------------------------------------------------
-- Walks
------------------------------------------------------------

variable {r : ExtractionRequest}

theorem programmed_require (t : TypeExpr) :
    Programmed v (v.require t) := by
  rcases asks_roots.1 t with ⟨p, hStep, -⟩
  exact ⟨p, hStep⟩

/- Within some limits, a walk is not cut off. -/
theorem yields_walk_of_isGrounded
    (hGrounded : v.IsGrounded)
    (r : ExtractionRequest) :
    ∃ depth count, Yields IsFinal (v.walk depth count r)
      { memory := [] } fun _ _ => True := by
  rcases exists_confines hGrounded r with
    ⟨Fits, hConfines, hFinite, hRoots, hDeclared⟩
  have hDepth : ∀ᶠ k in Filter.atTop,
      ∀ i ∈ { i | IsAsked Fits i },
        Stays v Fits (v.declareInstance k i) := by
    rw [Filter.eventually_all_finite (finite_asked hFinite)]
    exact fun i hAsked => deep_declare hGrounded hConfines hAsked
  rcases hDepth.exists with ⟨depth, hDeclare⟩
  refine ⟨depth, (askedNames Fits).ncard, ?_⟩
  have hScope : Stays v Fits (r.scope.forM v.requireSpace) :=
    (keeps_forM fun space _ =>
      stays_requireSpace hDeclared space).imp fun _ _ => trivial
  have hEach : Stays v Fits (r.roots.forM v.require) :=
    (keeps_forM fun t ht =>
      (stays_require hConfines).1 t (hRoots t ht)).imp
        fun _ _ => trivial
  have hStart : Walk.Meets (v.confined Fits)
      ({ memory := [] } : Walk Instance Loaded) :=
    meets_init remembers_nil
  unfold walk
  apply yields_bind
  apply (yields_stays hScope
    (programmed_forM programmed_requireSpace _)
    hStart lined_init).imp
  rintro _ y ⟨hy, hLined⟩
  apply yields_bind
  apply (yields_stays hEach
    (programmed_forM programmed_require _) hy hLined).imp
  rintro _ z ⟨hz, hLined⟩
  exact yields_drainWithin hFinite hDeclare hz hLined

end Source

------------------------------------------------------------
-- Extractions
------------------------------------------------------------

namespace FileTree

open Source Walk

/-
  Extraction ends: for a module in which no interface is a
  part of its own bound, no parameter has arguments and no
  argument grows on a way back to its place, each request has
  a final answer.
-/
theorem exists_answersFinally
    (t : FileTree)
    (read : SourceReader)
    (root : String)
    (known : WellKnown)
    (r : ExtractionRequest)
    (hGrounded : ∀ module,
      ModuleSource.open? t root = .ok module →
        ModuleView.IsGrounded
          { read, tree := t, module, known }) :
    ∃ answer, t.AnswersFinally read root known r answer := by
  have hEnds : ∃ depth count,
      t.extractWithin read root known depth count r ≠
        .error .unfinished := by
    unfold extractWithin
    cases hCheck : r.check with
    | error e =>
        refine ⟨0, 0, ?_⟩
        rintro ⟨⟩
        unfold ExtractionRequest.check at hCheck
        split at hCheck
        · cases hCheck
        · cases hCheck
    | ok _ =>
        cases hOpen : ModuleSource.open? t root with
        | error e =>
            refine ⟨0, 0, ?_⟩
            rintro ⟨⟩
            unfold ModuleSource.open? at hOpen
            dsimp only at hOpen
            split at hOpen
            · cases hOpen
            · split at hOpen
              · cases hOpen
              · cases hOpen
        | ok module =>
            rcases yields_walk_of_isGrounded
              (hGrounded module hOpen) r with
              ⟨depth, count, hWalk⟩
            refine ⟨depth, count, ?_⟩
            intro hCut
            have hRun := eq_error_of_bind_ok hCut
            unfold Yields at hWalk
            rw [hRun] at hWalk
            exact hWalk rfl
  rcases hEnds with ⟨depth, count, hEnd⟩
  exact ⟨_, answersFinally_of_extractWithin hEnd⟩

end FileTree

/- Rows go into boxes, with the contents of the row inside. -/
def rowText : String :=
  "package m\n" ++ "type Box[T any] []T\n"
    ++ "type Row[T any] map[string]Box[*Row[T]]\n"

def rowTree : FileTree :=
  { entries :=
      [(["go.mod"], .file "module m\n".toUTF8),
        (["row.go"], .file rowText.toUTF8)] }

def rowRequest : ExtractionRequest :=
  { roots := [.named "m" "Row" [.builtin "int"]]
    scope := ["m"] }

namespace Source

open ModuleView

variable {v : ModuleView}
variable {space name : String}
variable {p : PackageSource}
variable {file : FileSource}
variable {d : TypeSource}

/- The parameter of each of the two declarations. -/
def rowParam : SourceParam :=
  { name := "T", bound := .ident "any" }

def boxDecl (label : String) : TypeSource :=
  { name := "Box"
    params := [rowParam]
    type := .slice (.ident "T")
    place := { file := label, line := 2, column := 6 } }

/- A box as it is used in a row. -/
def rowUse : SourceType :=
  .generic (.ident "Box")
    [.pointer (.generic (.ident "Row") [.ident "T"])]

def rowDecl (label : String) : TypeSource :=
  { name := "Row"
    params := [rowParam]
    type := .map (.ident "string") rowUse
    place := { file := label, line := 3, column := 6 } }

/-
  A token behind some gap, which may be the end of a line.  The
  tokens of a text can be computed, and what is read from them
  then holds for all paths.
-/
def tokenAt
    (line column : Nat)
    (kind : TokenKind)
    (text gap : String) : Token :=
  { kind, text, gap, lineStart := gap == "\n", line, column }

/- The tokens of the module file, which is no source file. -/
def moduleTokens : Tokens :=
  [tokenAt 0 0 .name "module" "", tokenAt 0 7 .name "m" " ",
    tokenAt 1 0 .stop "" "\n"]

def boxTokens : Tokens :=
  [tokenAt 1 0 .keyword "type" "\n", tokenAt 1 5 .name "Box" " ",
    tokenAt 1 8 .symbol "[" "", tokenAt 1 9 .name "T" "",
    tokenAt 1 11 .name "any" " ", tokenAt 1 14 .symbol "]" "",
    tokenAt 1 16 .symbol "[" " ", tokenAt 1 17 .symbol "]" "",
    tokenAt 1 18 .name "T" ""]

def rowTokens : Tokens :=
  [tokenAt 2 0 .keyword "type" "\n", tokenAt 2 5 .name "Row" " ",
    tokenAt 2 8 .symbol "[" "", tokenAt 2 9 .name "T" "",
    tokenAt 2 11 .name "any" " ", tokenAt 2 14 .symbol "]" "",
    tokenAt 2 16 .keyword "map" " ", tokenAt 2 19 .symbol "[" "",
    tokenAt 2 20 .name "string" "", tokenAt 2 26 .symbol "]" "",
    tokenAt 2 27 .name "Box" "", tokenAt 2 30 .symbol "[" "",
    tokenAt 2 31 .symbol "*" "", tokenAt 2 32 .name "Row" "",
    tokenAt 2 35 .symbol "[" "", tokenAt 2 36 .name "T" "",
    tokenAt 2 37 .symbol "]" "", tokenAt 2 38 .symbol "]" ""]

theorem parse?_rowText (label : String) :
    FileSource.parse? label rowText =
      some
        { path := label, package := "m"
          types := [boxDecl label, rowDecl label] } := by
  have hTokens : tokenize? rowText =
      some
        (tokenAt 0 0 .keyword "package" ""
          :: tokenAt 0 8 .name "m" " "
          :: (boxTokens ++ rowTokens
            ++ [tokenAt 3 0 .stop "" "\n"])) := by
    decide +kernel
  unfold FileSource.parse?
  rw [hTokens]
  rfl

theorem parse?_moduleText (label : String) :
    FileSource.parse? label "module m\n" = none := by
  have hTokens : tokenize? "module m\n" = some moduleTokens := by
    decide +kernel
  unfold FileSource.parse?
  rw [hTokens]
  rfl

/- By whatever path a package is read, it declares these. -/
theorem holds_row
    (hRead : v.read = FileSource.parse?)
    (hTree : v.tree = rowTree)
    (h : v.Holds space name p file d) :
    ∃ label, d = boxDecl label ∨ d = rowDecl label := by
  have hMem := PackageSource.mem_of_find? h.found
  rcases ModuleSource.exists_text_of_load h.loaded hMem.1 with
    ⟨label, text, ⟨loc, content, hEntry, hText⟩, hParse⟩
  rw [hRead] at hParse
  have hOwn (s : String) : String.fromUTF8? s.toUTF8 = some s :=
    dif_pos s.isValidUTF8
  rw [hTree] at hEntry
  simp only [rowTree, List.mem_cons, Prod.mk.injEq,
    Entry.file.injEq, List.not_mem_nil, or_false] at hEntry
  rcases hEntry with ⟨-, rfl⟩ | ⟨-, rfl⟩
  · rw [hOwn] at hText
    cases hText
    rw [parse?_moduleText] at hParse
    cases hParse
  · rw [hOwn] at hText
    cases hText
    rw [parse?_rowText] at hParse
    cases hParse
    refine ⟨label, ?_⟩
    simpa only [List.mem_cons, List.not_mem_nil, or_false]
      using hMem.2

/- A name alone has no arguments. -/
theorem args_of_resolveName?
    {given : String}
    {args : List TypeExpr}
    {e : TypeExpr}
    (h : (genericScope p file d).resolveName? name = some e)
    (hPart : .named space given args ∈ e.parts) : args = [] := by
  unfold SourceScope.resolveName? at h
  split at h
  · cases h
    simp [TypeExpr.parts] at hPart
  · next hLookup =>
      -- no parameter stands for an argument here
      rcases List.lookup_eq_some_iff.mp hLookup with
        ⟨before, after, hSplit, -⟩
      have hMem := hSplit ▸ List.mem_append_right before
        List.mem_cons_self
      simp [genericScope] at hMem
  · split at h
    · cases h
      simp [TypeExpr.parts, TypeExpr.argParts] at hPart
      exact hPart.2.2
    · split at h
      · cases h
        simp [TypeExpr.parts] at hPart
      · cases h

theorem resolve?_rowUse
    {x : SourceScope}
    {e : TypeExpr}
    (hBindings : x.bindings = [("T", .itself)])
    (h : x.resolve? rowUse = some e) :
    e = .named x.package.path "Box"
      [.pointer (.named x.package.path "Row" [.param "T"])] := by
  have hName (given : String)
      (hFree : x.bindings.lookup given = none)
      (hDeclared : builtinType? given = none) :
      x.resolveName? given =
        if x.declares given then
          some (.named x.package.path given [])
        else none := by
    rw [SourceScope.resolveName?, hFree, hDeclared]
    rfl
  have hParam : x.resolveName? "T" = some (.param "T") := by
    rw [SourceScope.resolveName?, hBindings]
    rfl
  have hBox := hName "Box" (by rw [hBindings]; rfl) (by decide)
  have hRow := hName "Row" (by rw [hBindings]; rfl) (by decide)
  simp only [rowUse, SourceScope.resolve?,
    SourceScope.resolveTypes?, hBox, hRow, hParam] at h
  cases hBoxes : x.declares "Box" with
  | false => simp [hBoxes] at h
  | true =>
      cases hRows : x.declares "Row" with
      | false => simp [hBoxes, hRows] at h
      | true =>
          simp [hBoxes, hRows] at h
          exact h.symm

/- What is in a row is in rows within, and these in boxes. -/
theorem passes_row
    {a b : Slot}
    {param : String}
    {arg : TypeExpr}
    (hRead : v.read = FileSource.parse?)
    (hTree : v.tree = rowTree)
    (h : v.Passes a b param arg) :
    a.name = "Row" ∧ (b.name = "Box" ∨ arg = .param param) := by
  rcases h with @⟨d, e, args, ⟨hHolds, hUse, hResolve⟩, hParam,
    hPart, hArg, hInside⟩
  rename_i p file u
  have hNoName (given : String) : u ≠ .ident given := by
    rintro rfl
    rw [SourceScope.resolve?] at hResolve
    rw [args_of_resolveName? hResolve hPart] at hArg
    cases hArg
  rcases holds_row hRead hTree hHolds with ⟨label, rfl | rfl⟩
  · simp only [TypeSource.uses, boxDecl, SourceType.uses,
      rowParam, List.flatMap_cons, List.flatMap_nil,
      List.append_nil, List.cons_append, List.nil_append,
      List.mem_cons, List.not_mem_nil, or_false] at hUse
    rcases hUse with rfl | rfl
    · exact absurd rfl (hNoName _)
    · exact absurd rfl (hNoName _)
  · simp only [TypeSource.uses, rowDecl, SourceType.uses, rowUse,
      rowParam, List.flatMap_cons, List.flatMap_nil,
      List.append_nil, List.cons_append, List.nil_append,
      List.mem_cons, List.not_mem_nil, or_false] at hUse
    rcases hUse with rfl | rfl | rfl
    · exact absurd rfl (hNoName _)
    · refine ⟨(PackageSource.name_of_find? hHolds.found).symm, ?_⟩
      cases resolve?_rowUse rfl hResolve
      simp only [TypeExpr.parts, TypeExpr.argParts,
        List.append_nil, List.mem_cons, List.not_mem_nil,
        or_false, TypeExpr.named.injEq, reduceCtorEq,
        false_or] at hPart
      rcases hPart with ⟨-, hBox, -⟩ | ⟨-, -, rfl⟩
      · exact .inl hBox
      · right
        rcases List.mem_singleton.mp
          (List.mem_of_getElem? hArg) with rfl
        rw [TypeExpr.parts, List.mem_singleton] at hInside
        exact hInside.symm
    · exact absurd rfl (hNoName _)

theorem isGrounded_row
    (hRead : v.read = FileSource.parse?)
    (hTree : v.tree = rowTree) : v.IsGrounded where
  bounds := by
    intro id hCircle
    rcases Relation.TransGen.head'_iff.mp hCircle with
      ⟨_, ⟨hHolds, hInterface, -, -⟩, -⟩
    rcases holds_row hRead hTree hHolds with ⟨label, rfl | rfl⟩
    · cases hInterface
    · cases hInterface
  heads := by
    intro space name p file d hHolds
    rcases holds_row hRead hTree hHolds with ⟨label, rfl | rfl⟩
    · simp [TypeSource.uses, boxDecl, rowParam, SourceType.uses,
        SourceType.heads]
    · simp [TypeSource.uses, rowDecl, rowUse, rowParam,
        SourceType.uses, SourceType.heads, SourceType.headsIn,
        SourceType.head]
  arguments := by
    rintro a b ⟨param, arg, hPasses, hOther⟩ hBack
    rcases passes_row hRead hTree hPasses with ⟨hRow, hBox | hSame⟩
    · -- nothing that is in boxes goes on
      cases hBack.cases_head with
      | inl hSlot =>
          rw [hSlot, hRow] at hBox
          exact absurd hBox (by decide)
      | inr hNext =>
          rcases hNext with ⟨c, ⟨_, _, hFlows⟩, -⟩
          have hFrom := (passes_row hRead hTree hFlows).1
          rw [hBox] at hFrom
          exact absurd hFrom (by decide)
    · exact hOther hSame

end Source

theorem exists_answersFinally_row :
    Source.ModuleSource.open? rowTree "/" =
        .ok { root := "/", path := "m" }
      ∧ ∃ answer,
        rowTree.AnswersFinally Source.FileSource.parse? "/"
          .default rowRequest answer := by
  constructor
  · decide +kernel
  · exact FileTree.exists_answersFinally _ _ _ _ _
      fun _ _ => Source.isGrounded_row rfl rfl

end WireSchema
