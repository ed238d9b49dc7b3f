import WireSchema.Proofs.FileTree.Growth
import WireSchema.Sink.Basic

/-
  What a directory that is written to keeps.

  A path that stays below is joined to the root.  Directories
  are only made at the root and below it, as the directory of
  the root is there, and a file is written below the root.  So
  whatever is asked for, nothing else changes.

  Key definitions include:
    * `SinkCall`, `DirectorySink.call`, `DirectorySink.run`
    * `DirectorySink.location`
    * `DirectorySink.KeepsTo`
    * `DirectorySink.calls_confined`
-/

namespace WireSchema

/- What can be asked of a sink. -/
inductive SinkCall where
  | write (path : String) (content : ByteArray)
  | makeDirs (path : String)

def SinkCall.path : SinkCall → String
  | .write path _ => path
  | .makeDirs path => path

namespace DirectorySink

variable {d : DirectorySink}
variable {path : String}
variable {content : ByteArray}

def call (d : DirectorySink) :
    SinkCall → DirectorySink × Except SinkFault Unit
  | .write path content => d.write path content
  | .makeDirs path => d.makeDirs path

/- The directory after calls, whether they succeed or not. -/
def run (d : DirectorySink) (calls : List SinkCall) :
    DirectorySink :=
  calls.foldl (fun d c => (d.call c).1) d

/- The location of the root. -/
def location (d : DirectorySink) : Location :=
  d.tree.place d.root

------------------------------------------------------------
-- Paths Below the Root
------------------------------------------------------------

theorem resolve_eq_ok
    {full : String}
    (h : d.resolve path = .ok full) :
    Path.staysBelow path = true ∧ full = Path.join d.root path := by
  unfold resolve at h
  split at h
  · next hBelow =>
      cases h
      exact ⟨hBelow, rfl⟩
  · cases h

theorem resolve_eq_error
    {e : SinkFault}
    (h : d.resolve path = .error e) :
    Path.staysBelow path = false ∧ e = .outsideRoot path := by
  unfold resolve at h
  split at h
  · cases h
  · next hNot =>
      cases h
      exact ⟨by simpa using hNot, rfl⟩

theorem resolve_of_leaving
    (d : DirectorySink)
    (h : Path.staysBelow path = false) :
    d.resolve path = .error (.outsideRoot path) := by
  unfold resolve
  rw [h]
  rfl

theorem origin_join
    (hBelow : Path.staysBelow path = true) :
    d.tree.origin (Path.join d.root path) =
      d.tree.origin d.root := by
  unfold FileTree.origin
  rw [Path.isAbsolute_join (Path.staysBelow_iff.mp hBelow).2.1]

/- What stays below names a location below the root. -/
theorem place_join
    (hBelow : Path.staysBelow path = true) :
    d.tree.place (Path.join d.root path) =
      d.location ++ Path.steps path := by
  unfold location FileTree.place
  rw [origin_join hBelow,
    Path.steps_join (Path.staysBelow_iff.mp hBelow).2.1,
    FileTree.walkFrom_append,
    FileTree.walkFrom_of_notMem
      (Path.notMem_steps_of_staysBelow hBelow)]

/- The directories along a path below the root. -/
theorem addsDirs_join
    (hParent : d.tree.hasParentDir d.root = true)
    (hBelow : Path.staysBelow path = true) :
    FileTree.AddsDirs d.location d.tree
      (d.tree.makeDirs (Path.join d.root path)).1 :=
  FileTree.addsDirs_makeDirs hParent (origin_join hBelow)
    (Path.steps_join (Path.staysBelow_iff.mp hBelow).2.1)
    (Path.notMem_steps_of_staysBelow hBelow)

/- The directories that a path below the root stands in. -/
theorem addsDirs_parent
    (hParent : d.tree.hasParentDir d.root = true)
    (hBelow : Path.staysBelow path = true) :
    FileTree.AddsDirs d.location d.tree
      (d.tree.makeDirs
        (Path.parentOf (Path.join d.root path))).1 := by
  have hSteps := Path.steps_parentOf (Path.join d.root path)
  rw [Path.steps_join (Path.staysBelow_iff.mp hBelow).2.1] at hSteps
  have hOrigin := d.tree.origin_parentOf (Path.join d.root path)
  rw [origin_join hBelow] at hOrigin
  rcases hOrigin with hNone | hOrigin
  · rw [FileTree.makeDirs_of_leadsOn (by rw [hNone]; trivial)]
    exact .refl _ _
  by_cases hOwn : Path.steps path = []
  · -- The path is the root itself, whose directory is there.
    rw [hOwn, List.append_nil] at hSteps
    rw [FileTree.makeDirs_of_leadsOn]
    · exact .refl _ _
    · rw [hOrigin, hSteps]
      exact FileTree.leadsOn_of_hasParentDir hParent
  · rw [List.dropLast_append_of_ne_nil hOwn] at hSteps
    apply FileTree.addsDirs_makeDirs hParent hOrigin hSteps
    intro hUp
    exact Path.notMem_steps_of_staysBelow hBelow
      (List.dropLast_subset _ hUp)

------------------------------------------------------------
-- Calls
------------------------------------------------------------

/- The root stays, and nothing but what it holds changes. -/
structure KeepsTo (d e : DirectorySink) : Prop where
  root : e.root = d.root
  grows : FileTree.GrowsBelow d.location d.tree e.tree

theorem KeepsTo.refl (d : DirectorySink) : KeepsTo d d :=
  ⟨rfl, .refl _ _⟩

theorem KeepsTo.location
    {e : DirectorySink}
    (h : KeepsTo d e) : e.location = d.location := by
  unfold DirectorySink.location
  rw [h.root, h.grows.place]

theorem KeepsTo.trans
    {e f : DirectorySink}
    (h : KeepsTo d e)
    (hNext : KeepsTo e f) : KeepsTo d f where
  root := hNext.root.trans h.root
  grows := h.grows.trans (h.location ▸ hNext.grows)

theorem KeepsTo.hasParentDir
    {e : DirectorySink}
    (h : KeepsTo d e)
    (hParent : d.tree.hasParentDir d.root = true) :
    e.tree.hasParentDir e.root = true := by
  rw [h.root]
  exact h.grows.hasParentDir hParent

/- A file that is written is the only one that changes. -/
structure Writes
    (d : DirectorySink)
    (path : String)
    (content : ByteArray)
    (e : DirectorySink) : Prop where
  read :
    e.tree.readBytes (Path.join d.root path) = .ok content
  others :
    ∀ loc, loc ≠ d.tree.place (Path.join d.root path) →
      e.tree.content? loc = d.tree.content? loc

theorem keepsTo_makeDirs
    (hParent : d.tree.hasParentDir d.root = true) :
    KeepsTo d (d.makeDirs path).1 := by
  unfold makeDirs
  split
  · exact .refl d
  · next full hFull =>
      rcases resolve_eq_ok hFull with ⟨hBelow, rfl⟩
      exact ⟨rfl, (addsDirs_join hParent hBelow).toGrowsBelow⟩

theorem outsideRoot_of_makeDirs
    {p : String}
    (h : (d.makeDirs path).2 = .error (.outsideRoot p)) :
    (d.makeDirs path).1 = d ∧ Path.staysBelow path = false := by
  unfold makeDirs at h ⊢
  split
  · next e hFull =>
      exact ⟨rfl, (resolve_eq_error hFull).1⟩
  · next full hFull =>
      rw [hFull] at h
      dsimp only at h
      cases hMade : (d.tree.makeDirs full).2 with
      | error e =>
          rw [hMade] at h
          cases h
      | ok _ =>
          rw [hMade] at h
          cases h

/- The tree with the directories that a file stands in. -/
def treeFor (d : DirectorySink) (path : String) : FileTree :=
  (d.tree.makeDirs (Path.parentOf (Path.join d.root path))).1

/- What can become of a file that is to be written. -/
inductive WriteOutcome
    (d : DirectorySink)
    (path : String)
    (content : ByteArray) :
    DirectorySink × Except SinkFault Unit → Prop where
  | refused :
      Path.staysBelow path = false →
      WriteOutcome d path content
        (d, .error (.outsideRoot path))
  | failed (full : String) :
      Path.staysBelow path = true →
      WriteOutcome d path content
        ({ d with tree := d.treeFor path },
          .error (.failed full))
  | stored (tree : FileTree) :
      Path.staysBelow path = true →
      FileTree.Stores (d.treeFor path) (Path.join d.root path)
        content tree →
      WriteOutcome d path content ({ d with tree }, .ok ())

theorem outcome_of_write
    (d : DirectorySink)
    (path : String)
    (content : ByteArray) :
    WriteOutcome d path content (d.write path content) := by
  unfold write
  cases hFull : d.resolve path with
  | error e =>
      rcases resolve_eq_error hFull with ⟨hNot, rfl⟩
      exact .refused hNot
  | ok full =>
      rcases resolve_eq_ok hFull with ⟨hBelow, rfl⟩
      dsimp only
      split
      · next tree fault hMade =>
          have hTree : tree = d.treeFor path :=
            (congrArg Prod.fst hMade).symm
          rw [hTree]
          exact .failed _ hBelow
      · next tree made hMade =>
          have hTree : tree = d.treeFor path :=
            (congrArg Prod.fst hMade).symm
          rw [hTree]
          split
          · next written hWrite =>
              exact .stored written hBelow
                (FileTree.stores_of_write hWrite)
          · exact .failed _ hBelow

theorem keepsTo_write
    (hParent : d.tree.hasParentDir d.root = true) :
    KeepsTo d (d.write path content).1 := by
  have hOutcome := d.outcome_of_write path content
  revert hOutcome
  generalize d.write path content = result
  intro hOutcome
  cases hOutcome with
  | refused hNot => exact .refl d
  | failed full hBelow =>
      exact ⟨rfl, (addsDirs_parent hParent hBelow).toGrowsBelow⟩
  | stored tree hBelow hStores =>
      have hMade :=
        (addsDirs_parent hParent hBelow).toGrowsBelow
      refine ⟨rfl, hMade.trans (hStores.grows.mono ?_)⟩
      change d.location <+: FileTree.place (d.tree.makeDirs _).1 _
      rw [hMade.place, place_join hBelow]
      exact List.prefix_append _ _

theorem outsideRoot_of_write
    {p : String}
    (h : (d.write path content).2 = .error (.outsideRoot p)) :
    (d.write path content).1 = d ∧ Path.staysBelow path = false := by
  have hOutcome := d.outcome_of_write path content
  revert hOutcome h
  generalize d.write path content = result
  intro h hOutcome
  cases hOutcome with
  | refused hNot => exact ⟨rfl, hNot⟩
  | failed full hBelow => cases h
  | stored tree hBelow hStores => cases h

theorem writes_of_write
    (hParent : d.tree.hasParentDir d.root = true)
    (h : (d.write path content).2 = .ok ()) :
    Writes d path content (d.write path content).1 := by
  have hOutcome := d.outcome_of_write path content
  revert hOutcome h
  generalize d.write path content = result
  intro h hOutcome
  cases hOutcome with
  | refused hNot => cases h
  | failed full hBelow => cases h
  | stored tree hBelow hStores =>
      have hMade := addsDirs_parent hParent hBelow
      have hPlace :
          (d.treeFor path).place (Path.join d.root path) =
            d.tree.place (Path.join d.root path) :=
        hMade.place _
      refine ⟨hStores.read, fun loc hOther => ?_⟩
      rw [← hPlace] at hOther
      exact (hStores.others loc hOther).trans (hMade.files loc)

theorem keepsTo_call
    (hParent : d.tree.hasParentDir d.root = true)
    (c : SinkCall) : KeepsTo d (d.call c).1 := by
  cases c with
  | write path content => exact keepsTo_write hParent
  | makeDirs path => exact keepsTo_makeDirs hParent

theorem outsideRoot_of_call
    {c : SinkCall}
    {p : String}
    (h : (d.call c).2 = .error (.outsideRoot p)) :
    (d.call c).1 = d ∧ Path.staysBelow c.path = false := by
  cases c with
  | write path content => exact outsideRoot_of_write h
  | makeDirs path => exact outsideRoot_of_makeDirs h

/- What would leave the root is refused. -/
theorem call_of_leaving
    {c : SinkCall}
    (h : Path.staysBelow c.path = false) :
    (d.call c).2 = .error (.outsideRoot c.path) := by
  have hRefused := d.resolve_of_leaving h
  cases c with
  | write path content =>
      change d.resolve path = _ at hRefused
      change (d.write path content).2 = _
      unfold write
      rw [hRefused]
  | makeDirs path =>
      change d.resolve path = _ at hRefused
      change (d.makeDirs path).2 = _
      unfold makeDirs
      rw [hRefused]

theorem keepsTo_run
    (hParent : d.tree.hasParentDir d.root = true)
    (calls : List SinkCall) : KeepsTo d (d.run calls) := by
  induction calls generalizing d with
  | nil => exact .refl d
  | cons c calls ih =>
      have hCall := keepsTo_call hParent c
      exact hCall.trans (ih (hCall.hasParentDir hParent))

------------------------------------------------------------
-- Confinement
------------------------------------------------------------

/-
  Where the directory of the root is there, calls change no
  file or directory but the root and what lies below it.  What
  is empty, absolute or goes up is refused, and then nothing
  changes at all.  A file that is written holds what was given,
  while all other files stay as they were.
-/
theorem calls_confined
    (hParent : d.tree.hasParentDir d.root = true)
    (calls : List SinkCall) :
    (∀ loc, d.tree.follow d.root = .ok loc → loc = d.location)
      ∧ (∀ loc, ¬d.location <+: loc →
        FileTree.entry? (d.run calls).tree loc =
          d.tree.entry? loc)
      ∧ (∀ c,
        (∃ p, ((d.run calls).call c).2 = .error (.outsideRoot p)) ↔
          c.path = "" ∨ Path.isAbsolute c.path = true
            ∨ ".." ∈ Path.segments c.path)
      ∧ (∀ c p,
        ((d.run calls).call c).2 = .error (.outsideRoot p) →
          ((d.run calls).call c).1 = d.run calls)
      ∧ ∀ path content,
        ((d.run calls).write path content).2 = .ok () →
          Writes (d.run calls) path content
            ((d.run calls).write path content).1 := by
  have hRun := keepsTo_run hParent calls
  refine ⟨fun loc => FileTree.eq_place_of_follow,
    hRun.grows.outside, fun c => ?_,
    fun c p h => (outsideRoot_of_call h).1, ?_⟩
  · have hLeaves :
        Path.staysBelow c.path = false ↔
          c.path = "" ∨ Path.isAbsolute c.path = true
            ∨ ".." ∈ Path.segments c.path := by
      rw [← Bool.not_eq_true, Path.staysBelow_iff, not_and_or,
        not_and_or, not_not, not_not, Bool.not_eq_false]
    rw [← hLeaves]
    exact ⟨fun ⟨p, h⟩ => (outsideRoot_of_call h).2,
      fun h => ⟨c.path, call_of_leaving h⟩⟩
  · exact fun path content =>
      writes_of_write (hRun.hasParentDir hParent)

/- A directory beside a note, and what is asked of it. -/
def outSink : DirectorySink where
  root := "out"
  tree := {
    home := ["w"]
    entries := [
      (["w"], .directory),
      (["w", "note"], .file "kept".toUTF8)] }

def outCalls : List SinkCall := [
  .write "b//c.ts" "one".toUTF8,
  .write "../note" "lost".toUTF8,
  .write "/w/note" "lost".toUTF8,
  .makeDirs "d/./e",
  .makeDirs "b/c.ts"]

/- A file is written again under another spelling. -/
theorem calls_confined_out :
    outSink.tree.hasParentDir outSink.root = true
      ∧ (outSink.run outCalls).tree.content? ["w", "note"] =
        some "kept".toUTF8
      ∧ ((outSink.run outCalls).write "./b/c.ts"
        "two".toUTF8).2 = .ok ()
      ∧ ((outSink.run outCalls).write "./b/c.ts"
          "two".toUTF8).1.tree.readBytes
            (Path.join "out" "./b/c.ts") = .ok "two".toUTF8 := by
  have hParent : outSink.tree.hasParentDir outSink.root = true :=
    rfl
  have hWritten :
      ((outSink.run outCalls).write "./b/c.ts"
        "two".toUTF8).2 = .ok () := by
    decide +kernel
  rcases calls_confined hParent outCalls with
    ⟨-, hOutside, -, -, hWrites⟩
  have hNote : ¬outSink.location <+: ["w", "note"] := by
    decide +kernel
  refine ⟨hParent, ?_, hWritten, ?_⟩
  · unfold FileTree.content?
    rw [hOutside _ hNote]
    rfl
  · have hRun : (outSink.run outCalls).root = "out" :=
      (keepsTo_run hParent outCalls).root
    rw [← hRun]
    exact (hWrites _ _ hWritten).read

end DirectorySink

end WireSchema
