import Mathlib.Data.List.Infix
import WireSchema.FileTree.Basic
import WireSchema.Proofs.FileTree.Steps
import WireSchema.Proofs.Outcome

/-
  What changes in a tree when directories are made and files
  are written.

  A path names one location, whatever is there.  Making the
  directories along a path keeps all files, and a file that is
  written is the only one that changes.  Where a path leads
  through directories that are there, nothing is made.

  Key definitions include:
    * `FileTree.walkFrom`, `FileTree.place`
    * `FileTree.GrowsBelow`, `FileTree.AddsDirs`
    * `FileTree.hasParentDir`
    * `FileTree.addsDirs_makeDirs`
    * `FileTree.write_eq_ok`
-/

namespace WireSchema

namespace FileTree

variable {t u v : FileTree}
variable {top dir loc : Location}
variable {path : String}

------------------------------------------------------------
-- Places
------------------------------------------------------------

/- Where a step leads, whatever is there. -/
def stepFrom (dir : Location) (s : String) : Location :=
  if s == ".." then leave dir else dir ++ [s]

def walkFrom (dir : Location) (steps : List String) : Location :=
  steps.foldl stepFrom dir

/- The location that a path names. -/
def place (t : FileTree) (path : String) : Location :=
  walkFrom (t.origin path) (Path.steps path)

theorem walkFrom_cons (s : String) (rest : List String) :
    walkFrom dir (s :: rest) = walkFrom (stepFrom dir s) rest :=
  rfl

theorem walkFrom_append (a b : List String) :
    walkFrom dir (a ++ b) = walkFrom (walkFrom dir a) b :=
  List.foldl_append

theorem stepFrom_of_ne {s : String} (h : s ≠ "..") :
    stepFrom dir s = dir ++ [s] :=
  if_neg (by simpa using h)

/- Steps that never go up lead straight down. -/
theorem walkFrom_of_notMem
    {steps : List String}
    (h : ".." ∉ steps) : walkFrom dir steps = dir ++ steps := by
  induction steps generalizing dir with
  | nil => exact (List.append_nil dir).symm
  | cons s rest ih =>
      rw [List.mem_cons, not_or] at h
      rw [walkFrom_cons, stepFrom_of_ne (Ne.symm h.1), ih h.2,
        List.append_assoc, List.singleton_append]

------------------------------------------------------------
-- Following
------------------------------------------------------------

/- Whether anything is at a location. -/
def hasEntry (t : FileTree) (loc : Location) : Bool :=
  Option.isSome <| t.entry? loc

theorem hasDir_of_followFrom
    {s : String}
    {rest : List String}
    (h : t.followFrom dir (s :: rest) = .ok loc) :
    t.hasDir dir = true := by
  unfold followFrom at h
  split at h
  · cases h
  · next hDir => simpa using hDir

/- A step that can be followed leads to what is there. -/
theorem enter_eq_ok
    {name : String}
    (h : t.enter dir name = .ok loc) :
    loc = dir ++ [name] ∧ name.utf8ByteSize ≤ maxNameBytes
      ∧ t.hasEntry loc = true := by
  unfold enter at h
  split at h
  · cases h
  · next hShort =>
      split at h
      · next e hEntry =>
          cases h
          refine ⟨rfl, Nat.not_lt.mp hShort, ?_⟩
          unfold hasEntry
          rw [hEntry]
          rfl
      · cases h

/- What is followed leads to the location that is named. -/
theorem eq_walkFrom_of_followFrom
    {segments : List String}
    (h : t.followFrom dir segments = .ok loc) :
    loc = walkFrom dir (Path.stepsAmong segments) := by
  induction segments generalizing dir with
  | nil =>
      cases h
      rfl
  | cons s rest ih =>
      unfold followFrom at h
      split at h
      · cases h
      · split at h
        · next hIdle =>
            rw [Path.stepsAmong_of_idle hIdle]
            exact ih h
        · next hStep =>
            rw [Path.stepsAmong_of_not_idle hStep, walkFrom_cons]
            split at h
            · next hUp =>
                unfold stepFrom
                rw [if_pos hUp]
                exact ih h
            · next hDown =>
                rcases eq_ok_of_bind h with ⟨next, hEnter, h⟩
                unfold stepFrom
                rw [if_neg hDown, ← (enter_eq_ok hEnter).1]
                exact ih h

theorem eq_place_of_follow (h : t.follow path = .ok loc) :
    loc = t.place path := by
  unfold follow at h
  split at h
  · cases h
  · split at h
    · cases h
    · exact eq_walkFrom_of_followFrom h

theorem followFrom_append
    (a b : List String) :
    t.followFrom dir (a ++ b) =
      t.followFrom dir a >>= fun next => t.followFrom next b := by
  induction a generalizing dir with
  | nil => rfl
  | cons s rest ih =>
      rw [List.cons_append, followFrom, followFrom]
      split
      · rfl
      · split
        · exact ih
        · split
          · exact ih
          · cases t.enter dir s with
            | error e => rfl
            | ok next => exact ih

------------------------------------------------------------
-- Growing Trees
------------------------------------------------------------

/- What an entry holds; a directory holds no bytes. -/
def contentOf? : Entry → Option ByteArray
  | .file content => some content
  | .directory => none

/- The content of the file at a location. -/
def content? (t : FileTree) (loc : Location) : Option ByteArray :=
  t.entry? loc >>= contentOf?

/-
  What is kept when a tree grows below a location: nothing
  outside of it changes, nothing is taken away, and what is a
  directory stays one.
-/
structure GrowsBelow (top : Location) (t u : FileTree) : Prop where
  home : u.home = t.home
  found :
    ∀ loc, t.hasEntry loc = true → u.hasEntry loc = true
  dirs : ∀ loc, t.hasDir loc = true → u.hasDir loc = true
  outside : ∀ loc, ¬top <+: loc → u.entry? loc = t.entry? loc

/- Only directories are new. -/
structure AddsDirs (top : Location) (t u : FileTree) : Prop
    extends GrowsBelow top t u where
  files : ∀ loc, u.content? loc = t.content? loc

theorem GrowsBelow.refl (top : Location) (t : FileTree) :
    GrowsBelow top t t :=
  ⟨rfl, fun _ h => h, fun _ h => h, fun _ _ => rfl⟩

theorem GrowsBelow.trans
    (h : GrowsBelow top t u)
    (hNext : GrowsBelow top u v) : GrowsBelow top t v where
  home := hNext.home.trans h.home
  found := fun loc hFound => hNext.found loc (h.found loc hFound)
  dirs := fun loc hDir => hNext.dirs loc (h.dirs loc hDir)
  outside := fun loc hOut =>
    (hNext.outside loc hOut).trans (h.outside loc hOut)

theorem GrowsBelow.mono
    (h : GrowsBelow loc t u)
    (hTop : top <+: loc) : GrowsBelow top t u where
  home := h.home
  found := h.found
  dirs := h.dirs
  outside := fun other hOut =>
    h.outside other fun hBelow => hOut (hTop.trans hBelow)

theorem AddsDirs.refl (top : Location) (t : FileTree) :
    AddsDirs top t t :=
  ⟨.refl top t, fun _ => rfl⟩

theorem AddsDirs.trans
    (h : AddsDirs top t u)
    (hNext : AddsDirs top u v) : AddsDirs top t v :=
  ⟨h.toGrowsBelow.trans hNext.toGrowsBelow,
    fun loc => (hNext.files loc).trans (h.files loc)⟩

/- What is put into a directory is found, and all else is kept. -/
theorem entry_put
    (t : FileTree)
    (e : Entry)
    (dir : Location)
    (name : String)
    (other : Location) :
    FileTree.entry? (t.put (dir ++ [name]) e) other =
      if other = dir ++ [name] then some e else t.entry? other := by
  unfold entry? put
  by_cases hSame : other = dir ++ [name]
  · rw [if_pos hSame, hSame, if_neg (by simp)]
    exact lookup_putEntry_self _ e _
  · rw [if_neg hSame]
    dsimp only
    rw [lookup_putEntry_ne hSame]

/- A directory is not overwritten when something is put. -/
theorem growsBelow_put
    {e : Entry}
    {name : String}
    (hTop : top <+: dir ++ [name])
    (hNew : t.hasDir (dir ++ [name]) = false) :
    GrowsBelow top t (t.put (dir ++ [name]) e) where
  home := rfl
  found := by
    intro loc hFound
    unfold hasEntry at hFound ⊢
    rw [entry_put]
    split
    · rfl
    · exact hFound
  dirs := by
    intro loc hDir
    have hOther : loc ≠ dir ++ [name] := by
      rintro rfl
      rw [hNew] at hDir
      cases hDir
    unfold hasDir at hDir ⊢
    rwa [entry_put, if_neg hOther]
  outside := by
    intro loc hOut
    have hOther : loc ≠ dir ++ [name] := by
      rintro rfl
      exact hOut hTop
    rw [entry_put, if_neg hOther]

------------------------------------------------------------
-- Making Directories
------------------------------------------------------------

theorem addsDirs_makeDir
    {name : String}
    (hTop : top <+: dir ++ [name])
    (h : t.makeDir dir name = .ok u) : AddsDirs top t u := by
  unfold makeDir at h
  split at h
  · cases h
  · split at h
    · cases h
      exact .refl top t
    · cases h
    · next hNone =>
        cases h
        have hNew : t.hasDir (dir ++ [name]) = false := by
          unfold hasDir
          rw [hNone]
        refine ⟨growsBelow_put hTop hNew, ?_⟩
        intro loc
        unfold content?
        rw [entry_put]
        by_cases hSame : loc = dir ++ [name]
        · rw [if_pos hSame, hSame, hNone]
          rfl
        · rw [if_neg hSame]

/- Segments that lead nowhere are passed over. -/
theorem makeDirsFrom_eq (segments : List String) :
    t.makeDirsFrom dir segments =
      t.makeDirsFrom dir (Path.stepsAmong segments) := by
  induction segments generalizing t dir with
  | nil => rfl
  | cons s rest ih =>
      by_cases hIdle : (s == "" || s == ".") = true
      · rw [Path.stepsAmong_of_idle hIdle, ← ih, makeDirsFrom,
          if_pos hIdle]
      · rw [Path.stepsAmong_of_not_idle hIdle, makeDirsFrom,
          makeDirsFrom, if_neg hIdle, if_neg hIdle]
        split
        · exact ih
        · cases t.makeDir dir s with
          | error e => rfl
          | ok u => exact ih

/- Steps that never go up make directories where they start. -/
theorem addsDirs_makeDirsFrom
    {segments : List String}
    (hTop : top <+: dir)
    (hDown : ".." ∉ segments) :
    AddsDirs top t (t.makeDirsFrom dir segments).1 := by
  induction segments generalizing t dir with
  | nil => exact .refl top t
  | cons s rest ih =>
      rw [List.mem_cons, not_or] at hDown
      unfold makeDirsFrom
      split
      · exact ih hTop hDown.2
      · rw [if_neg (by simpa using Ne.symm hDown.1)]
        have hBelow : top <+: dir ++ [s] :=
          hTop.trans (List.prefix_append dir [s])
        cases hMake : t.makeDir dir s with
        | error e => exact .refl top t
        | ok u =>
            exact (addsDirs_makeDir hBelow hMake).trans
              (ih hBelow hDown.2)

/- One step first, which may go up. -/
theorem addsDirs_makeDirsFrom_cons
    {s : String}
    {rest : List String}
    (hStep : Path.isIdle s = false)
    (hTop : top <+: stepFrom dir s)
    (hDown : ".." ∉ rest) :
    AddsDirs top t (t.makeDirsFrom dir (s :: rest)).1 := by
  have hStep : ¬(s == "" || s == ".") = true := by
    simpa [Path.isIdle] using hStep
  unfold makeDirsFrom
  unfold stepFrom at hTop
  rw [if_neg hStep]
  split
  · next hUp =>
      rw [if_pos hUp] at hTop
      exact addsDirs_makeDirsFrom hTop hDown
  · next hNotUp =>
      rw [if_neg hNotUp] at hTop
      cases hMake : t.makeDir dir s with
      | error e => exact .refl top t
      | ok u =>
          exact (addsDirs_makeDir hTop hMake).trans
            (addsDirs_makeDirsFrom hTop hDown)

------------------------------------------------------------
-- Directories That Are There
------------------------------------------------------------

/- Steps along which no directory has to be made. -/
def LeadsOn (t : FileTree) : Location → List String → Prop
  | _, [] => True
  | dir, s :: rest =>
      (s ≠ ".." → t.makeDir dir s = .ok t)
        ∧ LeadsOn t (stepFrom dir s) rest

theorem makeDirsFrom_append
    {a : List String}
    (hSteps : ∀ s ∈ a, Path.isIdle s = false)
    (h : t.LeadsOn dir a)
    (b : List String) :
    t.makeDirsFrom dir (a ++ b) =
      t.makeDirsFrom (walkFrom dir a) b := by
  induction a generalizing dir with
  | nil => rfl
  | cons s rest ih =>
      rw [List.forall_mem_cons] at hSteps
      have hStep : ¬(s == "" || s == ".") = true := by
        simpa [Path.isIdle] using hSteps.1
      rw [List.cons_append, makeDirsFrom, if_neg hStep,
        walkFrom_cons, ← ih hSteps.2 h.2]
      unfold stepFrom
      split
      · rfl
      · next hNotUp =>
          rw [h.1 (by simpa using hNotUp)]

/- What can be followed to a directory is there. -/
theorem leadsOn_of_followFrom
    {segments : List String}
    (h : t.followFrom dir segments = .ok loc)
    (hDir : t.hasDir loc = true) :
    t.LeadsOn dir (Path.stepsAmong segments) := by
  induction segments generalizing dir with
  | nil => trivial
  | cons s rest ih =>
      unfold followFrom at h
      split at h
      · cases h
      · split at h
        · next hIdle =>
            rw [Path.stepsAmong_of_idle hIdle]
            exact ih h
        · next hStep =>
            rw [Path.stepsAmong_of_not_idle hStep]
            split at h
            · next hUp =>
                refine ⟨fun hNot => absurd (by simpa using hUp) hNot,
                  ?_⟩
                unfold stepFrom
                rw [if_pos hUp]
                exact ih h
            · next hDown =>
                rcases eq_ok_of_bind h with ⟨next, hEnter, h⟩
                rcases enter_eq_ok hEnter with ⟨rfl, hShort, -⟩
                have hThere : t.hasDir (dir ++ [s]) = true := by
                  cases rest with
                  | nil =>
                      cases h
                      exact hDir
                  | cons s' rest => exact hasDir_of_followFrom h
                constructor
                · intro _
                  unfold makeDir
                  unfold hasDir at hThere
                  rw [if_neg (Nat.not_lt.mpr hShort)]
                  split at hThere
                  · next hEntry => rw [hEntry]
                  · cases hThere
                · unfold stepFrom
                  rw [if_neg hDown]
                  exact ih h

/-
  Whether the directory that a path stands in is there.  A
  single name stands in the working directory.
-/
def hasParentDir (t : FileTree) (path : String) : Bool :=
  (Path.parentOf path).isEmpty || t.isDir (Path.parentOf path)

theorem exists_followFrom_of_isDir (h : t.isDir path = true) :
    ∃ loc,
      t.followFrom (t.origin path) (Path.segments path) = .ok loc
        ∧ t.hasDir loc = true := by
  unfold isDir at h
  split at h
  · next loc hFollow =>
      unfold follow at hFollow
      split at hFollow
      · cases hFollow
      · split at hFollow
        · cases hFollow
        · exact ⟨loc, hFollow, h⟩
  · cases h

theorem origin_parentOf (t : FileTree) (path : String) :
    Path.steps (Path.parentOf path) = []
      ∨ t.origin (Path.parentOf path) = t.origin path := by
  unfold origin
  rcases Path.isAbsolute_parentOf path with hNone | hSame
  · exact .inl hNone
  · exact .inr (by rw [hSame])

/- All steps of a path but the last lead to directories. -/
theorem leadsOn_of_hasParentDir (h : t.hasParentDir path = true) :
    t.LeadsOn (t.origin path) (Path.steps path).dropLast := by
  unfold hasParentDir at h
  rw [Bool.or_eq_true] at h
  rw [← Path.steps_parentOf]
  rcases t.origin_parentOf path with hNone | hOrigin
  · rw [hNone]
    trivial
  · rcases h with hEmpty | hDir
    · rw [String.isEmpty_iff.mp hEmpty]
      trivial
    · rcases exists_followFrom_of_isDir hDir with
        ⟨loc, hFollow, hLoc⟩
      rw [← hOrigin]
      exact leadsOn_of_followFrom hFollow hLoc

theorem not_idle_of_mem_steps
    {s : String}
    (h : s ∈ Path.steps path) : Path.isIdle s = false := by
  have hStep := (List.mem_filter.mp h).2
  simpa using hStep

/-
  Below a place whose directory is there, only the place
  itself and what lies below it is made.
-/
theorem addsDirs_makeDirs
    {root : String}
    {below : List String}
    (hParent : t.hasParentDir root = true)
    (hOrigin : t.origin path = t.origin root)
    (hSteps : Path.steps path = Path.steps root ++ below)
    (hDown : ".." ∉ below) :
    AddsDirs (t.place root) t (t.makeDirs path).1 := by
  have hLeads := leadsOn_of_hasParentDir hParent
  unfold makeDirs
  split
  · exact .refl _ t
  rw [makeDirsFrom_eq, hOrigin]
  change AddsDirs _ t (t.makeDirsFrom _ (Path.steps path)).1
  rw [hSteps]
  unfold place
  -- The last step of the root is the first one that may be new.
  rcases List.eq_nil_or_concat' (Path.steps root) with
    hNone | ⟨front, last, hSplit⟩
  · rw [hNone, List.nil_append]
    exact addsDirs_makeDirsFrom (List.prefix_refl _) hDown
  · have hIdle : ∀ s ∈ front ++ [last], Path.isIdle s = false := by
      rw [← hSplit]
      exact fun s hs => not_idle_of_mem_steps hs
    rw [List.forall_mem_append] at hIdle
    rw [hSplit, List.dropLast_concat] at hLeads
    rw [hSplit, List.append_assoc, List.singleton_append,
      makeDirsFrom_append hIdle.1 hLeads, walkFrom_append]
    exact addsDirs_makeDirsFrom_cons
      (hIdle.2 last (List.mem_singleton_self last))
      (List.prefix_refl _) hDown

/- The directory of a path is not made where it is there. -/
theorem makeDirs_of_leadsOn
    (h : t.LeadsOn (t.origin path) (Path.steps path)) :
    (t.makeDirs path).1 = t := by
  unfold makeDirs
  split
  · rfl
  · have hIdle : ∀ s ∈ Path.steps path, Path.isIdle s = false :=
      fun s hs => not_idle_of_mem_steps hs
    have hMade := makeDirsFrom_append hIdle h []
    rw [List.append_nil] at hMade
    rw [makeDirsFrom_eq]
    change (t.makeDirsFrom _ (Path.steps path)).1 = t
    rw [hMade]
    rfl

------------------------------------------------------------
-- Writing
------------------------------------------------------------

/- A name that something can be written under. -/
structure IsFileName (name : String) : Prop where
  step : Path.isIdle name = false
  down : name ≠ ".."
  short : name.utf8ByteSize ≤ maxNameBytes

/- What can be followed can be followed in a grown tree. -/
theorem GrowsBelow.followFrom
    {segments : List String}
    (h : GrowsBelow top t u)
    (hFollow : t.followFrom dir segments = .ok loc) :
    u.followFrom dir segments = .ok loc := by
  induction segments generalizing dir with
  | nil => exact hFollow
  | cons s rest ih =>
      have hDir := h.dirs dir (hasDir_of_followFrom hFollow)
      unfold FileTree.followFrom at hFollow ⊢
      rw [hDir]
      split at hFollow
      · cases hFollow
      · rw [if_neg (by simp)]
        split
        · next hIdle =>
            rw [if_pos hIdle] at hFollow
            exact ih hFollow
        · next hStep =>
            rw [if_neg hStep] at hFollow
            split
            · next hUp =>
                rw [if_pos hUp] at hFollow
                exact ih hFollow
            · next hDown =>
                rw [if_neg hDown] at hFollow
                rcases eq_ok_of_bind hFollow with
                  ⟨next, hEnter, hFollow⟩
                rcases enter_eq_ok hEnter with ⟨rfl, hShort, hFound⟩
                have hEnter : u.enter dir s = .ok (dir ++ [s]) := by
                  unfold enter
                  rw [if_neg (Nat.not_lt.mpr hShort)]
                  rcases Option.isSome_iff_exists.mp
                    (h.found _ hFound) with ⟨e, hEntry⟩
                  rw [hEntry]
                rw [hEnter]
                exact ih hFollow

theorem GrowsBelow.origin
    (h : GrowsBelow top t u)
    (path : String) : u.origin path = t.origin path := by
  unfold FileTree.origin
  rw [h.home]

theorem GrowsBelow.place
    (h : GrowsBelow top t u)
    (path : String) : u.place path = t.place path := by
  unfold FileTree.place
  rw [h.origin]

theorem GrowsBelow.hasParentDir
    (h : GrowsBelow top t u)
    (hParent : t.hasParentDir path = true) :
    u.hasParentDir path = true := by
  unfold FileTree.hasParentDir at hParent ⊢
  rw [Bool.or_eq_true] at hParent ⊢
  refine hParent.imp_right fun hDir => ?_
  unfold isDir at hDir ⊢
  unfold follow at hDir ⊢
  split at hDir
  · next loc hFollow =>
      split at hFollow
      · cases hFollow
      · next hFree =>
          split at hFollow
          · cases hFollow
          · next hSome =>
              rw [if_neg hFree, if_neg hSome, h.origin,
                h.followFrom hFollow]
              exact h.dirs loc hDir
  · cases hDir

/-
  A file is written under the last segment of its path, into
  the directory that the others lead to.
-/
theorem write_eq_ok
    {content : ByteArray}
    (h : t.write path content = .ok u) :
    ∃ dir name,
      (Path.segments path).getLast? = some name
        ∧ IsFileName name
        ∧ isBarred path = false
        ∧ t.followFrom (t.origin path)
          (Path.segments path).dropLast = .ok dir
        ∧ t.hasDir dir = true
        ∧ t.hasDir (dir ++ [name]) = false
        ∧ u = t.put (dir ++ [name]) (.file content) := by
  unfold write at h
  dsimp only at h
  split at h
  · cases h
  next hName =>
  simp only [Bool.or_eq_true, decide_eq_true_eq, not_or] at hName
  rcases hName with ⟨⟨⟨⟨hFree, hSome⟩, hDot⟩, hUp⟩, hShort⟩
  rcases eq_ok_of_bind h with ⟨dir, hFollow, h⟩
  split at h
  · cases h
  next hDirs =>
  cases h
  rw [Bool.or_eq_true, not_or] at hDirs
  have hLast : (Path.segments path).getLast? =
      some ((Path.segments path).getLast?.getD "") := by
    cases hLast : (Path.segments path).getLast? with
    | none =>
        rw [hLast] at hSome
        exact absurd rfl hSome
    | some name => rfl
  refine ⟨dir, _, hLast, ⟨?_, ?_, ?_⟩, ?_, hFollow, ?_, ?_, rfl⟩
  · unfold Path.isIdle
    simp [hSome, hDot]
  · simpa using hUp
  · exact Nat.not_lt.mp hShort
  · simpa using hFree
  · simpa using hDirs.1
  · simpa using hDirs.2

/- What a written file changes, and what it does not. -/
structure Stores
    (t : FileTree)
    (path : String)
    (content : ByteArray)
    (u : FileTree) : Prop where
  grows : GrowsBelow (t.place path) t u
  read : u.readBytes path = .ok content
  others :
    ∀ loc, loc ≠ t.place path → u.content? loc = t.content? loc

theorem stores_of_write
    {content : ByteArray}
    (h : t.write path content = .ok u) :
    Stores t path content u := by
  rcases write_eq_ok h with
    ⟨dir, name, hLast, hName, hFree, hFollow, hDir, hNew, rfl⟩
  have hSplit := List.dropLast_append_getLast? name hLast
  have hStep : ¬(name == "" || name == ".") = true := by
    simpa [Path.isIdle] using hName.step
  have hDown : ¬(name == "..") = true := by
    simpa using hName.down
  have hPlace : t.place path = dir ++ [name] := by
    unfold place Path.steps
    rw [← hSplit, Path.stepsAmong_append, walkFrom_append,
      ← eq_walkFrom_of_followFrom hFollow,
      Path.stepsAmong_of_not_idle hStep]
    exact if_neg hDown
  have hGrows : GrowsBelow (dir ++ [name]) t
      (t.put (dir ++ [name]) (.file content)) :=
    growsBelow_put (List.prefix_refl _) hNew
  refine ⟨hPlace ▸ hGrows, ?_, ?_⟩
  · have hEntry := t.entry_put (.file content) dir name
      (dir ++ [name])
    rw [if_pos rfl] at hEntry
    have hEnter : (t.put (dir ++ [name]) (.file content)).enter dir
        name = .ok (dir ++ [name]) := by
      unfold enter
      rw [if_neg (Nat.not_lt.mpr hName.short), hEntry]
    have hFollowed : (t.put (dir ++ [name]) (.file content)).follow
        path = .ok (dir ++ [name]) := by
      have hSome : ¬path.isEmpty = true := by
        intro hEmpty
        rw [String.isEmpty_iff.mp hEmpty] at hLast
        cases hLast
        exact hStep rfl
      unfold follow
      rw [if_neg (by simp [hFree]), if_neg hSome, hGrows.origin,
        ← hSplit, followFrom_append, hGrows.followFrom hFollow]
      change FileTree.followFrom _ dir [name] = _
      rw [FileTree.followFrom, hGrows.dirs dir hDir,
        if_neg (by simp), if_neg hStep, if_neg hDown, hEnter]
      rfl
    unfold readBytes
    rw [hFollowed]
    dsimp only [bind, Except.bind]
    rw [hEntry]
  · intro loc hOther
    rw [hPlace] at hOther
    unfold content?
    rw [entry_put, if_neg hOther]

end FileTree

end WireSchema
