import WireSchema.FileTree.Path
import WireSchema.Schema.Name

/-
  A tree of files and directories, and a working directory.

  Every entry is known by its location, the names from the
  root down.  A path is followed segment by segment; it has
  to go through directories that are there.

  Key definitions include:
    * `FileTree`, `FileTree.entry?`
    * `FileTree.withHome`
    * `FileTree.follow`
    * `FileTree.readText`, `FileTree.names`
    * `FileTree.makeDirs`, `FileTree.write`
-/

namespace WireSchema

/- The names on the way from the root. -/
abbrev Location := List String

inductive Entry where
  | file (content : ByteArray)
  | directory

/-
  Relative paths start at `home`.  Of two entries of one
  location the first counts.
-/
structure FileTree where
  home : Location := []
  entries : List (Location × Entry) := []
  deriving Inhabited

/- Why a path cannot be followed. -/
inductive PathFault where
  | missing
  | unusable
  deriving DecidableEq, Repr

namespace FileTree

------------------------------------------------------------
-- Entries
------------------------------------------------------------

/- The entry at a location; the root is a directory. -/
def entry? (t : FileTree) (loc : Location) : Option Entry :=
  if loc.isEmpty then some .directory
  else t.entries.lookup loc

def hasDir (t : FileTree) (loc : Location) : Bool :=
  match t.entry? loc with
  | some .directory => true
  | _ => false

/- Put an entry at a location, in place of one there. -/
def putEntry
    (loc : Location)
    (e : Entry) :
    List (Location × Entry) → List (Location × Entry)
  | [] => [(loc, e)]
  | p :: rest =>
      if p.1 = loc then (loc, e) :: rest
      else p :: putEntry loc e rest

def put (t : FileTree) (loc : Location) (e : Entry) :
    FileTree :=
  { t with entries := putEntry loc e t.entries }

/- What is put at a location is found there. -/
theorem lookup_putEntry_self
    (loc : Location)
    (e : Entry)
    (entries : List (Location × Entry)) :
    (putEntry loc e entries).lookup loc = some e := by
  induction entries with
  | nil => simp [putEntry]
  | cons p rest ih =>
      obtain ⟨k, v⟩ := p
      by_cases h : k = loc
      · simp [putEntry, h]
      · have h' : (loc == k) = false := by
          simpa using fun heq => h heq.symm
        simp [putEntry, h, List.lookup_cons, h', ih]

/- Nothing else changes when an entry is put. -/
theorem lookup_putEntry_ne
    {loc other : Location}
    (hne : other ≠ loc)
    (e : Entry)
    (entries : List (Location × Entry)) :
    (putEntry loc e entries).lookup other
      = entries.lookup other := by
  induction entries with
  | nil =>
      have h : (other == loc) = false := by simpa using hne
      simp [putEntry, List.lookup_cons, h]
  | cons p rest ih =>
      obtain ⟨k, v⟩ := p
      by_cases h : k = loc
      · have h' : (other == loc) = false := by simpa using hne
        simp [putEntry, h, List.lookup_cons, h']
      · simp only [putEntry, h, if_false, List.lookup_cons, ih]

------------------------------------------------------------
-- Following Paths
------------------------------------------------------------

/- Names that are too long are never found. -/
def maxNameBytes : Nat := 255

/- One step from a directory into one of its entries. -/
def enter (t : FileTree) (dir : Location) (name : String) :
    Except PathFault Location :=
  if maxNameBytes < name.utf8ByteSize then .error .unusable
  else
    match t.entry? (dir ++ [name]) with
    | some _ => .ok (dir ++ [name])
    | none => .error .missing

/- One step up; above the root there is the root. -/
def leave (dir : Location) : Location :=
  dir.dropLast

/- Follow segments; all but the last lead to directories. -/
def followFrom (t : FileTree) :
    Location → List String → Except PathFault Location
  | dir, [] => .ok dir
  | dir, s :: rest =>
      if !t.hasDir dir then .error .unusable
      else if s == "" || s == "." then followFrom t dir rest
      else if s == ".." then followFrom t (leave dir) rest
      else do
        followFrom t (← t.enter dir s) rest

/- Where the way along a path begins. -/
def origin (t : FileTree) (path : String) : Location :=
  if Path.isAbsolute path then [] else t.home

/- Paths that are longer lead nowhere. -/
def maxPathBytes : Nat := 4095

/- Whether a path cannot be followed whatever is there. -/
def isBarred (path : String) : Bool :=
  path.toList.contains '\x00'
    || maxPathBytes < path.utf8ByteSize

/- The location that a path leads to. -/
def follow (t : FileTree) (path : String) :
    Except PathFault Location :=
  if isBarred path then .error .unusable
  else if path.isEmpty then .error .missing
  else t.followFrom (t.origin path) (Path.segments path)

def isDir (t : FileTree) (path : String) : Bool :=
  match t.follow path with
  | .ok loc => t.hasDir loc
  | .error _ => false

def isFile (t : FileTree) (path : String) : Bool :=
  match t.follow path with
  | .ok loc => !t.hasDir loc
  | .error _ => false

------------------------------------------------------------
-- Reading
------------------------------------------------------------

def readBytes (t : FileTree) (path : String) :
    Except PathFault ByteArray := do
  let loc ← t.follow path
  match t.entry? loc with
  | some (.file content) => .ok content
  | _ => .error .unusable

/- The text of a file, if its bytes are one. -/
def readText (t : FileTree) (path : String) :
    Except PathFault String := do
  match String.fromUTF8? (← t.readBytes path) with
  | some text => .ok text
  | none => .error .unusable

/- The names of the entries of a directory, in order. -/
def names (t : FileTree) (path : String) :
    Except PathFault (List String) := do
  let dir ← t.follow path
  if t.hasDir dir then
    let inside := t.entries.filterMap fun p =>
      match p.1.getLast? with
      | some name =>
          if p.1.dropLast == dir then some name else none
      | none => none
    .ok (sortTexts inside)
  else .error .unusable

------------------------------------------------------------
-- Writing
------------------------------------------------------------

/- One step into a directory that is made if missing. -/
def makeDir (t : FileTree) (dir : Location) (name : String) :
    Except PathFault FileTree :=
  if maxNameBytes < name.utf8ByteSize then .error .unusable
  else
    match t.entry? (dir ++ [name]) with
    | some .directory => .ok t
    | some (.file _) => .error .unusable
    | none => .ok (t.put (dir ++ [name]) .directory)

/-
  Make the directories along segments.  What was made before
  a fault stays.
-/
def makeDirsFrom (t : FileTree) :
    Location → List String → FileTree × Except PathFault Unit
  | _, [] => (t, .ok ())
  | dir, s :: rest =>
      if s == "" || s == "." then makeDirsFrom t dir rest
      else if s == ".." then makeDirsFrom t (leave dir) rest
      else
        match t.makeDir dir s with
        | .ok t => makeDirsFrom t (dir ++ [s]) rest
        | .error e => (t, .error e)

/- Make the directories along a path. -/
def makeDirs (t : FileTree) (path : String) :
    FileTree × Except PathFault Unit :=
  if isBarred path then (t, .error .unusable)
  else t.makeDirsFrom (t.origin path) (Path.segments path)

/- The tree with a working directory, made if missing. -/
def withHome (t : FileTree) (home : Location) : FileTree :=
  { (t.makeDirsFrom [] home).1 with home }

/-
  Write a file into a directory that is there.  What names a
  directory cannot be written.
-/
def write (t : FileTree) (path : String) (content : ByteArray) :
    Except PathFault FileTree := do
  let segments := Path.segments path
  let name := segments.getLast?.getD ""
  if isBarred path
      || name == "" || name == "." || name == ".."
      || maxNameBytes < name.utf8ByteSize then
    .error .unusable
  else do
    let dir ← t.followFrom (t.origin path) segments.dropLast
    if !t.hasDir dir || t.hasDir (dir ++ [name]) then
      .error .unusable
    else .ok (t.put (dir ++ [name]) (.file content))

/- Write a file and make the directories it stands in. -/
def plant (t : FileTree) (path : String) (content : ByteArray) :
    FileTree :=
  let t := (t.makeDirs ((Path.parent? path).getD "")).1
  match t.write path content with
  | .ok t => t
  | .error _ => t

/- The files below a location, by their names from there. -/
def filesBelow (t : FileTree) (dir : Location) :
    List (Location × ByteArray) :=
  t.entries.filterMap fun p =>
    match p.2 with
    | .directory => none
    | .file content =>
        if dir.isPrefixOf p.1 && p.1 != dir then
          some (p.1.drop dir.length, content)
        else none

/- The files that are new or differ from those of a tree. -/
def changesFrom (t old : FileTree) :
    List (Location × ByteArray) :=
  (t.filesBelow []).filter fun f =>
    match old.entry? f.1 with
    | some (.file content) => content != f.2
    | _ => true

/- The bytes of all files. -/
def size (t : FileTree) : Nat :=
  (t.filesBelow []).foldl (fun n f => n + f.2.size) 0

end FileTree

end WireSchema
