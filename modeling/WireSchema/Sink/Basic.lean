import WireSchema.FileTree.Basic

/-
  Where output files go: into memory, or below a directory
  of a file tree.

  Key definitions include:
    * `MemorySink`, `MemorySink.write`
    * `DirectorySink`, `DirectorySink.write`
    * `Sink`, `Sink.writeAll`
    * `SinkFault`
-/

namespace WireSchema

/- Why a file is not written. -/
inductive SinkFault where
  | outsideRoot (path : String)
  | failed (path : String)
  deriving DecidableEq, Repr

def SinkFault.message : SinkFault → String
  | .outsideRoot path =>
      "refusing to write outside the output root: " ++ path
  | .failed path => "failed to write " ++ path

------------------------------------------------------------
-- Memory
------------------------------------------------------------

/- Files by the paths they were written under, in order. -/
structure MemorySink where
  files : List (String × ByteArray) := []
  deriving Inhabited

namespace MemorySink

def insertFile
    (path : String)
    (content : ByteArray) :
    List (String × ByteArray) → List (String × ByteArray)
  | [] => [(path, content)]
  | p :: rest =>
      if path < p.1 then (path, content) :: p :: rest
      else if path = p.1 then (path, content) :: rest
      else p :: insertFile path content rest

/- Every path can be written; the last content counts. -/
def write (m : MemorySink) (path : String)
    (content : ByteArray) : MemorySink :=
  { files := insertFile path content m.files }

def get? (m : MemorySink) (path : String) : Option ByteArray :=
  m.files.lookup path

/- The text under a path, if the content is one. -/
def text? (m : MemorySink) (path : String) : Option String :=
  (m.get? path).bind fun b => String.fromUTF8? b

/- What was written under a path is there. -/
theorem get?_write_self
    (m : MemorySink)
    (path : String)
    (content : ByteArray) :
    (m.write path content).get? path = some content := by
  have h : ∀ files : List (String × ByteArray),
      (insertFile path content files).lookup path
        = some content := by
    intro files
    induction files with
    | nil => simp [insertFile]
    | cons p rest ih =>
        obtain ⟨k, v⟩ := p
        simp only [insertFile]
        split
        · simp
        · split
          · simp
          · rename_i hne
            have hne' : (path == k) = false := by
              simpa using hne
            simp [List.lookup_cons, hne', ih]
  exact h m.files

end MemorySink

------------------------------------------------------------
-- Directories
------------------------------------------------------------

/-
  A directory of a file tree.  Only what stays below it is
  written.
-/
structure DirectorySink where
  root : String
  tree : FileTree := {}
  deriving Inhabited

namespace DirectorySink

/- The path of a file below the root. -/
def resolve (d : DirectorySink) (path : String) :
    Except SinkFault String :=
  if Path.staysBelow path then .ok (Path.join d.root path)
  else .error (.outsideRoot path)

/- Make the directories along a path, as far as it goes. -/
def makeDirs (d : DirectorySink) (path : String) :
    DirectorySink × Except SinkFault Unit :=
  match d.resolve path with
  | .error e => (d, .error e)
  | .ok full =>
      let (tree, r) := d.tree.makeDirs full
      ({ d with tree }, r.mapError fun _ => .failed full)

/- Write a file and make the directories it stands in. -/
def write (d : DirectorySink) (path : String)
    (content : ByteArray) :
    DirectorySink × Except SinkFault Unit :=
  match d.resolve path with
  | .error e => (d, .error e)
  | .ok full =>
      let parent := (Path.parent? full).getD ""
      match d.tree.makeDirs parent with
      | (tree, .error _) =>
          ({ d with tree }, .error (.failed parent))
      | (tree, .ok _) =>
          match tree.write full content with
          | .ok tree => ({ d with tree }, .ok ())
          | .error _ => ({ d with tree }, .error (.failed full))

end DirectorySink

------------------------------------------------------------
-- Either
------------------------------------------------------------

inductive Sink where
  | memory (m : MemorySink)
  | directory (d : DirectorySink)
  deriving Inhabited

namespace Sink

def write (s : Sink) (path : String) (content : ByteArray) :
    Sink × Except SinkFault Unit :=
  match s with
  | .memory m => (.memory (m.write path content), .ok ())
  | .directory d =>
      let (d, r) := d.write path content
      (.directory d, r)

/- Make directories; memory has no need of them. -/
def makeDirs (s : Sink) (path : String) :
    Sink × Except SinkFault Unit :=
  match s with
  | .memory m => (.memory m, .ok ())
  | .directory d =>
      let (d, r) := d.makeDirs path
      (.directory d, r)

/- The file tree that is written to, if there is one. -/
def treeOr (t : FileTree) : Sink → FileTree
  | .memory _ => t
  | .directory d => d.tree

/- Write files in order, up to the first fault. -/
def writeAll (s : Sink) :
    List (String × ByteArray) → Sink × Except SinkFault Unit
  | [] => (s, .ok ())
  | (path, content) :: rest =>
      match s.write path content with
      | (s, .ok _) => writeAll s rest
      | (s, .error e) => (s, .error e)

end Sink

end WireSchema
