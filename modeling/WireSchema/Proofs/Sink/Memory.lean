import Mathlib.Data.List.Nodup
import Mathlib.Data.String.Basic
import WireSchema.Sink.Basic

/-
  What a memory holds after files were written to it.

  A write is seen under its own path and under no other one.
  So the last file of a path is there in the end, and what
  lay under other paths still is.  Writing the same files once
  more changes nothing.

  Key definitions include:
    * `MemorySink.writeFiles`
    * `MemorySink.get?_writeFiles_eq`
    * `MemorySink.writeFiles_writeFiles`
-/

namespace WireSchema

namespace MemorySink

variable {path other : String}
variable {content : ByteArray}
variable {files : List (String × ByteArray)}

------------------------------------------------------------
-- One File
------------------------------------------------------------

theorem lookup_insertFile_of_ne (hNe : other ≠ path) :
    (insertFile path content files).lookup other =
      files.lookup other := by
  have hFirst : ∀ rest : List (String × ByteArray),
      ((path, content) :: rest).lookup other =
        rest.lookup other := by
    intro rest
    rw [List.lookup_cons, beq_false_of_ne hNe]
  induction files with
  | nil => exact hFirst []
  | cons p rest ih =>
      obtain ⟨k, v⟩ := p
      unfold insertFile
      split
      · exact hFirst _
      · split
        · next hSame =>
            have hSame : path = k := hSame
            rw [hFirst, ← hSame, List.lookup_cons,
              beq_false_of_ne hNe]
        · rw [List.lookup_cons, List.lookup_cons, ih]

/- A write is not seen under other paths. -/
theorem get?_write_of_ne
    (m : MemorySink)
    (hNe : other ≠ path) :
    (m.write path content).get? other = m.get? other :=
  lookup_insertFile_of_ne hNe

------------------------------------------------------------
-- Two Files
------------------------------------------------------------

section

variable {key : String}
variable {value : ByteArray}

theorem insertFile_of_lt (h : path < key) :
    insertFile path content ((key, value) :: files) =
      (path, content) :: (key, value) :: files := by
  rw [insertFile, if_pos h]

theorem insertFile_self :
    insertFile path content ((path, value) :: files) =
      (path, content) :: files := by
  rw [insertFile, if_neg (lt_irrefl path), if_pos rfl]

theorem insertFile_of_gt (h : key < path) :
    insertFile path content ((key, value) :: files) =
      (key, value) :: insertFile path content files := by
  rw [insertFile, if_neg (lt_asymm h), if_neg (ne_of_gt h)]

end

/- Of two files with one path the last one counts. -/
theorem insertFile_insertFile (last : ByteArray) :
    insertFile path last (insertFile path content files) =
      insertFile path last files := by
  induction files with
  | nil => exact insertFile_self
  | cons p rest ih =>
      obtain ⟨key, value⟩ := p
      rcases lt_trichotomy path key with hLt | rfl | hGt
      · rw [insertFile_of_lt hLt, insertFile_self,
          insertFile_of_lt hLt]
      · rw [insertFile_self, insertFile_self, insertFile_self]
      · rw [insertFile_of_gt hGt, insertFile_of_gt hGt,
          insertFile_of_gt hGt, ih]

theorem insertFile_comm_of_lt
    (h : path < other)
    (a b : ByteArray) :
    insertFile path a (insertFile other b files) =
      insertFile other b (insertFile path a files) := by
  induction files with
  | nil =>
      rw [insertFile, insertFile_of_lt h, insertFile,
        insertFile_of_gt h, insertFile]
  | cons p rest ih =>
      obtain ⟨key, value⟩ := p
      rcases lt_trichotomy path key with hPath | rfl | hPath
      · rw [insertFile_of_lt hPath, insertFile_of_gt h]
        rcases lt_trichotomy other key with hOther | rfl | hOther
        · rw [insertFile_of_lt hOther, insertFile_of_lt h]
        · rw [insertFile_self, insertFile_of_lt h]
        · rw [insertFile_of_gt hOther, insertFile_of_lt hPath]
      · rw [insertFile_self, insertFile_of_gt h,
          insertFile_of_gt h, insertFile_self]
      · have hOther := hPath.trans h
        rw [insertFile_of_gt hPath, insertFile_of_gt hOther,
          insertFile_of_gt hOther, insertFile_of_gt hPath, ih]

/- A file replaces what was written under its path before. -/
theorem write_write
    (m : MemorySink)
    (path : String)
    (content last : ByteArray) :
    (m.write path content).write path last =
      m.write path last :=
  congrArg MemorySink.mk (insertFile_insertFile last)

/- Files with different paths are written in any order. -/
theorem write_comm
    (m : MemorySink)
    (hNe : path ≠ other)
    (a b : ByteArray) :
    (m.write other b).write path a =
      (m.write path a).write other b := by
  rcases lt_or_gt_of_ne hNe with hLt | hGt
  · exact congrArg MemorySink.mk (insertFile_comm_of_lt hLt a b)
  · exact congrArg MemorySink.mk
      (insertFile_comm_of_lt hGt b a).symm

------------------------------------------------------------
-- Many Files
------------------------------------------------------------

/- Write files one after the other. -/
def writeFiles
    (m : MemorySink)
    (files : List (String × ByteArray)) : MemorySink :=
  files.foldl (fun m f => m.write f.1 f.2) m

/- Nothing goes wrong in writing to memory. -/
theorem writeAll_memory
    (m : MemorySink)
    (files : List (String × ByteArray)) :
    (Sink.memory m).writeAll files =
      (.memory (m.writeFiles files), .ok ()) := by
  induction files generalizing m with
  | nil => rfl
  | cons f rest ih =>
      have hRest := ih (m.write f.1 f.2)
      exact hRest

/- The last file of a path is there, or what was before. -/
theorem get?_writeFiles_eq
    (m : MemorySink)
    (files : List (String × ByteArray))
    (path : String) :
    (m.writeFiles files).get? path =
      (files.reverse.lookup path).or (m.get? path) := by
  induction files generalizing m with
  | nil => rfl
  | cons f rest ih =>
      have hRest := ih (m.write f.1 f.2)
      have hFirst : (m.write f.1 f.2).get? path =
          ([f].lookup path).or (m.get? path) := by
        rw [List.lookup_cons, List.lookup_nil]
        split
        · next hSame =>
            rw [beq_iff_eq.mp hSame, get?_write_self]
            rfl
        · next hNot =>
            rw [get?_write_of_ne m (by simpa using hNot)]
            rfl
      rw [List.reverse_cons, List.lookup_append, Option.or_assoc,
        ← hFirst]
      exact hRest

/- Files with different paths are all there. -/
theorem get?_writeFiles
    (m : MemorySink)
    (hApart : (files.map Prod.fst).Nodup)
    {f : String × ByteArray}
    (hf : f ∈ files) :
    (m.writeFiles files).get? f.1 = some f.2 := by
  obtain ⟨key, value⟩ := f
  have hFound : files.reverse.lookup key = some value := by
    rcases List.append_of_mem hf with ⟨before, after, rfl⟩
    rw [List.map_append, List.map_cons] at hApart
    have hNot := (List.nodup_cons.mp
      (List.nodup_append.mp hApart).2.1).1
    have hNone : after.reverse.lookup key = none := by
      rw [List.lookup_eq_none_iff]
      intro p hp
      have hMem : p.1 ∈ after.map Prod.fst :=
        List.mem_map_of_mem (List.mem_reverse.mp hp)
      rw [bne_iff_ne]
      rintro rfl
      exact hNot hMem
    simp [List.lookup_append, hNone]
  rw [get?_writeFiles_eq, hFound]
  rfl

------------------------------------------------------------
-- The Same Files Again
------------------------------------------------------------

/- A file that is written over later might as well be absent. -/
theorem writeFiles_write_of_mem
    (m : MemorySink)
    (content : ByteArray)
    (h : path ∈ files.map Prod.fst) :
    (m.write path content).writeFiles files =
      m.writeFiles files := by
  induction files generalizing m with
  | nil => cases h
  | cons f rest ih =>
      change ((m.write path content).write f.1 f.2).writeFiles rest =
        (m.write f.1 f.2).writeFiles rest
      by_cases hSame : path = f.1
      · rw [hSame, write_write]
      · have hRest := (List.mem_cons.mp h).resolve_left hSame
        rw [write_comm m (Ne.symm hSame), ih _ hRest]

/- A file with a path of its own may be written last. -/
theorem writeFiles_write_of_not_mem
    (m : MemorySink)
    (content : ByteArray)
    (h : path ∉ files.map Prod.fst) :
    (m.write path content).writeFiles files =
      (m.writeFiles files).write path content := by
  induction files generalizing m with
  | nil => rfl
  | cons f rest ih =>
      rw [List.map_cons, List.mem_cons, not_or] at h
      change ((m.write path content).write f.1 f.2).writeFiles rest =
        ((m.write f.1 f.2).writeFiles rest).write path content
      rw [write_comm m (Ne.symm h.1), ih _ h.2]

/- Files that were written may be written once more. -/
theorem writeFiles_writeFiles
    (m : MemorySink)
    (files : List (String × ByteArray)) :
    (m.writeFiles files).writeFiles files =
      m.writeFiles files := by
  induction files generalizing m with
  | nil => rfl
  | cons f rest ih =>
      change
        (((m.write f.1 f.2).writeFiles rest).write
            f.1 f.2).writeFiles rest =
          (m.write f.1 f.2).writeFiles rest
      by_cases hMem : f.1 ∈ rest.map Prod.fst
      · rw [writeFiles_write_of_mem _ _ hMem, ih]
      · rw [writeFiles_write_of_not_mem m _ hMem, write_write,
          ← writeFiles_write_of_not_mem m _ hMem, ih]

end MemorySink

end WireSchema
