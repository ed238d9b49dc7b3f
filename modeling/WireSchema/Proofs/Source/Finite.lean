import Mathlib.Data.Set.Finite.List
import Mathlib.Data.Set.Finite.Lattice
import WireSchema.Proofs.Outcome
import WireSchema.Proofs.Source.Flow

/-
  What a module has finitely many of.

  The paths of directories are not longer than paths can be,
  and there are finitely many texts of a length.  So a module
  has finitely many packages, and their declarations use
  finitely many expressions.

  Key definitions include:
    * `finite_spaces`
    * `ModuleView.written`
    * `ModuleView.finite_written`
    * `ModuleView.finite_flowing`
-/

namespace WireSchema

------------------------------------------------------------
-- Short Texts
------------------------------------------------------------

/- There are finitely many texts of so many bytes at most. -/
theorem finite_short (n : Nat) :
    { s : String | s.utf8ByteSize ≤ n }.Finite := by
  have hByte : Finite UInt8 :=
    .of_injective UInt8.toFin fun _ _ => UInt8.toFin_inj.mp
  have hBytes := List.finite_length_le UInt8 n
  refine (hBytes.preimage ?_ :
    (Set.preimage (fun s : String => s.toByteArray.data.toList)
      { bytes | bytes.length ≤ n }).Finite)
  intro s _ t _ hSame
  have hData := Array.toList_inj.mp hSame
  exact String.toByteArray_inj.mp (ByteArray.ext hData)

------------------------------------------------------------
-- Texts of Files
------------------------------------------------------------

/- A text is that of a file in the tree. -/
def FileTree.HasText
    (t : FileTree)
    (text : String) : Prop :=
  ∃ loc content, (loc, .file content) ∈ t.entries
    ∧ String.fromUTF8? content = some text

theorem FileTree.hasText_of_readText
    {t : FileTree}
    {path text : String}
    (h : t.readText path = .ok text) : t.HasText text := by
  unfold readText at h
  rcases eq_ok_of_bind h with ⟨content, hBytes, hText⟩
  unfold readBytes at hBytes
  rcases eq_ok_of_bind hBytes with ⟨loc, -, hEntry⟩
  split at hEntry
  · next given hFound =>
      cases hEntry
      unfold entry? at hFound
      split at hFound
      · cases hFound
      · rcases List.lookup_eq_some_iff.mp hFound with
          ⟨before, after, hSplit, -⟩
        split at hText
        · next hUtf8 =>
            cases hText
            refine ⟨loc, content, ?_, hUtf8⟩
            rw [hSplit]
            exact List.mem_append_right before List.mem_cons_self
        · cases hText
  · cases hEntry

------------------------------------------------------------
-- Packages
------------------------------------------------------------

theorem Path.size_le_join (base path : String) :
    path.utf8ByteSize ≤ (join base path).utf8ByteSize := by
  unfold join
  split
  · exact Nat.le_refl _
  · split
    · rw [String.utf8ByteSize_append]
      omega
    · rw [String.utf8ByteSize_append]
      omega

/- The path of a directory that has names is not too long. -/
theorem FileTree.size_le_of_names
    {t : FileTree}
    {path : String}
    {names : List String}
    (h : t.names path = .ok names) :
    path.utf8ByteSize ≤ maxPathBytes := by
  unfold FileTree.names follow at h
  cases hBarred : isBarred path with
  | true =>
      rw [hBarred] at h
      cases h
  | false =>
      unfold isBarred at hBarred
      simpa using (Bool.or_eq_false_iff.mp hBarred).2

namespace Source

/- The path of a package is that of its module, or goes on. -/
theorem ModuleSource.eq_of_placeOf?
    {m : ModuleSource}
    {package place : String}
    (h : m.placeOf? package = some place) :
    package = m.path ∨ package = m.path ++ "/" ++ place := by
  unfold ModuleSource.placeOf? at h
  split at h
  · next hSame => exact .inl (eq_of_beq hSame)
  · right
    rcases Option.map_eq_some_iff.mp h with ⟨rest, hRest, rfl⟩
    rw [Text.afterHead?_eq_some_iff] at hRest
    rw [← String.toList_inj, hRest]
    simp only [String.toList_append, String.toList_ofList]

theorem ModuleSource.size_le_of_load
    {m : ModuleSource}
    {read : SourceReader}
    {t : FileTree}
    {package place : String}
    {p : PackageSource}
    (hPlace : m.placeOf? package = some place)
    (h : m.load read t package = .ok (some p)) :
    place.utf8ByteSize ≤ FileTree.maxPathBytes := by
  unfold ModuleSource.load at h
  rw [hPlace] at h
  dsimp only at h
  split at h
  · cases h
  · cases h
  · next names hNames =>
      have hDir := FileTree.size_le_of_names hNames
      have hJoin := Path.size_le_join m.root place
      unfold ModuleSource.dirOf at hDir
      split at hDir
      · next hEmpty =>
          have hNone : place = "" := by simpa using hEmpty
          rw [hNone]
          exact Nat.zero_le _
      · omega

/- A module has finitely many packages. -/
theorem finite_spaces
    (m : ModuleSource)
    (read : SourceReader)
    (t : FileTree) :
    { space | ∃ p, m.load read t space = .ok (some p) }.Finite := by
  have hBelow := (finite_short FileTree.maxPathBytes).image
    (fun place => m.path ++ "/" ++ place)
  apply (hBelow.insert m.path).subset
  rintro space ⟨p, hLoad⟩
  cases hPlace : m.placeOf? space with
  | none =>
      unfold ModuleSource.load at hLoad
      rw [hPlace] at hLoad
      cases hLoad
  | some place =>
      rcases ModuleSource.eq_of_placeOf? hPlace with hRoot | hBelow
      · exact .inl hRoot
      · right
        have hSize := ModuleSource.size_le_of_load hPlace hLoad
        exact ⟨place, hSize, hBelow.symm⟩

theorem finite_packages
    (m : ModuleSource)
    (read : SourceReader)
    (t : FileTree) :
    { p | ∃ space, m.load read t space = .ok (some p) }.Finite := by
  have hLoaded := (finite_spaces m read t).image
    fun space => (m.load read t space).toOption.join
  apply (hLoaded.preimage
    (Option.some_injective PackageSource).injOn).subset
  rintro p ⟨space, hLoad⟩
  refine ⟨space, ⟨p, hLoad⟩, ?_⟩
  dsimp only
  rw [hLoad]
  rfl

/- A package is loaded as the one of its path. -/
theorem path_of_load
    {m : ModuleSource}
    {read : SourceReader}
    {t : FileTree}
    {space : String}
    {p : PackageSource}
    (h : m.load read t space = .ok (some p)) :
    p.path = space := by
  unfold ModuleSource.load at h
  split at h
  · cases h
  · dsimp only at h
    split at h
    · cases h
    · cases h
    · split at h
      · cases h
      · rcases eq_ok_of_bind h with ⟨files, -, hEnd⟩
        cases hEnd
        rfl

/- A file of a package is what a text in the tree says. -/
theorem ModuleSource.exists_text_of_load
    {m : ModuleSource}
    {read : SourceReader}
    {t : FileTree}
    {space : String}
    {p : PackageSource}
    {file : FileSource}
    (h : m.load read t space = .ok (some p))
    (hFile : file ∈ p.files) :
    ∃ label text, t.HasText text
      ∧ read label text = some file := by
  unfold ModuleSource.load at h
  split at h
  · cases h
  · dsimp only at h
    split at h
    · cases h
    · cases h
    · split at h
      · cases h
      · rcases eq_ok_of_bind h with ⟨files, hRead, hEnd⟩
        cases hEnd
        rcases exists_of_mem_mapM hRead hFile with
          ⟨name, -, hLoad⟩
        unfold ModuleSource.loadFile at hLoad
        dsimp only at hLoad
        split at hLoad
        · cases hLoad
        · next text hText =>
            split at hLoad
            · next hParse =>
                cases hLoad
                exact ⟨_, text, FileTree.hasText_of_readText hText,
                  hParse⟩
            · cases hLoad

------------------------------------------------------------
-- Declarations
------------------------------------------------------------

/- What is found by a name stands in a file of the package. -/
theorem PackageSource.mem_of_find?
    {p : PackageSource}
    {name : String}
    {file : FileSource}
    {d : TypeSource}
    (h : p.find? name = some (file, d)) :
    file ∈ p.files ∧ d ∈ file.types := by
  rcases List.exists_of_findSome?_eq_some h with
    ⟨f, hFile, hFound⟩
  rcases Option.map_eq_some_iff.mp hFound with ⟨g, hDecl, hSame⟩
  cases hSame
  exact ⟨hFile, List.mem_of_find?_eq_some hDecl⟩

namespace ModuleView

variable {v : ModuleView}

theorem Holds.mem_types
    {space name : String}
    {p : PackageSource}
    {file : FileSource}
    {d : TypeSource}
    (h : v.Holds space name p file d) :
    p.path = space ∧ d ∈ p.types ∧ d.name = name := by
  have hMem := PackageSource.mem_of_find? h.found
  exact ⟨path_of_load h.loaded,
    List.mem_flatMap.mpr ⟨file, hMem⟩,
    PackageSource.name_of_find? h.found⟩

/- What packages give finite lists of is finite in a module. -/
theorem finite_of_packages
    {α : Type}
    {S : Set α}
    (found : PackageSource → List α)
    (h : ∀ a ∈ S, ∃ space p,
      v.load space = .ok (some p)
        ∧ a ∈ found p) : S.Finite := by
  apply ((finite_packages v.module v.read v.tree).biUnion
    fun p _ => (found p).finite_toSet).subset
  intro a ha
  rcases h a ha with ⟨space, p, hLoaded, hFound⟩
  exact Set.mem_biUnion ⟨space, hLoaded⟩ hFound

/- Packages of a module declare finitely many names. -/
theorem finite_declared (v : ModuleView) :
    { id : TypeName | ∃ p file d,
      v.Holds id.space id.name p file d }.Finite := by
  apply finite_of_packages fun p =>
    p.types.map fun d =>
      ({ name := d.name, space := p.path } : TypeName)
  rintro ⟨name, space⟩ ⟨p, file, d, hHolds⟩
  rcases hHolds.mem_types with ⟨rfl, hDecl, rfl⟩
  exact ⟨_, p, hHolds.loaded, List.mem_map_of_mem hDecl⟩

/- Of their parameters, finitely many go anywhere. -/
theorem finite_flowing (v : ModuleView) :
    { a | ∃ b, v.Flows a b }.Finite := by
  apply finite_of_packages fun p =>
    p.types.flatMap fun d =>
      (List.range d.params.length).map fun index =>
        ({ space := p.path, name := d.name, index } : Slot)
  rintro ⟨space, name, index⟩
    ⟨b, param, arg, ⟨⟨hHolds, -, -⟩, hParam, -, -, -⟩⟩
  rcases hHolds.mem_types with ⟨rfl, hDecl, rfl⟩
  refine ⟨_, _, hHolds.loaded,
    List.mem_flatMap.mpr ⟨_, hDecl, ?_⟩⟩
  have hIndex := (List.getElem?_eq_some_iff.mp hParam).1
  rw [List.length_map] at hIndex
  exact List.mem_map_of_mem (List.mem_range.mpr hIndex)

------------------------------------------------------------
-- Expressions
------------------------------------------------------------

/- A scope that a declaration is read in as it stands. -/
def ownScopes
    (p : PackageSource)
    (file : FileSource)
    (d : TypeSource) : List SourceScope :=
  [genericScope p file d, scopeOf p file d]

/- All parts of what is used in a package. -/
def writtenIn (p : PackageSource) : List TypeExpr :=
  p.files.flatMap fun file =>
    file.types.flatMap fun d =>
      (ownScopes p file d).flatMap fun x =>
        d.uses.flatMap fun u =>
          (x.resolve? u).toList.flatMap TypeExpr.parts

/- All parts of what is used in a module. -/
def written (v : ModuleView) : Set TypeExpr :=
  { e | ∃ space p, v.load space = .ok (some p)
    ∧ e ∈ writtenIn p }

theorem finite_written (v : ModuleView) : v.written.Finite :=
  finite_of_packages writtenIn fun _ h => h

theorem mem_writtenIn_iff
    {p : PackageSource}
    {w : TypeExpr} :
    w ∈ writtenIn p ↔ ∃ file ∈ p.files, ∃ d ∈ file.types,
      ∃ x ∈ ownScopes p file d, ∃ u ∈ d.uses,
        ∃ e, x.resolve? u = some e ∧ w ∈ e.parts := by
  simp only [writtenIn, List.mem_flatMap, Option.mem_toList]

theorem mem_written
    {space name : String}
    {p : PackageSource}
    {file : FileSource}
    {d : TypeSource}
    {x : SourceScope}
    {u : SourceType}
    {e w : TypeExpr}
    (hHolds : v.Holds space name p file d)
    (hScope : x ∈ ownScopes p file d)
    (hUse : u ∈ d.uses)
    (hResolve : x.resolve? u = some e)
    (hw : w ∈ e.parts) : w ∈ v.written := by
  have hMem := PackageSource.mem_of_find? hHolds.found
  refine ⟨space, p, hHolds.loaded, mem_writtenIn_iff.mpr ?_⟩
  exact ⟨file, hMem.1, d, hMem.2, x, hScope, u, hUse, e,
    hResolve, hw⟩

theorem Uses.written
    {space name : String}
    {d : TypeSource}
    {e w : TypeExpr}
    (h : v.Uses space name d e)
    (hw : w ∈ e.parts) : w ∈ v.written := by
  rcases h with ⟨hHolds, hUse, hResolve⟩
  exact mem_written hHolds List.mem_cons_self hUse hResolve hw

/- A part of what is written is written. -/
theorem written_parts
    {e w : TypeExpr}
    (he : e ∈ v.written)
    (hw : w ∈ e.parts) : w ∈ v.written := by
  rcases he with ⟨space, p, hLoaded, he⟩
  rcases mem_writtenIn_iff.mp he with
    ⟨file, hFile, d, hDecl, x, hScope, u, hUse, whole,
      hResolve, he⟩
  refine ⟨space, p, hLoaded, mem_writtenIn_iff.mpr ?_⟩
  exact ⟨file, hFile, d, hDecl, x, hScope, u, hUse, whole,
    hResolve, TypeExpr.mem_parts_trans hw he⟩

end ModuleView

end Source

end WireSchema
