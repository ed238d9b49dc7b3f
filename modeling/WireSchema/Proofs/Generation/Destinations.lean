import WireSchema.Proofs.FileTree.Steps
import WireSchema.Proofs.Generation.Artifacts
import WireSchema.Proofs.Sink.Directory

/-
  Whether the files of a run stay below a directory.

  A base name that is checked has no slash, and neither has a
  stem or the suffix of a dialect.  So a file leaves the
  directory only if its base name leads up and is used for a
  directory of its own.

  Key definitions include:
    * `Config.LeadsUp`
    * `Schema.destinations_below_iff`
-/

namespace WireSchema

------------------------------------------------------------
-- Stems
------------------------------------------------------------

theorem notMem_flattenFrom
    (marked : Bool)
    (path : List Char) : '/' ∉ flattenFrom marked path := by
  fun_induction flattenFrom marked path with
  | case1 => exact List.not_mem_nil
  | case2 marked c s hWord ih =>
      rw [List.mem_cons, not_or]
      refine ⟨?_, ih⟩
      rintro rfl
      exact absurd hWord (by decide)
  | case3 c s hOther ih => exact ih
  | case4 marked c s hOther hNot ih =>
      rw [List.mem_cons, not_or]
      exact ⟨by decide, ih⟩

/- A word has no slash. -/
theorem notMem_flatten (path : List Char) : '/' ∉ flatten path := by
  intro hSlash
  unfold flatten Text.dropEdgesWhile Text.dropEndWhile at hSlash
  have hDropped := (List.dropWhile_suffix _).subset
    (List.mem_reverse.mp hSlash)
  exact notMem_flattenFrom false path
    ((List.dropWhile_suffix _).subset
      (List.mem_reverse.mp hDropped))

theorem notMem_flatSegment (path : List Char) :
    '/' ∉ flatSegment path := by
  unfold flatSegment
  split
  · exact notMem_flatten _
  · exact notMem_flatten _

theorem notMem_plainStem
    {u : List Char}
    (h : '/' ∉ u) : '/' ∉ (plainStem u).toList := by
  rw [plainStem_eq, String.toList_ofList]
  unfold standIn
  split_ifs
  · decide
  · decide
  · exact h

theorem EmitOptions.notMem_stem
    (o : EmitOptions)
    (spaces : List String)
    (space : String) : '/' ∉ (o.stem spaces space).toList := by
  apply notMem_plainStem
  unfold FileStems.word
  split
  · exact notMem_flatten _
  · exact notMem_flatSegment _

------------------------------------------------------------
-- Paths
------------------------------------------------------------

namespace EmitOptions

variable {o : EmitOptions}

/- The name of a file with an ending does not lead up. -/
theorem append_ts_ne (name : String) : name ++ ".ts" ≠ ".." := by
  intro hUp
  have hLast := congrArg (fun t => t.toList.getLast?) hUp
  simp at hLast

theorem staysBelow_file
    {front : String}
    (hPlain : '/' ∉ front.toList) :
    Path.staysBelow (front ++ ".ts") = true := by
  have hName : '/' ∉ (front ++ ".ts").toList := by
    rw [String.toList_append, List.mem_append, not_or]
    exact ⟨hPlain, by decide⟩
  rw [Path.staysBelow_name_iff hName]
  refine ⟨fun hEmpty => ?_, append_ts_ne front⟩
  have hLast := congrArg (fun t => t.toList.getLast?) hEmpty
  simp at hLast

theorem staysBelow_stemPath_iff
    (hSome : o.baseName ≠ "")
    (hPlain : '/' ∉ o.baseName.toList)
    (spaces : List String)
    (space : String) :
    Path.staysBelow (o.stemPath (o.stem spaces space)) = true ↔
      o.baseName ≠ ".." := by
  have hName : '/' ∉ (o.stem spaces space ++ ".ts").toList := by
    rw [String.toList_append, List.mem_append, not_or]
    exact ⟨o.notMem_stem spaces space, by decide⟩
  unfold stemPath
  rw [String.append_assoc,
    Path.staysBelow_pair_iff hSome hPlain hName,
    and_iff_left (append_ts_ne _)]

end EmitOptions

------------------------------------------------------------
-- Destinations
------------------------------------------------------------

/- A checked base name is some text without a slash. -/
theorem Config.baseName_of_check
    {c : Config}
    {r : Registry OutputFlavor}
    (h : c.check r = .ok ()) :
    c.baseName ≠ "" ∧ '/' ∉ c.baseName.toList := by
  unfold check at h
  rcases eq_ok_of_bind h with ⟨_, hBase, -⟩
  unfold checkBaseName at hBase
  split at hBase
  · cases hBase
  · next hNot =>
      rw [Bool.or_eq_true, not_or] at hNot
      simpa using hNot

theorem EmitOptions.staysBelow_flavorPath
    {o : EmitOptions}
    {name : String}
    {d : Dialect}
    (hPlain : '/' ∉ o.baseName.toList)
    (h : Registry.builtin.find? name = some d) :
    Path.staysBelow (o.flavorPath d) = true := by
  have hName : '/' ∉ name.toList := by
    rw [Registry.find?_builtin] at h
    split at h
    · next hName =>
        rw [hName]
        decide
    · split at h
      · next hName =>
          rw [hName]
          decide
      · cases h
  have hSuffix : d.flavor.fileSuffix = name ++ ".ts" :=
    Registry.fileSuffix_builtin h
  unfold flavorPath
  rw [hSuffix, ← String.append_assoc]
  apply staysBelow_file
  simp only [String.toList_append, List.mem_append, not_or]
  exact ⟨⟨hPlain, by decide⟩, hName⟩

/-
  Types are written to files of their own, in a directory that
  is the one above.
-/
structure Config.LeadsUp (c : Config) (s : Schema) : Prop where
  types : c.baseTypes = true
  apart : c.singleFile = false
  base : c.baseName = ".."
  declared : s.names ≠ []

theorem EmitOptions.basePaths_below_iff
    {o : EmitOptions}
    {spaces : List String}
    (hSome : o.baseName ≠ "")
    (hPlain : '/' ∉ o.baseName.toList) :
    (∀ p ∈ o.basePaths spaces, Path.staysBelow p = true) ↔
      ¬(o.singleFile = false ∧ o.baseName = ".." ∧ spaces ≠ []) := by
  have hBase : Path.staysBelow o.basePath = true :=
    staysBelow_file hPlain
  unfold basePaths
  cases o.singleFile with
  | true => simpa using hBase
  | false =>
      rw [if_neg Bool.false_ne_true, List.forall_mem_append,
        List.forall_mem_singleton, and_iff_left hBase,
        List.forall_mem_map]
      simp only [staysBelow_stemPath_iff hSome hPlain,
        mem_sortTexts, ne_eq, true_and, not_and, not_not]
      constructor
      · intro hAll hUp
        by_contra hNames
        rcases List.exists_mem_of_ne_nil _ hNames with ⟨a, ha⟩
        exact hAll a ha hUp
      · intro hNone a ha hUp
        rw [hNone hUp] at ha
        cases ha

theorem DirectorySink.resolves_iff (path : String) :
    (∀ d : DirectorySink,
        d.resolve path = .ok (Path.join d.root path)) ↔
      Path.staysBelow path = true := by
  constructor
  · intro hAll
    exact (resolve_eq_ok (hAll default)).1
  · intro hBelow d
    unfold resolve
    exact if_pos hBelow

/-
  With a checked configuration, all files of an emission can
  be written below every directory, unless the base name leads
  up and names a directory that types are written to.
-/
theorem Schema.destinations_below_iff
    {s : Schema}
    {c : Config}
    {e : Emission}
    (hCheck : c.check .builtin = .ok ())
    (hEmit : s.emit c .builtin = .ok e) :
    (∀ f ∈ e.files, ∀ d : DirectorySink,
        d.resolve f.path = .ok (Path.join d.root f.path)) ↔
      ¬c.LeadsUp s := by
  rcases Config.baseName_of_check hCheck with ⟨hSome, hPlain⟩
  simp only [DirectorySink.resolves_iff]
  have hPaths :
      (∀ f ∈ e.files, Path.staysBelow f.path = true) ↔
        ∀ p ∈ s.artifactPaths c .builtin,
          Path.staysBelow p = true := by
    rw [← paths_of_emit hEmit, List.forall_mem_map]
  have hFlavors : ∀ p ∈ (c.flavorsIn .builtin).map
      c.emitOptions.flavorPath, Path.staysBelow p = true := by
    rw [List.forall_mem_map]
    intro f hf
    rcases List.mem_filterMap.mp hf with ⟨name, -, hFound⟩
    rcases Registry.find?_flavors_eq_some_iff.mp hFound with
      ⟨d, hd, rfl⟩
    exact EmitOptions.staysBelow_flavorPath hPlain hd
  unfold artifactPaths at hPaths
  rw [hPaths, List.forall_mem_append, and_iff_left hFlavors]
  have hSpaces : s.spaces ≠ [] ↔ s.names ≠ [] := by
    unfold spaces
    rw [ne_eq, List.map_eq_nil_iff]
  cases hTypes : c.baseTypes with
  | false =>
      constructor
      · rintro - ⟨hOn, -, -, -⟩
        rw [hTypes] at hOn
        cases hOn
      · rintro - p ⟨⟩
  | true =>
      rw [if_pos rfl, EmitOptions.basePaths_below_iff hSome hPlain,
        hSpaces]
      exact not_congr ⟨fun ⟨hApart, hUp, hNames⟩ =>
          ⟨hTypes, hApart, hUp, hNames⟩,
        fun h => ⟨h.apart, h.base, h.declared⟩⟩

/- Namespaces that lead up are filed like all others. -/
theorem Schema.destinations_below_dots :
    ∃ e : Emission,
      (RouteTable.emptyRecords ["../..", "m/../x"]).emit
          { baseName := ".", singleFile := false, flavors := ["zod"] }
          .builtin = .ok e
        ∧ e.files.map OutputFile.path =
          ["./builtin.ts", "./x.ts", "..ts", "..zod.ts"]
        ∧ ∀ f ∈ e.files, ∀ d : DirectorySink,
          d.resolve f.path = .ok (Path.join d.root f.path) := by
  let s := RouteTable.emptyRecords ["../..", "m/../x"]
  let c : Config :=
    { baseName := ".", singleFile := false, flavors := ["zod"] }
  have hValid : s.validate = [] := by decide +kernel
  have hCheck : c.check .builtin = .ok () := by decide +kernel
  have hFlavors : ∀ name ∈ c.flavors,
      Registry.builtin.contains name = true := by
    decide +kernel
  rcases RouteTable.succeeds_emptyRecords hValid hFlavors with
    ⟨e, hEmit⟩
  refine ⟨e, hEmit, ?_, ?_⟩
  · rw [paths_of_emit hEmit]
    change s.artifactPaths c .builtin = _
    decide +kernel
  · rw [destinations_below_iff hCheck hEmit]
    rintro ⟨-, -, hUp, -⟩
    exact absurd hUp (by decide)

/- A base name of two dots is no plain file stem. -/
theorem Schema.baseName_leadsUp :
    (RouteTable.emptyRecords ["m/x"]).validate = []
      ∧ Config.check { baseName := "..", singleFile := false }
        .builtin = .ok ()
      ∧ ∃ e : Emission,
        (RouteTable.emptyRecords ["m/x"]).emit
            { baseName := "..", singleFile := false } .builtin =
          .ok e
        ∧ ∃ f ∈ e.files, ∀ d : DirectorySink,
          d.resolve f.path = .error (.outsideRoot "../x.ts") := by
  let s := RouteTable.emptyRecords ["m/x"]
  let c : Config := { baseName := "..", singleFile := false }
  have hValid : s.validate = [] := by decide +kernel
  have hCheck : c.check .builtin = .ok () := by decide +kernel
  rcases RouteTable.succeeds_emptyRecords (c := c)
    (r := .builtin) hValid nofun with ⟨e, hEmit⟩
  refine ⟨hValid, hCheck, e, hEmit, ?_⟩
  have hPath : "../x.ts" ∈ e.files.map OutputFile.path := by
    rw [paths_of_emit hEmit]
    change "../x.ts" ∈ s.artifactPaths c .builtin
    decide +kernel
  rcases List.mem_map.mp hPath with ⟨f, hf, hSame⟩
  refine ⟨f, hf, fun d => ?_⟩
  rw [hSame]
  exact d.resolve_of_leaving (by decide +kernel)

end WireSchema
