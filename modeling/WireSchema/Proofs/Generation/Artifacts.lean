import WireSchema.Generation.Pipeline
import WireSchema.Proofs.Emit.Order
import WireSchema.Proofs.Emit.Stems
import WireSchema.Proofs.Generation.Emission
import WireSchema.Proofs.Sink.Memory

/-
  When the files of a run do not overwrite each other.

  The paths of the files follow from the namespaces and the
  settings alone.  They differ unless two namespaces clash or
  two flavors have one file suffix, and then all files are
  stored.

  Key definitions include:
    * `Schema.artifactPaths`
    * `Config.FlavorsApart`
    * `RouteTable.artifacts_stored`
-/

namespace WireSchema

------------------------------------------------------------
-- Paths of Laid Out Files
------------------------------------------------------------

namespace EmitScope

variable {x : EmitScope}
variable {emitter : Emitter}

/- Everything with a name that is to be written is. -/
theorem ids_of_writeAll
    {ts : List WireType}
    {w : Written}
    (h : writeAll emitter x ts = .ok w) :
    w.chunks.map Chunk.id = ts.filterMap WireType.id?
      ∧ w.scope.options = x.options := by
  induction ts generalizing x w with
  | nil =>
      cases h
      exact ⟨rfl, rfl⟩
  | cons t rest ih =>
      unfold writeAll at h
      rw [List.filterMap_cons]
      cases hId : t.id? with
      | none =>
          rw [hId] at h
          exact ih h
      | some id =>
          rw [hId] at h
          dsimp only at h
          split at h
          · cases h
          · rcases eq_ok_of_bind h with ⟨more, hMore, h⟩
            cases h
            have hRest := ih hMore
            exact ⟨congrArg (List.cons id) hRest.1, hRest.2⟩

end EmitScope

namespace EmitOptions

/- The path of the base file. -/
def basePath (o : EmitOptions) : String :=
  o.baseName ++ ".ts"

/- The path of the file with a stem. -/
def stemPath (o : EmitOptions) (stem : String) : String :=
  o.baseName ++ "/" ++ stem ++ ".ts"

/- The path of the file of a flavor. -/
def flavorPath (o : EmitOptions) (f : OutputFlavor) : String :=
  o.baseName ++ "." ++ f.fileSuffix

/- The stem that a namespace is filed under. -/
def stem
    (o : EmitOptions)
    (spaces : List String)
    (space : String) : String :=
  plainStem (FileStems.word spaces o.strippedPaths space)

/- The paths of the base types of some namespaces. -/
def basePaths
    (o : EmitOptions)
    (spaces : List String) : List String :=
  if o.singleFile then [o.basePath]
  else
    (sortTexts spaces).map (fun a => o.stemPath (o.stem spaces a))
      ++ [o.basePath]

/- Only which namespaces there are counts. -/
theorem basePaths_congr
    {spaces others : List String}
    (o : EmitOptions)
    (h : ∀ a, a ∈ spaces ↔ a ∈ others) :
    o.basePaths spaces = o.basePaths others := by
  have hStem : o.stem spaces = o.stem others := by
    funext a
    unfold stem
    rw [FileStems.word_congr h]
  unfold basePaths
  rw [hStem, sortTexts_congr h]

end EmitOptions

namespace EmitScope

variable {x : EmitScope}

/- Each namespace goes to the file of its stem. -/
theorem path_of_namespaceFile
    {chunks : List Chunk}
    {group : NamespaceChunks}
    {f : OutputFile}
    (hGroup : group ∈ groupChunks chunks)
    (h : x.namespaceFile
      (.ofNamespaces (chunks.map fun c => c.id.space)
        x.options.strippedPaths) group = .ok f) :
    f.path =
      x.options.stemPath
        (x.options.stem (chunks.map fun c => c.id.space)
          group.space) := by
  rcases List.mem_map.mp hGroup with ⟨a, ha, rfl⟩
  have hStem := FileStems.find?_ofNamespaces
    x.options.strippedPaths ((mem_sortTexts a _).mp ha)
  unfold namespaceFile at h
  rcases eq_ok_of_bind h with ⟨imports, -, h⟩
  cases h
  dsimp only
  rw [hStem]
  rfl

theorem path_of_indexFile
    {files : FileStems}
    {services : String}
    {f : OutputFile}
    (h : x.indexFile files services = .ok f) :
    f.path = x.options.basePath := by
  unfold indexFile at h
  dsimp only at h
  split at h
  · cases h
    rfl
  · rcases eq_ok_of_bind h with ⟨imports, -, h⟩
    cases h
    rfl

/- Where the files of declarations go. -/
theorem paths_of_layOut
    {chunks : List Chunk}
    {files : List OutputFile}
    (h : x.layOut chunks = .ok files) :
    files.map OutputFile.path =
      x.options.basePaths (chunks.map fun c => c.id.space) := by
  unfold layOut at h
  rcases eq_ok_of_bind h with ⟨services, -, h⟩
  unfold EmitOptions.basePaths
  split at h
  · next hSingle =>
      cases h
      rw [if_pos hSingle]
      rfl
  · next hMany =>
      rcases eq_ok_of_bind h with ⟨parts, hParts, h⟩
      rcases eq_ok_of_bind h with ⟨index, hIndex, h⟩
      cases h
      have hPaths := map_eq_of_mapM hParts
        fun group hGroup f => path_of_namespaceFile hGroup
      rw [if_neg hMany, List.map_append, hPaths,
        List.map_singleton, path_of_indexFile hIndex, groupChunks,
        List.map_map]
      rfl

end EmitScope

------------------------------------------------------------
-- Paths of Artifacts
------------------------------------------------------------

/- The flavors of a configuration that there are. -/
def Config.flavorsIn (c : Config) (r : Registry OutputFlavor) :
    List OutputFlavor :=
  c.flavors.filterMap r.find?

namespace Schema

variable {s : Schema}
variable {o : EmitOptions}
variable {e : Emission}

/- The namespaces of the declarations. -/
def spaces (s : Schema) : List String :=
  s.names.map TypeName.space

/- The paths of all files that a configuration asks for. -/
def artifactPaths
    (s : Schema)
    (c : Config)
    (r : Registry OutputFlavor) : List String :=
  (if c.baseTypes then c.emitOptions.basePaths s.spaces else [])
    ++ (c.flavorsIn r).map c.emitOptions.flavorPath

theorem paths_of_baseFiles (h : s.baseFiles o = .ok e) :
    e.files.map OutputFile.path = o.basePaths s.spaces := by
  unfold baseFiles at h
  rcases eq_ok_of_bind h with ⟨w, hWritten, h⟩
  rcases eq_ok_of_bind h with ⟨files, hFiles, h⟩
  cases h
  have hIds := EmitScope.ids_of_writeAll
    (eq_ok_of_mapError hWritten)
  have hSpaces : ∀ a,
      a ∈ w.chunks.map (fun c => c.id.space) ↔ a ∈ s.spaces := by
    intro a
    have hMap : w.chunks.map (fun c => c.id.space) =
        (w.chunks.map Chunk.id).map TypeName.space := by
      rw [List.map_map]
      rfl
    rw [hMap, hIds.1, spaces, List.mem_map, List.mem_map]
    simp only [mem_ids_emitOrder]
    rfl
  have hPaths := EmitScope.paths_of_layOut
    (eq_ok_of_mapError hFiles)
  rw [hPaths, hIds.2]
  exact EmitOptions.basePaths_congr o hSpaces

theorem paths_of_flavorFile
    {f : OutputFlavor}
    (h : s.flavorFile o f = .ok e) :
    e.files.map OutputFile.path = [o.flavorPath f] := by
  unfold flavorFile OutputFlavor.complete at h
  rcases eq_ok_of_bind h with ⟨front, -, h⟩
  rcases eq_ok_of_bind h with ⟨w, -, h⟩
  rcases eq_ok_of_bind h with ⟨services, -, h⟩
  cases h
  rfl

theorem paths_of_flavorFiles
    {r : Registry OutputFlavor}
    {names : List String}
    (h : s.flavorFiles o r names = .ok e) :
    e.files.map OutputFile.path =
      (names.filterMap r.find?).map o.flavorPath := by
  induction names generalizing e with
  | nil =>
      cases h
      rfl
  | cons name rest ih =>
      unfold flavorFiles namedFlavorFile at h
      rcases eq_ok_of_bind h with ⟨one, hOne, h⟩
      rcases eq_ok_of_bind h with ⟨more, hMore, h⟩
      cases h
      cases hFound : r.find? name with
      | none =>
          rw [hFound] at hOne
          cases hOne
      | some f =>
          rw [hFound] at hOne
          have hFile := paths_of_flavorFile
            (eq_ok_of_mapError hOne)
          rw [List.filterMap_cons_some hFound, List.map_cons,
            ← ih hMore, ← List.singleton_append, ← hFile]
          exact List.map_append

/- The paths are known before anything is emitted. -/
theorem paths_of_emit
    {c : Config}
    {r : Registry OutputFlavor}
    (h : s.emit c r = .ok e) :
    e.files.map OutputFile.path = s.artifactPaths c r := by
  unfold emit at h
  unfold artifactPaths Config.flavorsIn
  dsimp only at h
  split at h
  · next hTypes =>
      have hTypes : c.baseTypes = true := hTypes
      rcases eq_ok_of_bind h with ⟨base, hBase, h⟩
      rcases eq_ok_of_bind h with ⟨flavors, hFlavors, h⟩
      cases h
      rw [if_pos hTypes,
        ← paths_of_baseFiles (eq_ok_of_mapError hBase),
        ← paths_of_flavorFiles hFlavors]
      exact List.map_append
  · next hNone =>
      have hNone : ¬c.baseTypes = true := hNone
      rcases eq_ok_of_bind h with ⟨_, hBase, h⟩
      cases hBase
      rcases eq_ok_of_bind h with ⟨flavors, hFlavors, h⟩
      cases h
      rw [if_neg hNone, ← paths_of_flavorFiles hFlavors]
      rfl

end Schema

------------------------------------------------------------
-- Different Paths
------------------------------------------------------------

/-
  No two flavors have one file suffix, and none has that of
  the base file if there is one.
-/
structure Config.FlavorsApart
    (c : Config)
    (r : Registry OutputFlavor) : Prop where
  distinct : ((c.flavorsIn r).map OutputFlavor.fileSuffix).Nodup
  notBase :
    c.baseTypes = true →
      "ts" ∉ (c.flavorsIn r).map OutputFlavor.fileSuffix

namespace EmitOptions

variable {o : EmitOptions}
variable {spaces : List String}

theorem stemPath_inj {stem other : String} :
    o.stemPath stem = o.stemPath other ↔ stem = other := by
  unfold stemPath
  rw [String.append_left_inj, String.append_right_inj]

/- What follows the base name tells the kinds of files apart. -/
theorem stemPath_ne_append
    (stem tail : String) :
    o.stemPath stem ≠ o.baseName ++ ("." ++ tail) := by
  unfold stemPath
  intro hSame
  rw [String.append_assoc, String.append_assoc,
    String.append_right_inj, ← String.toList_inj,
    String.toList_append, String.toList_append] at hSame
  have hHead := congrArg List.head? hSame
  simp at hHead

theorem basePath_eq (o : EmitOptions) :
    o.basePath = o.baseName ++ ("." ++ "ts") :=
  rfl

theorem flavorPath_eq (o : EmitOptions) (f : OutputFlavor) :
    o.flavorPath f = o.baseName ++ ("." ++ f.fileSuffix) := by
  unfold flavorPath
  rw [String.append_assoc]

theorem flavorPath_inj {f f' : OutputFlavor} :
    o.flavorPath f = o.flavorPath f' ↔
      f.fileSuffix = f'.fileSuffix := by
  rw [flavorPath_eq, flavorPath_eq, String.append_right_inj,
    String.append_right_inj]

theorem flavorPath_eq_basePath_iff {f : OutputFlavor} :
    o.flavorPath f = o.basePath ↔ f.fileSuffix = "ts" := by
  rw [flavorPath_eq, basePath_eq, String.append_right_inj,
    String.append_right_inj]

theorem nodup_basePaths_iff :
    (o.basePaths spaces).Nodup ↔
      (o.singleFile = false →
        FileStems.StemsApart spaces o.strippedPaths) := by
  unfold basePaths
  cases o.singleFile with
  | true => simp
  | false =>
      have hBase : ∀ p ∈ (sortTexts spaces).map
          (fun a => o.stemPath (o.stem spaces a)),
          ∀ q ∈ [o.basePath], p ≠ q := by
        intro p hp q hq
        rcases List.mem_map.mp hp with ⟨a, -, rfl⟩
        rw [List.mem_singleton.mp hq]
        exact stemPath_ne_append _ "ts"
      have hStems := List.nodup_map_iff_inj_on
        (f := fun a => o.stemPath (o.stem spaces a))
        (nodup_sortTexts spaces)
      simp only [stemPath_inj, mem_sortTexts] at hStems
      rw [if_neg Bool.false_ne_true, List.nodup_append, hStems,
        and_iff_left ⟨List.nodup_singleton _, hBase⟩,
        FileStems.stemsApart_iff, forall_prop_of_true rfl]
      rfl

theorem nodup_flavorPaths_iff {fs : List OutputFlavor} :
    (fs.map o.flavorPath).Nodup ↔
      (fs.map OutputFlavor.fileSuffix).Nodup := by
  unfold List.Nodup
  rw [List.pairwise_map, List.pairwise_map]
  simp only [ne_eq, flavorPath_inj]

/- Only the base file can have the path of a flavor. -/
theorem flavorPath_mem_basePaths_iff {f : OutputFlavor} :
    o.flavorPath f ∈ o.basePaths spaces ↔ f.fileSuffix = "ts" := by
  have hStem : ∀ stem, o.flavorPath f ≠ o.stemPath stem := by
    intro stem hSame
    rw [flavorPath_eq] at hSame
    exact stemPath_ne_append stem f.fileSuffix hSame.symm
  unfold basePaths
  split
  · rw [List.mem_singleton, flavorPath_eq_basePath_iff]
  · rw [List.mem_append, List.mem_singleton,
      flavorPath_eq_basePath_iff]
    constructor
    · rintro (hMem | hSame)
      · rcases List.mem_map.mp hMem with ⟨a, -, hSame⟩
        exact absurd hSame.symm (hStem _)
      · exact hSame
    · exact .inr

theorem disjoint_flavorPaths_iff {fs : List OutputFlavor} :
    (∀ p ∈ o.basePaths spaces, ∀ q ∈ fs.map o.flavorPath, p ≠ q) ↔
      "ts" ∉ fs.map OutputFlavor.fileSuffix := by
  constructor
  · intro hApart hMem
    rcases List.mem_map.mp hMem with ⟨f, hf, hSuffix⟩
    exact hApart _ (flavorPath_mem_basePaths_iff.mpr hSuffix) _
      (List.mem_map_of_mem hf) rfl
  · rintro hNot p hp q hq rfl
    rcases List.mem_map.mp hq with ⟨f, hf, rfl⟩
    apply hNot
    rw [← flavorPath_mem_basePaths_iff.mp hp]
    exact List.mem_map_of_mem hf

end EmitOptions

/-
  The paths of a configuration's files differ exactly if no
  namespaces clash that have files of their own, and the
  flavors have different suffixes.
-/
theorem Schema.nodup_artifactPaths_iff
    {s : Schema}
    {c : Config}
    {r : Registry OutputFlavor} :
    (s.artifactPaths c r).Nodup ↔
      (c.baseTypes = true → c.singleFile = false →
          FileStems.StemsApart s.spaces c.strippedPaths)
        ∧ c.FlavorsApart r := by
  unfold artifactPaths
  rw [List.nodup_append, EmitOptions.nodup_flavorPaths_iff]
  cases hTypes : c.baseTypes with
  | false =>
      constructor
      · rintro ⟨-, hDistinct, -⟩
        exact ⟨nofun, hDistinct, by simp [hTypes]⟩
      · rintro ⟨-, hFlavors⟩
        exact ⟨List.nodup_nil, hFlavors.distinct, nofun⟩
  | true =>
      rw [if_pos rfl, EmitOptions.nodup_basePaths_iff,
        EmitOptions.disjoint_flavorPaths_iff,
        forall_prop_of_true rfl]
      constructor
      · rintro ⟨hStems, hDistinct, hNot⟩
        exact ⟨hStems, hDistinct, fun _ => hNot⟩
      · rintro ⟨hStems, hFlavors⟩
        exact ⟨hStems, hFlavors.distinct,
          hFlavors.notBase hTypes⟩

------------------------------------------------------------
-- Checked Configurations
------------------------------------------------------------

/- Checked flavors are listed once and available. -/
theorem Config.eq_ok_of_checkFlavors
    {r : Registry OutputFlavor}
    {seen names : List String}
    (h : checkFlavors r seen names = .ok ()) :
    names.Nodup
      ∧ ∀ name ∈ names, name ∉ seen ∧ r.contains name = true := by
  induction names generalizing seen with
  | nil => exact ⟨List.nodup_nil, nofun⟩
  | cons name rest ih =>
      unfold checkFlavors at h
      split at h
      · cases h
      · next hNew =>
          split at h
          · cases h
          · next hKnown =>
              rcases ih h with ⟨hNodup, hRest⟩
              have hNot : name ∉ rest := fun hName =>
                (hRest name hName).1 List.mem_cons_self
              refine ⟨List.nodup_cons.mpr ⟨hNot, hNodup⟩, ?_⟩
              intro other hOther
              rcases List.mem_cons.mp hOther with rfl | hOther
              · exact ⟨by simpa using hNew, by simpa using hKnown⟩
              · have hLater := hRest other hOther
                exact ⟨fun hSeen => hLater.1
                  (List.mem_cons_of_mem _ hSeen), hLater.2⟩

theorem Registry.find?_builtin (name : String) :
    Registry.builtin.find? name =
      if name = "valibot" then some .valibot
      else if name = "zod" then some .zod
      else none := by
  have hEntries : Registry.builtin.entries =
      [("valibot", .valibot), ("zod", .zod)] := by
    rfl
  unfold find?
  rw [hEntries, List.lookup_cons, List.lookup_cons,
    List.lookup_nil]
  split
  · next hSame => rw [if_pos (beq_iff_eq.mp hSame)]
  · next hNot =>
      rw [if_neg (by simpa using hNot)]
      split
      · next hSame => rw [if_pos (beq_iff_eq.mp hSame)]
      · next hNot => rw [if_neg (by simpa using hNot)]

/- The suffix of a dialect of the library tells its name. -/
theorem Registry.fileSuffix_builtin
    {name : String}
    {d : Dialect}
    (h : Registry.builtin.find? name = some d) :
    d.fileSuffix = name ++ ".ts" := by
  rw [find?_builtin] at h
  split at h
  · next hName =>
      cases h
      rw [hName]
      rfl
  · split at h
    · next hName =>
        cases h
        rw [hName]
        rfl
    · cases h

/- The flavors of the library never share a file. -/
theorem Config.flavorsApart_builtin
    {c : Config}
    (h : c.check .builtin = .ok ()) :
    c.FlavorsApart .builtin := by
  unfold check at h
  rcases eq_ok_of_bind h with ⟨_, -, h⟩
  rcases eq_ok_of_bind h with ⟨_, hFlavors, -⟩
  have hNodup := (eq_ok_of_checkFlavors hFlavors).1
  have hSuffix : ∀ name f,
      Registry.builtin.flavors.find? name = some f →
        f.fileSuffix = name ++ ".ts" := by
    intro name f hFound
    rcases Registry.find?_flavors_eq_some_iff.mp hFound with
      ⟨d, hd, rfl⟩
    exact Registry.fileSuffix_builtin hd
  constructor
  · unfold flavorsIn
    rw [List.map_filterMap]
    apply hNodup.filterMap
    intro name other suffix hName hOther
    rcases Option.map_eq_some_iff.mp hName with ⟨f, hf, rfl⟩
    rcases Option.map_eq_some_iff.mp hOther with ⟨f', hf', hSame⟩
    rw [hSuffix name f hf, hSuffix other f' hf',
      String.append_left_inj] at hSame
    exact hSame.symm
  · intro _ hMem
    rcases List.mem_map.mp hMem with ⟨f, hf, hBase⟩
    rcases List.mem_filterMap.mp hf with ⟨name, -, hFound⟩
    rw [hSuffix name f hFound] at hBase
    have hLength := congrArg String.length hBase
    rw [String.length_append] at hLength
    have hLong : name.length + 3 = 2 := hLength
    omega

------------------------------------------------------------
-- Stored Files
------------------------------------------------------------

namespace RouteTable

/- The files of a report are those of its schema. -/
theorem paths_of_report
    {t : RouteTable}
    {c : Config}
    {extract : Extractor}
    {r : Registry OutputFlavor}
    {report : Report}
    (h : t.report c extract r = .ok report) :
    report.files.map OutputFile.path =
      report.schema.artifactPaths c r := by
  unfold RouteTable.report at h
  rcases eq_ok_of_bind h with ⟨_, -, h⟩
  rcases eq_ok_of_bind h with ⟨schema, -, h⟩
  rcases eq_ok_of_bind h with ⟨_, -, h⟩
  rcases eq_ok_of_bind h with ⟨e, hEmit, h⟩
  cases h
  exact Schema.paths_of_emit (eq_ok_of_mapError hEmit)

/-
  The files of an emission have different paths exactly if no
  two namespaces clash that get files of their own, and no
  two flavors have one file suffix.  Flavors of the library
  never do.  A run into memory with a report succeeds, and if
  the paths differ, then every file of the report is stored
  under its path.
-/
theorem artifacts_stored (c : Config) (r : Registry OutputFlavor) :
    (∀ (s : Schema) (e : Emission), s.emit c r = .ok e →
        ((e.files.map OutputFile.path).Nodup ↔
          (c.baseTypes = true → c.singleFile = false →
              FileStems.StemsApart s.spaces c.strippedPaths)
            ∧ c.FlavorsApart r))
      ∧ (r = .builtin → c.check r = .ok () → c.FlavorsApart r)
      ∧ ∀ (t : RouteTable) (extract : Extractor) (m : MemorySink)
          (report : Report),
        t.report c extract r = .ok report →
          ∃ n : MemorySink,
            t.generate c extract r (.memory m) =
                (.memory n, .ok report)
              ∧ ((c.baseTypes = true → c.singleFile = false →
                    FileStems.StemsApart report.schema.spaces
                      c.strippedPaths) →
                c.FlavorsApart r →
                ∀ f ∈ report.files,
                  n.get? f.path = some f.contents.toUTF8) := by
  refine ⟨?_, ?_, ?_⟩
  · intro s e hEmit
    rw [Schema.paths_of_emit hEmit]
    exact Schema.nodup_artifactPaths_iff
  · rintro rfl hCheck
    exact Config.flavorsApart_builtin hCheck
  · intro t extract m report hReport
    refine ⟨m.writeFiles (report.files.map fun f =>
      (f.path, f.contents.toUTF8)), ?_, ?_⟩
    · unfold generate
      rw [hReport]
      dsimp only
      rw [MemorySink.writeAll_memory]
    · intro hStems hFlavors f hf
      have hApart : ((report.files.map fun f =>
          (f.path, f.contents.toUTF8)).map Prod.fst).Nodup := by
        rw [List.map_map]
        have hPaths := Schema.nodup_artifactPaths_iff.mpr
          ⟨hStems, hFlavors⟩
        rw [← paths_of_report hReport] at hPaths
        exact hPaths
      exact m.get?_writeFiles hApart (List.mem_map_of_mem hf)

/- Records without fields, in some namespaces. -/
def emptyRecords (spaces : List String) : Schema :=
  { types := spaces.map fun space =>
      .record { id := { name := "Node", space } } }

/- Valid records without fields can be emitted. -/
theorem succeeds_emptyRecords
    {spaces : List String}
    {c : Config}
    {r : Registry Dialect}
    (hValid : (emptyRecords spaces).validate = [])
    (hFlavors : ∀ name ∈ c.flavors, r.contains name = true) :
    Succeeds ((emptyRecords spaces).emit c r) := by
  have hFlat : (emptyRecords spaces).IsFlat := by
    constructor
    · simp [emptyRecords, WireType.IsFlat, WireType.id?]
    · simp [emptyRecords, Schema.bodies]
  have hNot : ¬(emptyRecords spaces).HasOverflow := by
    simp [emptyRecords, Schema.HasOverflow, Schema.DeclOverflows]
  have hEmit := Schema.failsWhen_emit hValid hFlat hFlavors
  exact hEmit.succeeds_iff.mpr fun h => hNot h.2

/- A run without routes reports what is extracted. -/
theorem report_of_emit
    {c : Config}
    {r : Registry OutputFlavor}
    {s : Schema}
    {e : Emission}
    {known : WellKnown}
    (hCheck : c.check r = .ok ())
    (hKnown : c.wellKnown = .ok known)
    (hValid : s.validate = [])
    (hEmit : s.emit c r = .ok e) :
    RouteTable.report {} c (fun _ => .ok s) r =
      .ok
        { files := e.files
          warnings := s.warnings ++ e.warnings
          schema := s } := by
  have hSchema :
      RouteTable.buildSchema {} c (fun _ => .ok s) = .ok s := by
    unfold buildSchema
    rw [hKnown]
    rfl
  have hSound : s.ensureValid = .ok () := by
    unfold Schema.ensureValid
    rw [hValid]
  unfold RouteTable.report
  rw [hCheck, hSchema]
  change (s.ensureValid.mapError _ >>= _) = _
  rw [hSound]
  change ((s.emit c r).mapError _ >>= _) = _
  rw [hEmit]
  rfl

/- Namespaces that end alike are told apart by their paths. -/
theorem artifacts_stored_nodes :
    ∃ (n : MemorySink) (report : Report),
      RouteTable.generate {}
          { flavors := ["valibot", "zod"], singleFile := false }
          (fun _ => .ok (emptyRecords ["m/a/x", "m/b/x", "m/y"]))
          .builtin (.memory {}) =
        (.memory n, .ok report)
      ∧ report.files.map OutputFile.path =
        ["types/m_a_x.ts", "types/m_b_x.ts", "types/y.ts",
          "types.ts", "types.valibot.ts", "types.zod.ts"]
      ∧ ∀ f ∈ report.files,
        n.get? f.path = some f.contents.toUTF8 := by
  let s := emptyRecords ["m/a/x", "m/b/x", "m/y"]
  let c : Config :=
    { flavors := ["valibot", "zod"], singleFile := false }
  have hValid : s.validate = [] := by decide +kernel
  have hCheck : c.check .builtin = .ok () := by decide +kernel
  have hFlavors : ∀ name ∈ c.flavors,
      Registry.builtin.contains name = true := by
    decide +kernel
  have hApart : FileStems.StemsApart s.spaces [] := by
    decide +kernel
  rcases succeeds_emptyRecords hValid hFlavors with ⟨e, hEmit⟩
  have hKnown : c.wellKnown = .ok .default := rfl
  have hReport := report_of_emit hCheck hKnown hValid hEmit
  rcases artifacts_stored c .builtin with ⟨-, hBuiltin, hStored⟩
  rcases hStored {} _ {} _ hReport with ⟨n, hRun, hFiles⟩
  refine ⟨n, _, hRun, ?_, ?_⟩
  · rw [paths_of_report hReport]
    change s.artifactPaths c .builtin = _
    decide +kernel
  · exact hFiles (fun _ _ => hApart) (hBuiltin rfl hCheck)

/- Characters that are no letters do not tell paths apart. -/
theorem stems_clash :
    (emptyRecords ["m/b-c", "m/b.c"]).validate = []
      ∧ Config.check { singleFile := false } .builtin = .ok ()
      ∧ ∃ e : Emission,
        (emptyRecords ["m/b-c", "m/b.c"]).emit
            { singleFile := false } .builtin = .ok e
          ∧ ¬(e.files.map OutputFile.path).Nodup := by
  have hValid : (emptyRecords ["m/b-c", "m/b.c"]).validate = [] := by
    decide +kernel
  have hCheck : Config.check { singleFile := false } .builtin =
      .ok () := by
    decide +kernel
  have hClash : ¬FileStems.StemsApart
      (emptyRecords ["m/b-c", "m/b.c"]).spaces [] := by
    decide +kernel
  rcases succeeds_emptyRecords
    (c := { singleFile := false }) (r := .builtin) hValid nofun
    with ⟨e, hEmit⟩
  refine ⟨hValid, hCheck, e, hEmit, ?_⟩
  rw [Schema.paths_of_emit hEmit, Schema.nodup_artifactPaths_iff]
  intro hApart
  exact hClash (hApart.1 rfl rfl)

end RouteTable

end WireSchema
