import Mathlib.Data.List.Nodup
import WireSchema.Emit.Files
import WireSchema.Proofs.Emit.Declaration
import WireSchema.Proofs.Outcome
import WireSchema.Proofs.Schema.Sorted

/-
  Files that can be laid out, and what they import.

  What a file imports are names that its declarations or the
  services depend on.  With names for all of these, the files
  can be written, in one file and in one for each namespace.

  Imports are grouped by file, and the groups are in order of
  the files, so no file has two of them.  A name is imported
  from a file exactly if a type with that name is asked for
  whose namespace is filed there.

  Key definitions include:
    * `EmitScope.succeeds_layOut`
    * `EmitScope.Imports`, `EmitScope.InOrder`
    * `EmitScope.imports_importGroups_iff`
    * `EmitScope.linesFor`
-/

namespace WireSchema

namespace EmitScope

variable {x : EmitScope}
variable {files : FileStems}

------------------------------------------------------------
-- Imports
------------------------------------------------------------

theorem succeeds_importGroups
    {groups : List ImportGroup}
    {ids : List TypeName}
    (h : x.names.Covers ids) :
    Succeeds (x.importGroups files groups ids) := by
  induction ids generalizing groups with
  | nil =>
      unfold importGroups
      exact succeeds_ok groups
  | cons id rest ih =>
      have hParts := List.forall_mem_cons.mp h
      unfold importGroups
      split
      · exact ih hParts.2
      · apply (succeeds_name hParts.1).bind
        intro text _
        exact ih hParts.2

theorem succeeds_importLines
    {ids : List TypeName}
    (h : x.names.Covers ids)
    (dir : String) :
    Succeeds (x.importLines files ids dir) := by
  have hSorted : x.names.Covers (sortNames ids) := by
    intro id hId
    exact h id ((mem_sortNames id ids).mp hId)
  unfold importLines
  apply (succeeds_importGroups hSorted).bind
  intro groups _
  exact succeeds_ok _

------------------------------------------------------------
-- What Files Mention
------------------------------------------------------------

/- Declarations mention what the declared types depend on. -/
theorem covers_foreignNames
    (hDeclares : ∀ t ∈ x.schema.types, t.id?.isSome = true →
      x.names.Declares t)
    (group : NamespaceChunks) :
    x.names.Covers (x.foreignNames group) := by
  intro id hId
  unfold foreignNames at hId
  have hId := (List.mem_filter.mp hId).1
  rcases List.mem_flatMap.mp hId with ⟨c, -, hId⟩
  cases hFound : x.schema.find? c.id with
  | none =>
      rw [hFound] at hId
      cases hId
  | some t =>
      rw [hFound] at hId
      have hType := List.find?_some hFound
      have hDecl := hDeclares t
        (List.mem_of_find?_eq_some hFound)
        (by simp [beq_iff_eq.mp hType])
      exact hDecl.covers_dependencies id hId

theorem covers_serviceNames
    (h : x.Serves) : x.names.Covers x.serviceNames := by
  intro id hId
  unfold serviceNames at hId
  rcases List.mem_flatMap.mp hId with ⟨e, he, hId⟩
  rcases List.mem_append.mp hId with hId | hId
  · cases hRequest : e.request with
    | none =>
        rw [hRequest] at hId
        cases hId
    | some t =>
        rw [hRequest] at hId
        have hType := h e he _ (request_mem_bodies hRequest)
        exact hType.covers_dependencies id hId
  · have hType := h e he _ (response_mem_bodies e)
    exact hType.covers_dependencies id hId

------------------------------------------------------------
-- Files
------------------------------------------------------------

theorem succeeds_namespaceFile
    (hDeclares : ∀ t ∈ x.schema.types, t.id?.isSome = true →
      x.names.Declares t)
    (group : NamespaceChunks) :
    Succeeds (x.namespaceFile files group) := by
  unfold namespaceFile
  apply (succeeds_importLines
    (covers_foreignNames hDeclares group) "./").bind
  intro imports _
  exact succeeds_ok _

theorem succeeds_indexFile
    (hServes : x.Serves)
    (services : String) :
    Succeeds (x.indexFile files services) := by
  have hNames := covers_serviceNames hServes
  unfold indexFile
  dsimp only
  split
  · exact succeeds_ok _
  · apply (succeeds_importLines hNames _).bind
    intro imports _
    exact succeeds_ok _

/- The files of declarations and services can be laid out. -/
theorem succeeds_layOut
    (hDeclares : ∀ t ∈ x.schema.types, t.id?.isSome = true →
      x.names.Declares t)
    (hServes : x.Serves)
    (chunks : List Chunk) :
    Succeeds (x.layOut chunks) := by
  unfold layOut
  apply (succeeds_servicesText hServes).bind
  intro services _
  split
  · exact succeeds_ok _
  · dsimp only
    have hParts : Succeeds
        ((groupChunks chunks).mapM
          (x.namespaceFile
            (FileStems.ofNamespaces
              (chunks.map fun c => c.id.space)
              x.options.strippedPaths))) := by
      apply succeeds_mapM
      intro group _
      exact succeeds_namespaceFile hDeclares group
    apply hParts.bind
    intro parts _
    apply (succeeds_indexFile hServes services).bind
    intro index _
    exact succeeds_ok _

variable {groups : List ImportGroup}
variable {stem file name text : String}

------------------------------------------------------------
-- Groups
------------------------------------------------------------

/- A name is among those that are imported from a file. -/
def Imports
    (groups : List ImportGroup)
    (stem name : String) : Prop :=
  ∃ g ∈ groups, g.stem = stem ∧ name ∈ g.names

/- The groups are in order, each for a file of its own. -/
def InOrder (groups : List ImportGroup) : Prop :=
  groups.Pairwise fun g h => g.stem < h.stem

theorem imports_cons_iff {g : ImportGroup} :
    Imports (g :: groups) stem name ↔
      (g.stem = stem ∧ name ∈ g.names) ∨ Imports groups stem name :=
  List.exists_mem_cons_iff ..

/- An added name is imported, besides those that were. -/
theorem imports_addImport_iff :
    Imports (addImport stem name groups) file text ↔
      (stem = file ∧ text = name) ∨ Imports groups file text := by
  induction groups with
  | nil =>
      unfold addImport
      rw [imports_cons_iff, List.mem_singleton]
  | cons g rest ih =>
      unfold addImport
      split
      · rw [imports_cons_iff, List.mem_singleton]
      · split
        · next hSame =>
            rw [imports_cons_iff, imports_cons_iff, hSame,
              mem_insertSorted tellsApart_textBefore, and_or_left,
              or_assoc]
        · rw [imports_cons_iff, imports_cons_iff, ih,
            or_left_comm]

theorem stem_of_mem_addImport
    {g : ImportGroup}
    (h : g ∈ addImport stem name groups) :
    g.stem = stem ∨ ∃ g' ∈ groups, g.stem = g'.stem := by
  induction groups with
  | nil =>
      rw [List.mem_singleton.mp h]
      exact .inl rfl
  | cons first rest ih =>
      unfold addImport at h
      split at h
      · rcases List.mem_cons.mp h with rfl | h
        · exact .inl rfl
        · exact .inr ⟨g, h, rfl⟩
      · split at h
        · rcases List.mem_cons.mp h with rfl | h
          · exact .inr ⟨first, List.mem_cons_self, rfl⟩
          · exact .inr ⟨g, List.mem_cons_of_mem first h, rfl⟩
        · rcases List.mem_cons.mp h with rfl | h
          · exact .inr ⟨g, List.mem_cons_self, rfl⟩
          · rcases ih h with hStem | ⟨g', hg', hStem⟩
            · exact .inl hStem
            · exact .inr ⟨g', List.mem_cons_of_mem first hg', hStem⟩

/- An added name goes to the group of its file. -/
theorem inOrder_addImport (h : InOrder groups) :
    InOrder (addImport stem name groups) := by
  induction groups with
  | nil => exact List.pairwise_singleton _ _
  | cons g rest ih =>
      have hParts := List.pairwise_cons.mp h
      unfold addImport
      split
      · next hBefore =>
          refine List.pairwise_cons.mpr ⟨?_, h⟩
          intro g' hg'
          rcases List.mem_cons.mp hg' with rfl | hg'
          · exact hBefore
          · exact lt_trans hBefore (hParts.1 g' hg')
      · next hNot =>
          split
          · exact List.pairwise_cons.mpr hParts
          · next hOther =>
              have hBehind : g.stem < stem :=
                lt_of_le_of_ne (not_lt.mp hNot) (Ne.symm hOther)
              refine List.pairwise_cons.mpr ⟨?_, ih hParts.2⟩
              intro g' hg'
              rcases stem_of_mem_addImport hg' with
                hStem | ⟨g'', hg'', hStem⟩
              · rwa [hStem]
              · rw [hStem]
                exact hParts.1 g'' hg''

/-
  The groups of some types: what is imported are their names,
  each from the file of its namespace, besides what was.
-/
theorem imports_importGroups_iff
    {ids : List TypeName}
    {all : List ImportGroup}
    (h : x.importGroups files groups ids = .ok all) :
    Imports all file text ↔
      Imports groups file text
        ∨ ∃ id ∈ ids, files.find? id.space = some file
          ∧ x.name id = .ok text := by
  induction ids generalizing groups with
  | nil =>
      cases h
      simp
  | cons id rest ih =>
      rw [List.exists_mem_cons_iff]
      unfold importGroups at h
      cases hFile : files.find? id.space with
      | none =>
          rw [hFile] at h
          simpa using ih h
      | some stem =>
          rw [hFile] at h
          rcases eq_ok_of_bind h with ⟨name, hName, h⟩
          rw [ih h, imports_addImport_iff, hName,
            Option.some.injEq, Except.ok.injEq,
            eq_comm (a := text), or_assoc, or_left_comm]

theorem inOrder_importGroups
    {ids : List TypeName}
    {all : List ImportGroup}
    (hOrder : InOrder groups)
    (h : x.importGroups files groups ids = .ok all) :
    InOrder all := by
  induction ids generalizing groups with
  | nil =>
      cases h
      exact hOrder
  | cons id rest ih =>
      unfold importGroups at h
      split at h
      · exact ih hOrder h
      · rcases eq_ok_of_bind h with ⟨name, -, h⟩
        exact ih (inOrder_addImport hOrder) h

------------------------------------------------------------
-- Lines
------------------------------------------------------------

/- The lines that import a name. -/
def linesFor
    (groups : List ImportGroup)
    (name : String) : List ImportGroup :=
  groups.filter fun g => g.names.contains name

theorem mem_linesFor_iff {g : ImportGroup} :
    g ∈ linesFor groups name ↔ g ∈ groups ∧ name ∈ g.names := by
  unfold linesFor
  rw [List.mem_filter, List.contains_iff_mem]

theorem linesFor_eq_nil_iff :
    linesFor groups name = [] ↔ ∀ stem, ¬Imports groups stem name := by
  rw [List.eq_nil_iff_forall_not_mem]
  simp only [mem_linesFor_iff, Imports]
  grind

/- A name that is imported from one file has one line. -/
theorem linesFor_eq_singleton
    (hOrder : InOrder groups)
    (hImports : Imports groups stem name)
    (hOnly : ∀ file, Imports groups file name → file = stem) :
    ∃ g, linesFor groups name = [g] ∧ g.stem = stem := by
  rcases hImports with ⟨g, hg, hStem, hName⟩
  refine ⟨g, ?_, hStem⟩
  have hStems : (groups.map ImportGroup.stem).Nodup :=
    List.pairwise_map.mpr (hOrder.imp ne_of_lt)
  have hNodup : (linesFor groups name).Nodup :=
    hStems.of_map.filter _
  have hSame : ∀ g', g' ∈ linesFor groups name ↔ g' ∈ [g] := by
    intro g'
    rw [mem_linesFor_iff, List.mem_singleton]
    constructor
    · rintro ⟨hg', hName'⟩
      have hFile := hOnly g'.stem ⟨g', hg', rfl, hName'⟩
      exact List.inj_on_of_nodup_map hStems hg' hg
        (hFile.trans hStem.symm)
    · rintro rfl
      exact ⟨hg, hName⟩
  rw [← List.perm_singleton,
    List.perm_ext_iff_of_nodup hNodup (List.nodup_singleton g)]
  exact hSame

------------------------------------------------------------
-- Files without Imports
------------------------------------------------------------

/- No two types are emitted under one name. -/
def NamesApart (x : EmitScope) : Prop :=
  ∀ id other text,
    x.name id = .ok text → x.name other = .ok text → id = other

section Lines

variable {ids : List TypeName}
variable {id : TypeName}
variable
  (hApart : x.NamesApart)
  (hGroups :
    x.importGroups files [] (sortNames ids) = .ok groups)
  (hName : x.name id = .ok name)

include hApart hGroups hName

/- A name is imported from a file if its type is asked for. -/
theorem imports_iff :
    Imports groups file name ↔
      id ∈ ids ∧ files.find? id.space = some file := by
  rw [imports_importGroups_iff hGroups]
  constructor
  · rintro (⟨g, hg, -⟩ | ⟨other, hOther, hFile, hSame⟩)
    · cases hg
    · cases hApart id other name hName hSame
      exact ⟨(mem_sortNames id ids).mp hOther, hFile⟩
  · rintro ⟨hId, hFile⟩
    exact .inr ⟨id, (mem_sortNames id ids).mpr hId, hFile, hName⟩

/- A type that is asked for has one line. -/
theorem linesFor_of_mem
    (hId : id ∈ ids)
    (hFile : files.find? id.space = some file) :
    ∃ g, linesFor groups name = [g] ∧ g.stem = file := by
  have hOrder : InOrder groups :=
    inOrder_importGroups List.Pairwise.nil hGroups
  have hIff : ∀ other, Imports groups other name ↔
      id ∈ ids ∧ files.find? id.space = some other :=
    fun _ => imports_iff hApart hGroups hName
  apply linesFor_eq_singleton hOrder ((hIff file).mpr ⟨hId, hFile⟩)
  intro other hOther
  have hFile' := ((hIff other).mp hOther).2
  exact Option.some.inj (hFile'.symm.trans hFile)

/- A type that is not asked for has no line. -/
theorem linesFor_of_not_mem (hId : id ∉ ids) :
    linesFor groups name = [] := by
  rw [linesFor_eq_nil_iff]
  intro file hImports
  exact hId ((imports_iff hApart hGroups hName).mp hImports).1

end Lines

end EmitScope

end WireSchema
