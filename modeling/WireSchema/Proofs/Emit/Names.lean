import Mathlib.Data.List.Nodup
import Mathlib.Data.List.Perm.Subperm
import WireSchema.Emit.Names
import WireSchema.Proofs.Number.Digits
import WireSchema.Proofs.Schema.Sorted

/-
  The names that types are emitted under.

  Exactly the declared types of a schema have one, and no two
  of them the same one.  A name that is taken gets a number.
  Numbered names differ, so a search that looks at one more of
  them than there are names in use finds the first one that is
  free.

  Key definitions include:
    * `EmittedNames.isSome_find?_iff`
    * `freshName_cases`: the first free name
    * `EmittedNames.find?_inj`
    * `EmittedNames.names_apart`
-/

namespace WireSchema

------------------------------------------------------------
-- Declared Names
------------------------------------------------------------

namespace EmittedNames

/- Every proposal is given a name, in the given order. -/
theorem map_fst_assign
    (entries : List (TypeName × String))
    (proposals : List NameProposal) :
    (assign entries proposals).map Prod.fst =
      entries.map Prod.fst ++ proposals.map NameProposal.id := by
  induction proposals generalizing entries with
  | nil => simp [assign]
  | cons p rest ih => simp [assign, ih]

/- What a type proposes is about the type itself. -/
@[simp] theorem id_propose
    (stripped : List String)
    (ids : List TypeName)
    (id : TypeName) :
    (propose stripped ids id).id = id := by
  unfold propose
  dsimp only
  split
  · rfl
  · rfl

/- Each declared type has one entry. -/
theorem perm_map_fst_entries
    (s : Schema)
    (stripped : List String) :
    ((ofSchema s stripped).entries.map Prod.fst).Perm
      (sortNames s.names) := by
  unfold ofSchema
  dsimp only
  rw [map_fst_assign, List.map_nil, List.nil_append]
  have hSorted := (perm_sortUpTo NameProposal.upTo
    ((sortNames s.names).map
      (propose stripped (sortNames s.names)))).map NameProposal.id
  rw [List.map_map] at hSorted
  have hSame :
      (sortNames s.names).map
          (NameProposal.id
            ∘ propose stripped (sortNames s.names)) =
        sortNames s.names := by
    simp [Function.comp_def]
  rwa [hSame] at hSorted

/- A type has a name exactly when it is declared. -/
theorem isSome_find?_iff
    {s : Schema}
    {stripped : List String}
    {id : TypeName} :
    ((ofSchema s stripped).find? id).isSome = true ↔
      id ∈ s.names := by
  have hEntries :=
    (perm_map_fst_entries s stripped).mem_iff (a := id)
  rw [mem_sortNames] at hEntries
  rw [← hEntries]
  unfold find?
  simp [List.lookup_isSome_iff]

end EmittedNames

variable {used : List String}
variable {base : String}

------------------------------------------------------------
-- Numbered Names
------------------------------------------------------------

theorem numberedName_injective (base : String) :
    Function.Injective (numberedName base) := by
  intro n m hSame
  unfold numberedName at hSame
  rw [String.append_right_inj] at hSame
  rw [← digitsValue_toString n, hSame, digitsValue_toString m]

/- Names in use are at least as many as numbered ones there. -/
theorem length_le_of_numbered
    {n count : Nat}
    (h : ∀ j < count, numberedName base (n + j) ∈ used) :
    count ≤ used.length := by
  let numbered :=
    (List.range count).map fun j => numberedName base (n + j)
  have hNodup : numbered.Nodup := by
    apply List.nodup_range.map
    intro i j hSame
    exact Nat.add_left_cancel (numberedName_injective base hSame)
  have hUsed : numbered ⊆ used := by
    intro name hName
    rcases List.mem_map.mp hName with ⟨j, hj, rfl⟩
    exact h j (List.mem_range.mp hj)
  have hLength := (hNodup.subperm hUsed).length_le
  rwa [List.length_map, List.length_range] at hLength

------------------------------------------------------------
-- Searches
------------------------------------------------------------

/-
  A search passes over numbers whose names are in use.  It
  stops at a free name or when its steps are used up.
-/
theorem freshNumbered_cases
    (used : List String)
    (base : String)
    (more n : Nat) :
    ∃ k ≤ more,
      freshNumbered used base more n = numberedName base (n + k)
        ∧ (∀ j < k, numberedName base (n + j) ∈ used)
        ∧ (numberedName base (n + k) ∈ used → k = more) := by
  induction more generalizing n with
  | zero => exact ⟨0, le_rfl, rfl, nofun, fun _ => rfl⟩
  | succ more ih =>
      unfold freshNumbered
      split
      · next hTaken =>
          rcases ih (n + 1) with ⟨k, hk, hName, hPassed, hEnd⟩
          have hShift : ∀ j, n + 1 + j = n + (j + 1) := by omega
          simp only [hShift] at hName hPassed hEnd
          refine ⟨k + 1, by omega, hName, ?_, ?_⟩
          · intro j hj
            cases j with
            | zero => simpa using hTaken
            | succ j => exact hPassed j (by omega)
          · intro hUsed
            rw [hEnd hUsed]
      · next hFree =>
          refine ⟨0, by omega, rfl, nofun, ?_⟩
          intro hUsed
          exact absurd (by simpa using hUsed) hFree

/-
  A free name stays.  One in use gets the least number from
  two on that makes it free.
-/
theorem freshName_cases (used : List String) (base : String) :
    (base ∉ used ∧ freshName used base = base)
      ∨ (base ∈ used ∧ ∃ k,
        freshName used base = numberedName base (2 + k)
          ∧ numberedName base (2 + k) ∉ used
          ∧ ∀ j < k, numberedName base (2 + j) ∈ used) := by
  unfold freshName
  split
  · next hTaken =>
      right
      rcases freshNumbered_cases used base used.length 2 with
        ⟨k, -, hName, hPassed, hEnd⟩
      refine ⟨by simpa using hTaken, k, hName, ?_, hPassed⟩
      intro hUsed
      -- One more name would be in use than there are.
      have hAll : ∀ j < k + 1,
          numberedName base (2 + j) ∈ used := by
        intro j hj
        rcases Nat.lt_succ_iff_lt_or_eq.mp hj with hj | rfl
        · exact hPassed j hj
        · exact hUsed
      have hCount := length_le_of_numbered hAll
      rw [hEnd hUsed] at hCount
      omega
  · next hFree => exact .inl ⟨by simpa using hFree, rfl⟩

theorem freshName_not_mem : freshName used base ∉ used := by
  rcases freshName_cases used base with
    ⟨hFree, hName⟩ | ⟨-, k, hName, hFree, -⟩
  · rwa [hName]
  · rwa [hName]

------------------------------------------------------------
-- Assigned Names
------------------------------------------------------------

namespace EmittedNames

variable {s : Schema}
variable {stripped : List String}
variable {id other : TypeName}

/- Names that are given one after the other differ. -/
theorem nodup_assign
    {entries : List (TypeName × String)}
    (h : (entries.map Prod.snd).Nodup)
    (proposals : List NameProposal) :
    ((assign entries proposals).map Prod.snd).Nodup := by
  induction proposals generalizing entries with
  | nil => exact h
  | cons p rest ih =>
      unfold assign
      apply ih
      rw [List.map_append, List.map_singleton]
      rw [← List.concat_eq_append]
      exact h.concat freshName_not_mem

theorem nodup_map_snd_entries
    (s : Schema)
    (stripped : List String) :
    ((ofSchema s stripped).entries.map Prod.snd).Nodup := by
  have hNone : (([] : List (TypeName × String)).map Prod.snd).Nodup :=
    List.nodup_nil
  exact nodup_assign hNone _

theorem mem_entries_of_find?
    {e : EmittedNames}
    {name : String}
    (h : e.find? id = some name) : (id, name) ∈ e.entries := by
  rcases List.lookup_eq_some_iff.mp h with ⟨before, after, hSplit, -⟩
  rw [hSplit]
  exact List.mem_append_right before List.mem_cons_self

/- A name tells which type it was given to. -/
theorem find?_inj
    {name : String}
    (h : (ofSchema s stripped).find? id = some name)
    (hOther : (ofSchema s stripped).find? other = some name) :
    id = other := by
  have hSame := List.inj_on_of_nodup_map
    (nodup_map_snd_entries s stripped)
    (mem_entries_of_find? h) (mem_entries_of_find? hOther) rfl
  exact congrArg Prod.fst hSame

/-
  Exactly the declared types of a schema are given a name, and
  no two of them are given the same one.
-/
theorem names_apart (s : Schema) (stripped : List String) :
    (∀ id, ((ofSchema s stripped).find? id).isSome = true ↔
        id ∈ s.names)
      ∧ ∀ id ∈ s.names, ∀ other ∈ s.names,
        (ofSchema s stripped).find? id =
            (ofSchema s stripped).find? other →
          id = other := by
  refine ⟨fun _ => isSome_find?_iff, ?_⟩
  intro id hId other _ hSame
  have hSome :
      ((ofSchema s stripped).find? id).isSome = true :=
    isSome_find?_iff.mpr hId
  rcases Option.isSome_iff_exists.mp hSome with ⟨name, hName⟩
  exact find?_inj hName (hSame.symm.trans hName)

/-
  Two namespaces that become one word, and a type that already
  has the name with the first number.
-/
def crowdedNames : Schema :=
  { types :=
      [.record { id := { name := "Node", space := "a/x" } },
        .record { id := { name := "Node", space := "a-x" } },
        .record { id := { name := "AXNode_2", space := "b" } }] }

theorem names_apart_crowded :
    (ofSchema crowdedNames []).entries =
        [({ name := "AXNode_2", space := "b" }, "AXNode_2"),
          ({ name := "Node", space := "a-x" }, "AXNode"),
          ({ name := "Node", space := "a/x" }, "AXNode_3")]
      ∧ (ofSchema crowdedNames []).find?
          { name := "Node", space := "a-x" } ≠
        (ofSchema crowdedNames []).find?
          { name := "Node", space := "a/x" } := by
  refine ⟨?_, ?_⟩
  · decide +kernel
  · intro hSame
    have hEq := (names_apart crowdedNames []).2 _ (by decide) _
      (by decide) hSame
    exact absurd hEq (by decide)

end EmittedNames

end WireSchema
