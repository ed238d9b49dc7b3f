import Mathlib.Data.List.Chain
import WireSchema.Schema.Basic

/-
  Paths between declared names.

  A path takes one step of a relation after the other and
  meets no name twice, so it is never longer than there are
  declarations.

  Key definitions include:
    * `Schema.IsPath`
-/

namespace WireSchema

open Relation

section Chains

variable {R : TypeName → TypeName → Prop}

/- A chain of steps leads from its first name to its last. -/
theorem transGen_of_isChain
    {first last : TypeName}
    {between : List TypeName}
    (h : (first :: (between ++ [last])).IsChain R) :
    TransGen R first last := by
  induction between generalizing first with
  | nil =>
      rw [List.nil_append, List.isChain_pair] at h
      exact .single h
  | cons next rest ih =>
      rw [List.cons_append, List.isChain_cons_cons] at h
      exact .head h.1 (ih h.2)

/- A chain goes on from its last name. -/
theorem isChain_extend
    {path : List TypeName}
    {last next : TypeName}
    (hSteps : (path ++ [last]).IsChain R)
    (hNext : R last next) :
    ((path ++ [last]) ++ [next]).IsChain R := by
  refine List.isChain_append.mpr ⟨hSteps, by simp, ?_⟩
  intro x hx y hy
  simp only [List.getLast?_append, List.getLast?_singleton,
    Option.some_or, Option.mem_some] at hx
  simp only [List.head?_cons, Option.mem_some] at hy
  rwa [← hx, ← hy]

/- Every name of a chain leads to its end. -/
theorem transGen_of_mem
    {path : List TypeName}
    {name last : TypeName}
    (hSteps : (path ++ [last]).IsChain R)
    (hName : name ∈ path) : TransGen R name last := by
  rcases List.append_of_mem hName with ⟨before, after, rfl⟩
  rw [List.append_assoc, List.cons_append] at hSteps
  exact transGen_of_isChain
    (hSteps.suffix (List.suffix_append before _))

end Chains

namespace Schema

variable {s : Schema}
variable {R : TypeName → TypeName → Prop}

/- A path of steps: distinct names that are declared. -/
structure IsPath
    (s : Schema)
    (R : TypeName → TypeName → Prop)
    (path : List TypeName) : Prop where
  steps : path.IsChain R
  distinct : path.Nodup
  declared : path ⊆ s.names

theorem isPath_nil : s.IsPath R [] :=
  ⟨.nil, List.nodup_nil, List.nil_subset _⟩

/- A longer path, as long as it goes on to a new name. -/
theorem IsPath.extend
    {path : List TypeName}
    {id : TypeName}
    (h : s.IsPath R path)
    (hSteps : (path ++ [id]).IsChain R)
    (hName : id ∈ s.names)
    (hNew : id ∉ path) : s.IsPath R (path ++ [id]) where
  steps := hSteps
  distinct := by
    rw [List.nodup_append]
    refine ⟨h.distinct, by simp, ?_⟩
    intro other hOther last hLast hSame
    apply hNew
    rwa [← List.mem_singleton.mp hLast, ← hSame]
  declared := by
    rw [List.append_subset]
    exact ⟨h.declared, by simpa using hName⟩

/- No path is longer than there are declarations. -/
theorem IsPath.length_le
    {path : List TypeName}
    (h : s.IsPath R path) : path.length ≤ s.types.length := by
  calc
    path.length ≤ s.names.length :=
      h.distinct.length_le_of_subset h.declared
    _ ≤ s.types.length := List.length_filterMap_le ..

end Schema

end WireSchema
