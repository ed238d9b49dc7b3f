import Mathlib.Data.Set.Card
import WireSchema.Proofs.Schema.Parts
import WireSchema.Validation.Basic

/-
  Places inside a type.

  A place is the way to a part: at each step the number of a
  part among those directly inside.  What a walk over a type
  counts is the number of places where it stands.

  Key definitions include:
    * `WireType.parts`, `WireType.at?`
    * `WireType.places`
-/

namespace WireSchema

------------------------------------------------------------
-- Positions in Lists
------------------------------------------------------------

section Positions

variable {α β γ δ : Type}

/- A set over two forms is counted form by form. -/
theorem encard_forms
    {f : β → γ}
    {g : δ → γ}
    (hFirst : Function.Injective f)
    (hSecond : Function.Injective g)
    (hApart : ∀ b d, f b ≠ g d)
    (hForms : ∀ c, (∃ b, f b = c) ∨ ∃ d, g d = c)
    (T : Set γ) :
    T.encard = {b | f b ∈ T}.encard + {d | g d ∈ T}.encard := by
  have hSplit :
      T = f '' {b | f b ∈ T} ∪ g '' {d | g d ∈ T} := by
    ext c
    rcases hForms c with ⟨b, rfl⟩ | ⟨d, rfl⟩
    · have hNone : ∀ d, g d ≠ f b := fun d => (hApart b d).symm
      simp [hFirst.eq_iff, hNone]
    · simp [hSecond.eq_iff, hApart]
  have hDisjoint :
      Disjoint (f '' {b | f b ∈ T}) (g '' {d | g d ∈ T}) := by
    rw [Set.disjoint_left]
    rintro _ ⟨b, -, rfl⟩ ⟨d, -, hSame⟩
    exact hApart b d hSame.symm
  conv_lhs => rw [hSplit]
  rw [Set.encard_union_eq hDisjoint, hFirst.encard_image,
    hSecond.encard_image]

theorem encard_numbers (T : Set Nat) :
    T.encard =
      {_u : Unit | 0 ∈ T}.encard + {i | i + 1 ∈ T}.encard := by
  refine encard_forms (f := fun _ : Unit => 0)
    (g := fun i : Nat => i + 1) ?_ ?_ ?_ ?_ T
  · exact fun _ _ _ => rfl
  · exact Nat.succ_injective
  · exact fun _ i h => Nat.succ_ne_zero i h.symm
  · intro i
    cases i with
    | zero => exact .inl ⟨(), rfl⟩
    | succ i => exact .inr ⟨i, rfl⟩

theorem encard_pairs (T : Set (Nat × β)) :
    T.encard =
      {b | (0, b) ∈ T}.encard
        + {p : Nat × β | (p.1 + 1, p.2) ∈ T}.encard := by
  refine encard_forms (f := fun b : β => (0, b))
    (g := fun p : Nat × β => (p.1 + 1, p.2)) ?_ ?_ ?_ ?_ T
  · intro b c h
    exact (Prod.mk.inj h).2
  · rintro ⟨i, b⟩ ⟨j, c⟩ h
    simpa using h
  · intro b p h
    simp at h
  · rintro ⟨i, b⟩
    cases i with
    | zero => exact .inl ⟨b, rfl⟩
    | succ i => exact .inr ⟨(i, b), rfl⟩

theorem encard_paths (T : Set (List Nat)) :
    T.encard =
      {_u : Unit | [] ∈ T}.encard
        + {p : Nat × List Nat | p.1 :: p.2 ∈ T}.encard := by
  refine encard_forms (f := fun _ : Unit => [])
    (g := fun p : Nat × List Nat => p.1 :: p.2) ?_ ?_ ?_ ?_ T
  · exact fun _ _ _ => rfl
  · rintro ⟨i, b⟩ ⟨j, c⟩ h
    simpa using h
  · exact fun _ p h => List.cons_ne_nil p.1 p.2 h.symm
  · intro path
    cases path with
    | nil => exact .inl ⟨(), rfl⟩
    | cons i rest => exact .inr ⟨(i, rest), rfl⟩

theorem encard_unit {P : Prop} [Decidable P] :
    {_u : Unit | P}.encard = ((if P then 1 else 0 : Nat)) := by
  by_cases h : P
  · simp [h]
  · simp [h]

/- What stands in the entries of a list, counted together. -/
theorem encard_entries
    {xs : List α}
    {S : α → Set β}
    {n : α → Nat}
    (h : ∀ x ∈ xs, (S x).encard = n x) :
    {p : Nat × β | ∃ x, xs[p.1]? = some x ∧ p.2 ∈ S x}.encard =
      ((xs.map n).sum : Nat) := by
  induction xs with
  | nil => simp
  | cons x rest ih =>
      rw [List.forall_mem_cons] at h
      rw [encard_pairs, List.map_cons, List.sum_cons,
        Nat.cast_add, ← ih h.2, ← h.1]
      simp

/- The entries of a list that something holds of. -/
theorem encard_positions
    {xs : List α}
    {P : α → Prop}
    [DecidablePred P] :
    {i : Nat | ∃ x, xs[i]? = some x ∧ P x}.encard =
      (xs.countP (fun x => decide (P x)) : Nat) := by
  induction xs with
  | nil => simp
  | cons x rest ih =>
      rw [encard_numbers, List.countP_cons, Nat.cast_add, ← ih,
        add_comm]
      simp [encard_unit]

/- A count as a sum over the entries. -/
theorem countP_eq_sum
    (p : α → Bool)
    (xs : List α) :
    xs.countP p =
      (xs.map fun x => if p x = true then 1 else 0).sum := by
  induction xs with
  | nil => rfl
  | cons x rest ih =>
      rw [List.countP_cons, List.map_cons, List.sum_cons, ih,
        Nat.add_comm]

end Positions

namespace WireType

------------------------------------------------------------
-- Places
------------------------------------------------------------

/- The bound of a parameter, as a part marked as such. -/
def boundParts (p : TypeParam WireType) :
    List (Bool × WireType) :=
  p.bound.toList.map fun b => (true, b)

/-
  The types that stand directly inside a type, each with
  whether it is the bound of a type parameter.
-/
def parts : WireType → List (Bool × WireType)
  | .record d =>
      d.params.flatMap boundParts
        ++ d.fields.map fun f => (false, f.type)
  | .synonym d =>
      d.params.flatMap boundParts ++ [(false, d.target)]
  | .enum _ => []
  | .base .. => []
  | .array elem _ => [(false, elem)]
  | .map key value => [(false, key), (false, value)]
  | .reference _ => []
  | .pointer elem => [(false, elem)]
  | .union members => members.map fun t => (false, t)
  | .param p => boundParts p

/-
  What stands at a place, and whether in a bound, for a type
  that stands in a bound or not.
-/
def at? (inBound : Bool) (t : WireType) :
    List Nat → Option (Bool × WireType)
  | [] => some (inBound, t)
  | i :: rest =>
      t.parts[i]?.bind fun p => at? (inBound || p.1) p.2 rest

/- The places where something holds. -/
def places
    (Q : Bool → WireType → Prop)
    (inBound : Bool)
    (t : WireType) : Set (List Nat) :=
  {place | ∃ b u, t.at? inBound place = some (b, u) ∧ Q b u}

/- What passes from the parts of types to them always holds. -/
theorem inductionOnAllParts
    {P : WireType → Prop}
    (h : ∀ t : WireType, (∀ p ∈ t.parts, P p.2) → P t)
    (t : WireType) : P t := by
  have hBounds : ∀ ps : List (TypeParam WireType),
      (∀ p ∈ ps, ∀ b ∈ p.bound, P b) →
      ∀ q ∈ ps.flatMap boundParts, P q.2 := by
    intro ps hParams q hq
    rcases List.mem_flatMap.mp hq with ⟨p, hp, hq⟩
    rcases List.mem_map.mp hq with ⟨b, hb, rfl⟩
    exact hParams p hp b (Option.mem_toList.mp hb)
  induction t using inductionOnParts with
  | hRecord d hParams hFields =>
      apply h
      intro q hq
      rcases List.mem_append.mp hq with hq | hq
      · exact hBounds _ hParams q hq
      · rcases List.mem_map.mp hq with ⟨f, hf, rfl⟩
        exact hFields f hf
  | hSynonym d hParams hTarget =>
      apply h
      intro q hq
      rcases List.mem_append.mp hq with hq | hq
      · exact hBounds _ hParams q hq
      · rw [List.mem_singleton.mp hq]
        exact hTarget
  | hUnion members hMembers =>
      apply h
      intro q hq
      rcases List.mem_map.mp hq with ⟨t, ht, rfl⟩
      exact hMembers t ht
  | hParam p hBound =>
      have hParts : (param p).parts = [p].flatMap boundParts := by
        simp [parts]
      apply h
      rw [hParts]
      exact hBounds [p] (by simpa using hBound)
  | hEnum d => exact h _ nofun
  | hBase kind bits => exact h _ nofun
  | hReference id => exact h _ nofun
  | hArray elem len hElem => exact h _ (by simpa [parts])
  | hPointer elem hElem => exact h _ (by simpa [parts])
  | hMap key value hKey hValue =>
      exact h _ (by simp [parts, hKey, hValue])

/-
  A count that adds up over the parts of every type is the
  number of places.
-/
theorem encard_places
    {Q : Bool → WireType → Prop}
    [∀ b t, Decidable (Q b t)]
    (count : Bool → WireType → Nat)
    (h : ∀ b t, count b t =
      (if Q b t then 1 else 0)
        + (t.parts.map fun p => count (b || p.1) p.2).sum)
    (inBound : Bool)
    (t : WireType) :
    (places Q inBound t).encard = count inBound t := by
  induction t using inductionOnAllParts generalizing inBound with
  | h t ih =>
      have hHere :
          {_u : Unit | [] ∈ places Q inBound t}
            = {_u : Unit | Q inBound t} := by
        ext u
        constructor
        · rintro ⟨b, u, hHead, hQ⟩
          cases hHead
          exact hQ
        · exact fun hQ => ⟨inBound, t, rfl, hQ⟩
      have hInside :
          {p : Nat × List Nat | p.1 :: p.2 ∈ places Q inBound t}
            = {p | ∃ q, t.parts[p.1]? = some q
                ∧ p.2 ∈ places Q (inBound || q.1) q.2} := by
        ext p
        simp only [places, at?, Set.mem_ofPred_eq,
          Option.bind_eq_some_iff]
        constructor
        · rintro ⟨b, u, ⟨q, hq, hu⟩, hQ⟩
          exact ⟨q, hq, b, u, hu, hQ⟩
        · rintro ⟨q, hq, b, u, hu, hQ⟩
          exact ⟨b, u, ⟨q, hq, hu⟩, hQ⟩
      rw [encard_paths, hHere, hInside, encard_unit,
        encard_entries fun q hq => ih q hq (inBound || q.1), h,
        Nat.cast_add]

------------------------------------------------------------
-- Walks
------------------------------------------------------------

/- The references to names of some kind, place by place. -/
theorem encard_references
    {P : TypeName → Prop}
    [DecidablePred P]
    (t : WireType) :
    (places (fun _ u => ∃ id, u = .reference id ∧ P id)
        false t).encard =
      (t.references.countP (fun id => decide (P id)) : Nat) := by
  classical
  have hBounds : ∀ ps : List (TypeParam WireType),
      (ps.flatMap boundReferences).countP (fun id => decide (P id))
        = ((ps.flatMap boundParts).map fun q =>
          q.2.references.countP fun id => decide (P id)).sum := by
    intro ps
    induction ps with
    | nil => rfl
    | cons p rest ih =>
        rcases p with ⟨name, _ | bound⟩
        · simpa [boundReferences, boundParts] using ih
        · simpa [boundReferences, boundParts] using ih
  refine encard_places
    (fun _ u => u.references.countP fun id => decide (P id))
    ?_ false t
  intro b t
  cases t with
  | record d =>
      simp [parts, hBounds, List.countP_flatMap,
        Function.comp_def]
  | synonym d => simp [parts, hBounds]
  | union members =>
      simp [parts, List.countP_flatMap, Function.comp_def]
  | param p =>
      have hBound := hBounds [p]
      simpa [parts] using hBound
  | reference id => simp [parts, List.countP_cons]
  | _ => simp [parts]

theorem strayInTypes_eq
    (inBound : Bool)
    (ts : List WireType) :
    strayInTypes inBound ts =
      (ts.map (strayUnions inBound)).sum := by
  induction ts with
  | nil => simp [strayInTypes]
  | cons t rest ih => simp [strayInTypes, ih]

theorem strayInFields_eq
    (inBound : Bool)
    (fs : List (Field WireType)) :
    strayInFields inBound fs =
      (fs.map fun f => f.type.strayUnions inBound).sum := by
  induction fs with
  | nil => simp [strayInFields]
  | cons f rest ih =>
      rcases f with ⟨name, type, wireName⟩
      simp [strayInFields, strayInField, ih]

theorem strayInParam_eq
    (inBound : Bool)
    (p : TypeParam WireType) :
    strayInParam p =
      ((boundParts p).map fun q =>
        strayUnions (inBound || q.1) q.2).sum := by
  rcases p with ⟨name, _ | bound⟩
  · simp [strayInParam, strayInBound, boundParts]
  · simp [strayInParam, strayInBound, boundParts]

theorem strayInParams_eq
    (inBound : Bool)
    (ps : List (TypeParam WireType)) :
    strayInParams ps =
      ((ps.flatMap boundParts).map fun q =>
        strayUnions (inBound || q.1) q.2).sum := by
  induction ps with
  | nil => simp [strayInParams]
  | cons p rest ih =>
      rw [strayInParams, ih, strayInParam_eq inBound p,
        List.flatMap_cons, List.map_append, List.sum_append]

/- The unions outside of bounds, place by place. -/
theorem encard_strayUnions (t : WireType) :
    (places (fun b u => b = false ∧ ∃ ts, u = .union ts)
        false t).encard =
      (t.strayUnions false : Nat) := by
  classical
  refine encard_places strayUnions ?_ false t
  intro b t
  cases t with
  | record d =>
      simp [parts, strayUnions, strayInParams_eq b,
        strayInFields_eq, Function.comp_def]
  | synonym d => simp [parts, strayUnions, strayInParams_eq b]
  | union members =>
      cases b with
      | false =>
          simp [parts, strayUnions, strayInTypes_eq,
            Function.comp_def]
      | true =>
          simp [parts, strayUnions, strayInTypes_eq,
            Function.comp_def]
  | param p => simp [parts, strayUnions, strayInParam_eq b]
  | _ => simp [parts, strayUnions]

end WireType

end WireSchema
