import Mathlib.Data.List.Nodup
import WireSchema.Json.View

/-
  Records are read back from the members that were given.

  A record is written as an object with some of its members
  left out.  Its view has exactly the members that were given,
  and each one is read under its name.

  Key definitions include:
    * `Json.given`
    * `Json.view?_given`
    * `View.Gives`
-/

namespace WireSchema

namespace Json

variable {members : List (String × Json)}
variable {ms : List (String × Option Json)}

/- The members that there are, in order. -/
def given (ms : List (String × Option Json)) :
    List (String × Json) :=
  ms.filterMap fun m => m.2.map fun v => (m.1, v)

theorem given_some (name : String) (v : Json) :
    given [(name, some v)] = [(name, v)] :=
  rfl

/- Each member is given on its own. -/
theorem given_cons_cons
    (m n : String × Option Json)
    (ms : List (String × Option Json)) :
    given (m :: n :: ms) = given [m] ++ given (n :: ms) :=
  List.filterMap_append (l := [m])

theorem mem_given {m : String × Json} :
    m ∈ given ms ↔ (m.1, some m.2) ∈ ms := by
  unfold given
  rw [List.mem_filterMap]
  constructor
  · rintro ⟨⟨n, o⟩, hMem, hSome⟩
    rcases Option.map_eq_some_iff.mp hSome with ⟨v, rfl, rfl⟩
    exact hMem
  · intro hMem
    exact ⟨_, hMem, rfl⟩

theorem given_names_sublist :
    ((given ms).map Prod.fst).Sublist (ms.map Prod.fst) := by
  induction ms with
  | nil => exact .slnil
  | cons m rest ih =>
      rcases m with ⟨n, _ | v⟩
      · exact ih.cons n
      · exact ih.cons_cons n

------------------------------------------------------------
-- Views
------------------------------------------------------------

/- No name is repeated among different names. -/
theorem repeatsName_of_nodup
    (h : (members.map Prod.fst).Nodup)
    (name : String) : repeatsName members name = false := by
  have hCount := List.nodup_iff_count_le_one.mp h name
  rw [List.count, List.countP_map, List.countP_eq_length_filter]
    at hCount
  unfold repeatsName
  exact decide_eq_false (Nat.not_lt.mpr hCount)

end Json

/- A view that holds what was given, under each name. -/
def View.Gives
    (v : View)
    (ms : List (String × Option Json)) : Prop :=
  ∀ name o, (name, o) ∈ ms → v.get? name = o

/- Each name has the value that was given under it. -/
theorem View.gives_given
    {ms : List (String × Option Json)}
    (hDistinct : (ms.map Prod.fst).Nodup) :
    View.Gives ⟨Json.given ms⟩ ms := by
  intro name o hMem
  unfold get?
  induction ms with
  | nil => cases hMem
  | cons m rest ih =>
      rcases m with ⟨n, p⟩
      rw [List.map_cons, List.nodup_cons] at hDistinct
      rcases List.mem_cons.mp hMem with hHead | hLater
      · cases hHead
        cases o with
        | some v => exact List.lookup_cons_self
        | none =>
            apply List.lookup_eq_none_iff.mpr
            intro q hq
            have hKey : q.1 ∈ rest.map Prod.fst :=
              Json.given_names_sublist.subset
                (List.mem_map_of_mem hq)
            rw [bne_iff_ne]
            rintro rfl
            exact hDistinct.1 hKey
      · have hNe : name ≠ n := by
          rintro rfl
          exact hDistinct.1 (List.mem_map.mpr ⟨_, hLater, rfl⟩)
        have hRest := ih hDistinct.2 hLater
        cases p with
        | none => exact hRest
        | some v =>
            change ((n, v) :: Json.given rest).lookup name = o
            rw [List.lookup_cons, beq_false_of_ne hNe]
            exact hRest

/- A record is viewed as it was given. -/
theorem Json.view?_given
    (ms : List (String × Option Json))
    (names : List String)
    (hNames : ms.map Prod.fst = names)
    (hDistinct : names.Nodup) :
    ∃ v, (Json.object (given ms)).view? names = some v
      ∧ v.Gives ms := by
  subst hNames
  have hNodup := hDistinct.sublist given_names_sublist
  have hOnce : (ms.map Prod.fst).any (repeatsName (given ms)) =
      false := by
    rw [List.any_eq_false]
    intro name _
    rw [repeatsName_of_nodup hNodup]
    exact Bool.false_ne_true
  have hAll : (given ms).filter
      (fun m => (ms.map Prod.fst).contains m.1) = given ms := by
    rw [List.filter_eq_self]
    intro m hMem
    rw [List.contains_iff_mem]
    exact given_names_sublist.subset (List.mem_map_of_mem hMem)
  refine ⟨⟨given ms⟩, ?_, View.gives_given hDistinct⟩
  simp only [view?, hOnce, hAll, Bool.false_eq_true, if_false]

------------------------------------------------------------
-- Lists
------------------------------------------------------------

/- A list is read back if each of its members is. -/
theorem Json.list?_map
    {α : Type}
    {read : Json → Option α}
    {write : α → Json}
    {xs : List α}
    (h : ∀ x ∈ xs, read (write x) = some x) :
    list? read (.array (xs.map write)) = some xs := by
  change (xs.map write).mapM read = some xs
  induction xs with
  | nil => rfl
  | cons x rest ih =>
      rw [List.forall_mem_cons] at h
      rw [List.map_cons, List.mapM_cons, h.1, ih h.2]
      rfl

------------------------------------------------------------
-- Members
------------------------------------------------------------

/- A value that is only given when it says something. -/
def Json.givenIf (present : Bool) (v : Json) : Option Json :=
  if present then some v else none

namespace View.Gives

variable {α : Type}
variable {v : View}
variable {ms : List (String × Option Json)}
variable {name : String}
variable {read : Json → Option α}

theorem required?
    {j : Json}
    (h : v.Gives ms)
    (hMem : (name, some j) ∈ ms) :
    v.required? name read = read j := by
  unfold View.required?
  rw [h _ _ hMem]
  rfl

theorem orElse?
    {j : Json}
    {absent : α}
    (h : v.Gives ms)
    (hMem : (name, some j) ∈ ms) :
    v.orElse? name absent read = read j := by
  unfold View.orElse?
  rw [h _ _ hMem]

/- What is left out when it has its default is restored. -/
theorem orElse?_if
    {b : Bool}
    {j : Json}
    {a absent : α}
    (h : v.Gives ms)
    (hMem : (name, Json.givenIf b j) ∈ ms)
    (hAbsent : b = false → a = absent)
    (hRead : read j = some a) :
    v.orElse? name absent read = some a := by
  unfold View.orElse?
  rw [h _ _ hMem]
  cases b with
  | false => rw [hAbsent rfl]; rfl
  | true => exact hRead

/- What is only given when there is something is restored. -/
theorem optional?
    {w : α → Json}
    {x : Option α}
    (h : v.Gives ms)
    (hMem : (name, x.map w) ∈ ms)
    (hNull : ∀ y, w y ≠ .null)
    (hRead : ∀ y ∈ x, read (w y) = some y) :
    v.optional? name read = some x := by
  unfold View.optional? View.orElse?
  rw [h _ _ hMem]
  cases x with
  | none => rfl
  | some y =>
      dsimp only [Option.map_some]
      unfold Json.orNull?
      split
      · next hIs => exact absurd hIs (hNull y)
      · rw [hRead y rfl]
        rfl

/- A list that is only given when it is not empty. -/
theorem list
    {w : α → Json}
    {xs : List α}
    (h : v.Gives ms)
    (hMem :
      (name, Json.givenIf (!xs.isEmpty) (.array (xs.map w))) ∈ ms)
    (hRead : ∀ x ∈ xs, read (w x) = some x) :
    v.orElse? name [] (Json.list? read) = some xs := by
  apply h.orElse?_if hMem
  · intro hNone
    simpa using hNone
  · exact Json.list?_map hRead

end View.Gives

------------------------------------------------------------
-- Forms
------------------------------------------------------------

namespace Json

/- The form that stands in front is split off. -/
theorem splitTag?_cons
    {tag : String}
    {form : Json}
    {members : List (String × Json)}
    (h : tag ∉ members.map Prod.fst) :
    splitTag? tag (.object ((tag, form) :: members)) =
      some (form, .object members) := by
  have hNone : members.filter (fun m => m.1 == tag) = [] := by
    rw [List.filter_eq_nil_iff]
    intro m hm hSame
    exact h (List.mem_map.mpr ⟨m, hm, beq_iff_eq.mp hSame⟩)
  have hAll : members.filter (fun m => m.1 != tag) = members := by
    rw [List.filter_eq_self]
    intro m hm
    rw [bne_iff_ne]
    rintro rfl
    exact h (List.mem_map_of_mem hm)
  have hOnce : repeatsName ((tag, form) :: members) tag = false := by
    simp [repeatsName, hNone]
  simp [splitTag?, hOnce, hAll]

end Json

end WireSchema
