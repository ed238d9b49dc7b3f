import Mathlib.Data.List.Sort
import Mathlib.Data.String.Basic
import WireSchema.Schema.Name

/-
  Sorted sets hold what was put in them, in order.

  An order that tells any two elements apart puts every
  element in; one that is transitive keeps the set sorted.
  A list is sorted by a total order, and keeps what it holds
  more than once.

  Key definitions include:
    * `TellsApart`, `Chains`, `IsStrict`
    * `sortDistinct_congr`: only the members count
    * `perm_sortUpTo`, `pairwise_sortUpTo`
-/

namespace WireSchema

variable {α : Type}
variable {lt : α → α → Bool}

/- Elements that no order holds between are the same. -/
def TellsApart (lt : α → α → Bool) : Prop :=
  ∀ a b, lt a b = false → lt b a = false → a = b

/- An order that chains. -/
def Chains (lt : α → α → Bool) : Prop :=
  ∀ a b c, lt a b = true → lt b c = true → lt a c = true

/- An order that nothing precedes itself in. -/
def IsStrict (lt : α → α → Bool) : Prop :=
  ∀ a, lt a a = false

------------------------------------------------------------
-- Members
------------------------------------------------------------

theorem mem_insertSorted
    (hApart : TellsApart lt)
    (x y : α)
    (ys : List α) :
    y ∈ insertSorted lt x ys ↔ y = x ∨ y ∈ ys := by
  constructor
  · exact mem_of_mem_insertSorted
  · intro h
    induction ys with
    | nil => simpa [insertSorted] using h
    | cons z zs ih =>
        unfold insertSorted
        split
        · simpa using h
        · next hxz =>
            split
            · rcases h with rfl | h
              · exact List.mem_cons_of_mem z (ih (.inl rfl))
              · rcases List.mem_cons.mp h with rfl | h
                · exact List.mem_cons_self
                · exact List.mem_cons_of_mem z (ih (.inr h))
            · next hzx =>
                have hSame : x = z :=
                  hApart x z (by simpa using hxz)
                    (by simpa using hzx)
                rcases h with rfl | h
                · rw [hSame]
                  exact List.mem_cons_self
                · exact h

theorem mem_foldl_insertSorted
    (hApart : TellsApart lt)
    (y : α)
    (xs acc : List α) :
    y ∈ xs.foldl (fun acc x => insertSorted lt x acc) acc ↔
      y ∈ acc ∨ y ∈ xs := by
  induction xs generalizing acc with
  | nil => simp
  | cons x rest ih =>
      rw [List.foldl_cons, ih, mem_insertSorted hApart,
        List.mem_cons]
      constructor
      · rintro ((h | h) | h)
        · exact .inr (.inl h)
        · exact .inl h
        · exact .inr (.inr h)
      · rintro (h | h | h)
        · exact .inl (.inr h)
        · exact .inl (.inl h)
        · exact .inr h

theorem mem_sortDistinct
    (hApart : TellsApart lt)
    (y : α)
    (xs : List α) : y ∈ sortDistinct lt xs ↔ y ∈ xs := by
  unfold sortDistinct
  rw [mem_foldl_insertSorted hApart]
  simp

------------------------------------------------------------
-- Order
------------------------------------------------------------

theorem pairwise_insertSorted
    (hChains : Chains lt)
    {x : α}
    {ys : List α}
    (h : ys.Pairwise fun a b => lt a b = true) :
    (insertSorted lt x ys).Pairwise fun a b => lt a b = true := by
  induction ys with
  | nil => simp [insertSorted]
  | cons z zs ih =>
      have hParts := List.pairwise_cons.mp h
      unfold insertSorted
      split
      · next hxz =>
          rw [List.pairwise_cons]
          refine ⟨?_, h⟩
          intro w hw
          rcases List.mem_cons.mp hw with rfl | hw
          · exact hxz
          · exact hChains x z w hxz (hParts.1 w hw)
      · split
        · next hzx =>
            rw [List.pairwise_cons]
            refine ⟨?_, ih hParts.2⟩
            intro w hw
            rcases mem_of_mem_insertSorted hw with rfl | hw
            · exact hzx
            · exact hParts.1 w hw
        · exact h

theorem pairwise_sortDistinct
    (hChains : Chains lt)
    (xs : List α) :
    (sortDistinct lt xs).Pairwise fun a b => lt a b = true := by
  have hFold : ∀ acc : List α,
      (acc.Pairwise fun a b => lt a b = true) →
      (xs.foldl (fun acc x => insertSorted lt x acc)
        acc).Pairwise fun a b => lt a b = true := by
    induction xs with
    | nil => exact fun _ h => h
    | cons x rest ih =>
        intro acc h
        exact ih _ (pairwise_insertSorted hChains h)
  exact hFold [] List.Pairwise.nil

------------------------------------------------------------
-- Same Members
------------------------------------------------------------

theorem nodup_sortDistinct
    (hChains : Chains lt)
    (hStrict : IsStrict lt)
    (xs : List α) : (sortDistinct lt xs).Nodup := by
  apply (pairwise_sortDistinct hChains xs).imp
  rintro a _ hab rfl
  rw [hStrict a] at hab
  cases hab

/- Lists with the same members have one sorted set. -/
theorem sortDistinct_congr
    (hApart : TellsApart lt)
    (hChains : Chains lt)
    (hStrict : IsStrict lt)
    {xs ys : List α}
    (h : ∀ a, a ∈ xs ↔ a ∈ ys) :
    sortDistinct lt xs = sortDistinct lt ys := by
  have hPerm : (sortDistinct lt xs).Perm (sortDistinct lt ys) := by
    rw [List.perm_ext_iff_of_nodup
      (nodup_sortDistinct hChains hStrict xs)
      (nodup_sortDistinct hChains hStrict ys)]
    intro a
    rw [mem_sortDistinct hApart, mem_sortDistinct hApart, h]
  apply hPerm.eq_of_pairwise _
    (pairwise_sortDistinct hChains xs)
    (pairwise_sortDistinct hChains ys)
  intro a b _ _ hab hba
  have hSelf := hChains a b a hab hba
  rw [hStrict a] at hSelf
  cases hSelf

------------------------------------------------------------
-- Sorted Lists
------------------------------------------------------------

theorem insertUpTo_eq_orderedInsert
    (le : α → α → Bool)
    (x : α)
    (ys : List α) :
    insertUpTo le x ys =
      ys.orderedInsert (fun a b => le a b = true) x := by
  induction ys with
  | nil => rfl
  | cons y ys ih =>
      unfold insertUpTo
      rw [List.orderedInsert_cons, ih]

theorem sortUpTo_eq_insertionSort
    (le : α → α → Bool)
    (xs : List α) :
    sortUpTo le xs =
      xs.insertionSort fun a b => le a b = true := by
  induction xs with
  | nil => rfl
  | cons x xs ih =>
      unfold sortUpTo
      rw [List.insertionSort_cons, insertUpTo_eq_orderedInsert, ih]

theorem perm_sortUpTo
    (le : α → α → Bool)
    (xs : List α) : (sortUpTo le xs).Perm xs := by
  rw [sortUpTo_eq_insertionSort]
  exact List.perm_insertionSort _ xs

theorem pairwise_sortUpTo
    {le : α → α → Bool}
    (hChains : Chains le)
    (hTotal : ∀ a b, (le a b || le b a) = true)
    (xs : List α) :
    (sortUpTo le xs).Pairwise fun a b => le a b = true := by
  have : IsTrans α fun a b => le a b = true := ⟨hChains⟩
  have : Std.Total fun a b => le a b = true :=
    ⟨fun a b => Bool.or_eq_true_iff.mp (hTotal a b)⟩
  rw [sortUpTo_eq_insertionSort]
  exact List.pairwise_insertionSort _ xs

------------------------------------------------------------
-- Texts
------------------------------------------------------------

theorem tellsApart_textBefore : TellsApart textBefore := by
  intro a b hab hba
  simp only [textBefore, decide_eq_false_iff_not,
    not_lt] at hab hba
  exact le_antisymm hba hab

theorem chains_textBefore : Chains textBefore := by
  intro a b c hab hbc
  simp only [textBefore, decide_eq_true_eq] at hab hbc ⊢
  exact lt_trans hab hbc

theorem isStrict_textBefore : IsStrict textBefore := by
  intro a
  simp [textBefore]

theorem mem_sortTexts (s : String) (xs : List String) :
    s ∈ sortTexts xs ↔ s ∈ xs :=
  mem_sortDistinct tellsApart_textBefore s xs

theorem pairwise_sortTexts (xs : List String) :
    (sortTexts xs).Pairwise fun a b => a < b := by
  have hSorted := pairwise_sortDistinct chains_textBefore xs
  exact hSorted.imp fun h => by simpa [textBefore] using h

theorem nodup_sortTexts (xs : List String) :
    (sortTexts xs).Nodup :=
  (pairwise_sortTexts xs).imp fun h => ne_of_lt h

theorem sortTexts_congr
    {xs ys : List String}
    (h : ∀ s, s ∈ xs ↔ s ∈ ys) : sortTexts xs = sortTexts ys :=
  sortDistinct_congr tellsApart_textBefore chains_textBefore
    isStrict_textBefore h

------------------------------------------------------------
-- Names
------------------------------------------------------------

theorem tellsApart_before : TellsApart TypeName.before := by
  rintro ⟨n, s⟩ ⟨m, t⟩ hab hba
  simp only [TypeName.before, Bool.or_eq_false_iff,
    Bool.and_eq_false_iff, decide_eq_false_iff_not,
    beq_eq_false_iff_ne, not_lt] at hab hba
  have hName : n = m := le_antisymm hba.1 hab.1
  subst hName
  have hSpace : s = t := by
    rcases hab.2 with h | h
    · exact absurd rfl h
    · rcases hba.2 with h' | h'
      · exact absurd rfl h'
      · exact le_antisymm h' h
  rw [hSpace]

theorem chains_before : Chains TypeName.before := by
  intro a b c hab hbc
  simp only [TypeName.before, Bool.or_eq_true,
    Bool.and_eq_true, decide_eq_true_eq, beq_iff_eq] at hab hbc ⊢
  rcases hab with hab | ⟨hab, hab'⟩
  · left
    rcases hbc with hbc | ⟨hbc, -⟩
    · exact lt_trans hab hbc
    · rwa [← hbc]
  · rcases hbc with hbc | ⟨hbc, hbc'⟩
    · exact .inl (by rwa [hab])
    · exact .inr ⟨hab.trans hbc, lt_trans hab' hbc'⟩

theorem isStrict_before : IsStrict TypeName.before := by
  intro a
  simp [TypeName.before]

theorem mem_sortNames (id : TypeName) (xs : List TypeName) :
    id ∈ sortNames xs ↔ id ∈ xs :=
  mem_sortDistinct tellsApart_before id xs

theorem sortNames_congr
    {xs ys : List TypeName}
    (h : ∀ id, id ∈ xs ↔ id ∈ ys) : sortNames xs = sortNames ys :=
  sortDistinct_congr tellsApart_before chains_before
    isStrict_before h

end WireSchema
