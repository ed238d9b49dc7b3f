import WireSchema.Proofs.Schema.Sorted
import WireSchema.TypeExpr.Basic

/-
  The order of type expressions tells any two of them apart,
  so that a sorted set of expressions holds all that is put
  in it.
-/

namespace WireSchema.TypeExpr

------------------------------------------------------------
-- Texts
------------------------------------------------------------

theorem compareText_swap (a b : String) :
    (compareText a b).swap = compareText b a := by
  unfold compareText
  rcases lt_trichotomy a b with h | h | h
  · simp [h, not_lt_of_gt h]
  · simp [h]
  · simp [h, not_lt_of_gt h]

theorem eq_of_compareText_eq
    {a b : String}
    (h : compareText a b = .eq) : a = b := by
  unfold compareText at h
  rcases lt_trichotomy a b with hlt | hEq | hgt
  · simp [hlt] at h
  · exact hEq
  · simp [hgt, not_lt_of_gt hgt] at h

------------------------------------------------------------
-- Expressions
------------------------------------------------------------

/- To compare the other way round is to swap the answer. -/
theorem compare_swap_all :
    (∀ a b, (compare a b).swap = compare b a)
      ∧ ∀ as bs, (compareArgs as bs).swap = compareArgs bs as := by
  refine compare.mutual_induct _ _
    ?named ?pointer ?slice ?array ?map ?builtin ?param ?other
    ?noArgs ?fewer ?more ?args
  case named =>
    intro space name args space' name' args' hArgs
    simp [compare, Ordering.swap_then, compareText_swap, hArgs]
  case pointer | slice =>
    intro elem elem' hElem
    simpa [compare] using hElem
  case array =>
    intro len elem len' elem' hElem
    simp [compare, Ordering.swap_then, hElem, Nat.compare_swap]
  case map =>
    intro key value key' value' hKey hValue
    simp [compare, Ordering.swap_then, hKey, hValue]
  case builtin | param =>
    intro name name'
    simpa [compare] using compareText_swap name name'
  case other =>
    intro a b
    cases a <;> cases b <;>
      simp [compare, formRank, Nat.compare_swap]
  case noArgs => simp [compareArgs]
  case fewer | more =>
    intros
    simp [compareArgs]
  case args =>
    intro a rest b rest' hFirst hRest
    simp [compareArgs, Ordering.swap_then, hFirst, hRest]

/- Expressions that compare as equal are equal. -/
theorem eq_of_compare_all :
    (∀ a b, compare a b = .eq → a = b)
      ∧ ∀ as bs, compareArgs as bs = .eq → as = bs := by
  refine compare.mutual_induct _ _
    ?named ?pointer ?slice ?array ?map ?builtin ?param ?other
    ?noArgs ?fewer ?more ?args
  case named =>
    intro space name args space' name' args' hArgs h
    simp only [compare, Ordering.then_eq_eq] at h
    rw [eq_of_compareText_eq h.1.1,
      eq_of_compareText_eq h.1.2, hArgs h.2]
  case pointer | slice =>
    intro elem elem' hElem h
    rw [hElem (by simpa [compare] using h)]
  case array =>
    intro len elem len' elem' hElem h
    simp only [compare, Ordering.then_eq_eq,
      compare_eq_iff_eq] at h
    rw [h.1, hElem h.2]
  case map =>
    intro key value key' value' hKey hValue h
    simp only [compare, Ordering.then_eq_eq] at h
    rw [hKey h.1, hValue h.2]
  case builtin | param =>
    intro name name' h
    have hName : compareText name name' = .eq := by
      simpa [compare] using h
    rw [eq_of_compareText_eq hName]
  case other =>
    intro a b
    cases a <;> cases b <;> simp [compare, formRank]
  case noArgs => simp
  case fewer | more =>
    intros
    simp_all [compareArgs]
  case args =>
    intro a rest b rest' hFirst hRest h
    simp only [compareArgs, Ordering.then_eq_eq] at h
    rw [hFirst h.1, hRest h.2]

theorem compare_self (a : TypeExpr) : compare a a = .eq := by
  have hSwap := compare_swap_all.1 a a
  cases h : compare a a with
  | eq => rfl
  | lt | gt =>
      rw [h] at hSwap
      cases hSwap

instance : LawfulBEq TypeExpr where
  rfl {a} := by
    change (compare a a == .eq) = true
    rw [compare_self, beq_self_eq_true]
  eq_of_beq {a b} h := by
    change (compare a b == .eq) = true at h
    exact eq_of_compare_all.1 a b (eq_of_beq h)

theorem tellsApart_before : TellsApart before := by
  intro a b hab hba
  apply eq_of_compare_all.1 a b
  have hSwap := compare_swap_all.1 a b
  cases h : compare a b with
  | lt => simp [before, h] at hab
  | eq => rfl
  | gt =>
      rw [h] at hSwap
      simp [before, ← hSwap] at hba

end WireSchema.TypeExpr
