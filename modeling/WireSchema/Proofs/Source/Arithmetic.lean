import Mathlib.Data.Int.Bitwise
import Mathlib.Tactic.Linarith
import WireSchema.Source.File

/-
  Constants of whole numbers have their exact values.

  Whole numbers have a value in arithmetic without bounds.
  Evaluation keeps 64 bits.  What it answers is the exact
  value, unless a shift to the left has lost bits, and it
  answers wherever no step on the way needs more bits.

  Key definitions include:
    * `ConstOp.exactValue?`, `ConstExpr.exactValue?`
    * `ConstExpr.Computes`
    * `ConstExpr.eval_exact`
-/

namespace WireSchema

------------------------------------------------------------
-- Integers of 64 Bits
------------------------------------------------------------

/- The integers that 64 bits hold. -/
def Fits64 (n : Int) : Prop :=
  minInt64 ≤ n ∧ n ≤ maxInt64

instance (n : Int) : Decidable (Fits64 n) := by
  unfold Fits64
  infer_instance

theorem within64?_eq_some_iff {n m : Int} :
    within64? n = some m ↔ m = n ∧ Fits64 n := by
  unfold within64? Fits64
  split
  · next h => simp [h, eq_comm]
  · next h => simp [h]

theorem within64?_of_fits
    {n : Int}
    (h : Fits64 n) : within64? n = some n :=
  within64?_eq_some_iff.mpr ⟨rfl, h⟩

theorem fits64_iff {n : Int} :
    Fits64 n ↔ -0x8000000000000000 ≤ n ∧ n < 0x8000000000000000 := by
  unfold Fits64 minInt64 maxInt64
  omega

theorem fits64_wrap64 (n : Int) : Fits64 (wrap64 n) := by
  have hLow := Int.le_bmod (x := n) (m := wordCount) (by decide)
  have hHigh := Int.bmod_lt (x := n) (m := wordCount) (by decide)
  unfold wrap64
  rw [fits64_iff]
  simp only [wordCount] at hLow hHigh ⊢
  omega

theorem wrap64_eq_self
    {n : Int}
    (h : Fits64 n) : wrap64 n = n :=
  wrap64_of_within64? (within64?_of_fits h)

/- A number is nothing but its bits when 64 bits hold it. -/
theorem wrap64_bits64 (n : Int) :
    wrap64 (Source.bits64 n) = wrap64 n := by
  have hNonneg : 0 ≤ n % wordCount :=
    Int.emod_nonneg n (by decide)
  unfold wrap64 Source.bits64
  rw [Int.toNat_of_nonneg hNonneg, Int.emod_bmod]

/- Numbers and the numbers in front of their opposites. -/
theorem fits64_natCast {n : Nat} :
    Fits64 (n : Int) ↔ n < 2 ^ 63 := by
  rw [fits64_iff]
  omega

theorem fits64_negSucc {n : Nat} :
    Fits64 (Int.negSucc n) ↔ n < 2 ^ 63 := by
  rw [fits64_iff]
  omega

namespace Source

------------------------------------------------------------
-- Bits
------------------------------------------------------------

theorem bits64_lt (n : Int) : bits64 n < 2 ^ 64 := by
  have hLow : 0 ≤ n % wordCount := Int.emod_nonneg n (by decide)
  have hHigh : n % wordCount < wordCount :=
    Int.emod_lt_of_pos n (by decide)
  simp only [wordCount] at hLow hHigh
  unfold bits64
  simp only [wordCount]
  omega

/- Each of the 64 bits is the one of the number itself. -/
theorem testBit_bits64
    {n : Int}
    (hFits : Fits64 n)
    {i : Nat}
    (hBit : i < 64) : (bits64 n).testBit i = n.testBit i := by
  cases n with
  | ofNat m =>
      have hSmall : m < 2 ^ 63 := fits64_natCast.mp hFits
      have hBits : bits64 (Int.ofNat m) = m := by
        unfold bits64
        simp only [Int.ofNat_eq_natCast, wordCount]
        omega
      rw [hBits]
      rfl
  | negSucc m =>
      have hSmall : m < 2 ^ 63 := fits64_negSucc.mp hFits
      have hBits : bits64 (Int.negSucc m) = 2 ^ 64 - (m + 1) := by
        unfold bits64
        simp only [wordCount]
        omega
      rw [hBits, Nat.testBit_two_pow_sub_succ (by omega)]
      simp [hBit, Int.testBit]

/- Combining bits takes no more of them. -/
theorem fits64_bitwise
    {a b : Int}
    (hLeft : Fits64 a)
    (hRight : Fits64 b)
    (f : Bool → Bool → Bool) : Fits64 (Int.bitwise f a b) := by
  have hNatural : ∀ (g : Bool → Bool → Bool) {m n : Nat},
      m < 2 ^ 63 → n < 2 ^ 63 → Fits64 (Int.natBitwise g m n) := by
    intro g m n hm hn
    unfold Int.natBitwise
    cases g false false with
    | false =>
        exact fits64_natCast.mpr (Nat.bitwise_lt_two_pow hm hn)
    | true =>
        exact fits64_negSucc.mpr (Nat.bitwise_lt_two_pow hm hn)
  cases a with
  | ofNat m =>
      have hm := fits64_natCast.mp hLeft
      cases b with
      | ofNat n => exact hNatural f hm (fits64_natCast.mp hRight)
      | negSucc n =>
          exact hNatural (fun x y => f x !y) hm
            (fits64_negSucc.mp hRight)
  | negSucc m =>
      have hm := fits64_negSucc.mp hLeft
      cases b with
      | ofNat n =>
          exact hNatural (fun x y => f (!x) y) hm
            (fits64_natCast.mp hRight)
      | negSucc n =>
          exact hNatural (fun x y => f (!x) (!y)) hm
            (fits64_negSucc.mp hRight)

/-
  Words are combined as the numbers are of which they are the
  last bits.
-/
theorem bitwise_eq
    {f : Bool → Bool → Bool}
    (hZero : f false false = false)
    {a b : Int}
    (hLeft : Fits64 a)
    (hRight : Fits64 b) :
    bitwise (Nat.bitwise f) a b = Int.bitwise f a b := by
  have hFits := fits64_bitwise hLeft hRight f
  have hBits : Nat.bitwise f (bits64 a) (bits64 b) =
      bits64 (Int.bitwise f a b) := by
    apply Nat.eq_of_testBit_eq
    intro i
    by_cases hBit : i < 64
    · rw [Nat.testBit_bitwise hZero, testBit_bits64 hLeft hBit,
        testBit_bits64 hRight hBit, testBit_bits64 hFits hBit,
        Int.testBit_bitwise]
    · have hBeyond : ∀ {n : Nat}, n < 2 ^ 64 →
          n.testBit i = false := fun h =>
        Nat.testBit_lt_two_pow
          (h.trans_le (Nat.pow_le_pow_right (by decide)
            (by omega)))
      rw [hBeyond (bits64_lt _), hBeyond
        (Nat.bitwise_lt_two_pow (bits64_lt a) (bits64_lt b))]
  unfold bitwise
  rw [hBits, wrap64_bits64, wrap64_eq_self hFits]

------------------------------------------------------------
-- Quotients
------------------------------------------------------------

theorem fits64_tmod
    {a : Int}
    (h : Fits64 a)
    (b : Int) : Fits64 (a.tmod b) := by
  rw [fits64_iff] at h ⊢
  have hSize : (a.tmod b).natAbs ≤ a.natAbs := by
    rw [Int.natAbs_tmod]
    exact Nat.mod_le _ _
  rcases Int.le_total 0 a with hSign | hSign
  · have := Int.tmod_nonneg b hSign
    omega
  · have hOpposite := Int.tmod_nonneg b (Int.neg_nonneg.mpr hSign)
    rw [Int.neg_tmod] at hOpposite
    omega

theorem fits64_fdiv_pow
    {a : Int}
    (h : Fits64 a)
    (k : Nat) : Fits64 (a.fdiv (2 ^ k)) := by
  have hPos : (0 : Int) < 2 ^ k := Int.pow_pos (by decide)
  rw [Int.fdiv_eq_ediv_of_nonneg a hPos.le]
  rw [fits64_iff] at h ⊢
  refine ⟨?low, ?high⟩
  case low =>
    rw [Int.le_ediv_iff_mul_le hPos]
    nlinarith [h.1]
  case high =>
    rw [Int.ediv_lt_iff_lt_mul hPos]
    nlinarith [h.2]

theorem cast_twoTo (k : Nat) : ((twoTo k : Nat) : Int) = 2 ^ k := by
  simp [twoTo]

theorem shiftAmount?_eq_some_iff {n : Int} {k : Nat} :
    shiftAmount? n = some k ↔ 0 ≤ n ∧ n < 64 ∧ k = n.toNat := by
  unfold shiftAmount?
  split
  · next h => simp [h, eq_comm]
  · next h =>
      simp only [reduceCtorEq, false_iff]
      omega

------------------------------------------------------------
-- Single Operations
------------------------------------------------------------

/-
  The value of an operation on whole numbers without bounds.
  Quotients are cut off towards zero, and negative numbers
  have endless ones in front of their bits.
-/
def ConstOp.exactValue? (op : ConstOp) (a b : Int) : Option Int :=
  match op with
  | .add => some (a + b)
  | .sub => some (a - b)
  | .mul => some (a * b)
  | .div => if b = 0 then none else some (a.tdiv b)
  | .rem => if b = 0 then none else some (a.tmod b)
  | .shl => if b < 0 then none else some (a * 2 ^ b.toNat)
  | .shr => if b < 0 then none else some (a.fdiv (2 ^ b.toNat))
  | .or => some (Int.lor a b)
  | .and => some (Int.land a b)
  | .xor => some (Int.xor a b)
  | .other => none

/-
  What an operation asks for besides a result of 64 bits: no
  shift is longer than that, and a remainder comes with its
  quotient.
-/
def ConstOp.Allows (op : ConstOp) (a b : Int) : Prop :=
  match op with
  | .shl | .shr => b < 64
  | .rem => Fits64 (a.tdiv b)
  | _ => True

instance (op : ConstOp) (a b : Int) :
    Decidable (op.Allows a b) := by
  unfold ConstOp.Allows
  split <;> infer_instance

namespace ConstOp

variable {op : ConstOp}
variable {a b n : Int}

theorem lor_eq (hLeft : Fits64 a) (hRight : Fits64 b) :
    bitwise Nat.lor a b = Int.lor a b := by
  rw [← Int.bitwise_or]
  exact bitwise_eq rfl hLeft hRight

theorem land_eq (hLeft : Fits64 a) (hRight : Fits64 b) :
    bitwise Nat.land a b = Int.land a b := by
  rw [← Int.bitwise_and]
  exact bitwise_eq rfl hLeft hRight

theorem xor_eq (hLeft : Fits64 a) (hRight : Fits64 b) :
    bitwise Nat.xor a b = Int.xor a b := by
  rw [← Int.bitwise_xor]
  exact bitwise_eq rfl hLeft hRight

/- No result takes more than 64 bits. -/
theorem fits64_of_applyInt
    (hLeft : Fits64 a)
    (h : op.applyInt a b = some n) : Fits64 n := by
  cases op with
  | add | sub | mul =>
      obtain ⟨rfl, hFits⟩ := within64?_eq_some_iff.mp h
      exact hFits
  | div =>
      simp only [applyInt, Option.ite_none_left_eq_some] at h
      obtain ⟨rfl, hFits⟩ := within64?_eq_some_iff.mp h.2
      exact hFits
  | rem =>
      simp only [applyInt, Option.ite_none_left_eq_some,
        Option.some.injEq] at h
      exact h.2.2 ▸ fits64_tmod hLeft b
  | shl =>
      obtain ⟨k, -, rfl⟩ := Option.map_eq_some_iff.mp h
      exact fits64_wrap64 _
  | shr =>
      obtain ⟨k, -, rfl⟩ := Option.map_eq_some_iff.mp h
      rw [cast_twoTo]
      exact fits64_fdiv_pow hLeft k
  | or | and | xor =>
      obtain rfl := Option.some.inj h
      exact fits64_wrap64 _
  | other => cases h

/-
  A result is the exact one, if it is not that of a shift to
  the left which loses bits.
-/
theorem exactValue?_of_applyInt
    (hLeft : Fits64 a)
    (hRight : Fits64 b)
    (hShift : op = .shl → 0 ≤ b → b < 64 →
      Fits64 (a * 2 ^ b.toNat))
    (h : op.applyInt a b = some n) :
    op.exactValue? a b = some n ∧ op.Allows a b := by
  cases op with
  | add | sub | mul =>
      obtain ⟨rfl, -⟩ := within64?_eq_some_iff.mp h
      exact ⟨rfl, trivial⟩
  | div =>
      simp only [applyInt, Option.ite_none_left_eq_some] at h
      obtain ⟨rfl, -⟩ := within64?_eq_some_iff.mp h.2
      exact ⟨if_neg h.1, trivial⟩
  | rem =>
      simp only [applyInt, Option.ite_none_left_eq_some,
        Option.some.injEq] at h
      obtain ⟨hZero, hQuotient, rfl⟩ := h
      refine ⟨if_neg hZero, ?_⟩
      rw [Bool.not_eq_true, Option.isNone_eq_false_iff,
        Option.isSome_iff_exists] at hQuotient
      rcases hQuotient with ⟨q, hq⟩
      exact (within64?_eq_some_iff.mp hq).2
  | shl =>
      obtain ⟨k, hk, rfl⟩ := Option.map_eq_some_iff.mp h
      obtain ⟨hLow, hHigh, rfl⟩ := shiftAmount?_eq_some_iff.mp hk
      refine ⟨?_, hHigh⟩
      rw [cast_twoTo, wrap64_eq_self (hShift rfl hLow hHigh)]
      exact if_neg (by omega)
  | shr =>
      obtain ⟨k, hk, rfl⟩ := Option.map_eq_some_iff.mp h
      obtain ⟨hLow, hHigh, rfl⟩ := shiftAmount?_eq_some_iff.mp hk
      refine ⟨?_, hHigh⟩
      rw [cast_twoTo]
      exact if_neg (by omega)
  | or =>
      obtain rfl := Option.some.inj h
      exact ⟨congrArg some (lor_eq hLeft hRight).symm, trivial⟩
  | and =>
      obtain rfl := Option.some.inj h
      exact ⟨congrArg some (land_eq hLeft hRight).symm, trivial⟩
  | xor =>
      obtain rfl := Option.some.inj h
      exact ⟨congrArg some (xor_eq hLeft hRight).symm, trivial⟩
  | other => cases h

/- An exact value of 64 bits is the result. -/
theorem applyInt_of_exactValue?
    (hLeft : Fits64 a)
    (hRight : Fits64 b)
    (h : op.exactValue? a b = some n)
    (hFits : Fits64 n)
    (hAllows : op.Allows a b) : op.applyInt a b = some n := by
  cases op with
  | add | sub | mul =>
      obtain rfl := Option.some.inj h
      exact within64?_of_fits hFits
  | div =>
      simp only [exactValue?, Option.ite_none_left_eq_some,
        Option.some.injEq] at h
      obtain ⟨hZero, rfl⟩ := h
      simp only [applyInt, if_neg hZero]
      exact within64?_of_fits hFits
  | rem =>
      simp only [exactValue?, Option.ite_none_left_eq_some,
        Option.some.injEq] at h
      obtain ⟨hZero, rfl⟩ := h
      have hQuotient : within64? (a.tdiv b) = some (a.tdiv b) :=
        within64?_of_fits hAllows
      simp [applyInt, hZero, hQuotient]
  | shl =>
      simp only [exactValue?, Option.ite_none_left_eq_some,
        Option.some.injEq] at h
      obtain ⟨hSign, rfl⟩ := h
      have hAmount : shiftAmount? b = some b.toNat :=
        shiftAmount?_eq_some_iff.mpr ⟨by omega, hAllows, rfl⟩
      simp only [applyInt, hAmount, Option.map_some, cast_twoTo]
      rw [wrap64_eq_self hFits]
  | shr =>
      simp only [exactValue?, Option.ite_none_left_eq_some,
        Option.some.injEq] at h
      obtain ⟨hSign, rfl⟩ := h
      have hAmount : shiftAmount? b = some b.toNat :=
        shiftAmount?_eq_some_iff.mpr ⟨by omega, hAllows, rfl⟩
      simp only [applyInt, hAmount, Option.map_some, cast_twoTo]
  | or => rw [← h]; exact congrArg some (lor_eq hLeft hRight)
  | and => rw [← h]; exact congrArg some (land_eq hLeft hRight)
  | xor => rw [← h]; exact congrArg some (xor_eq hLeft hRight)
  | other => cases h

end ConstOp

------------------------------------------------------------
-- Expressions
------------------------------------------------------------

namespace ConstExpr

/- The value of an expression in arithmetic without bounds. -/
def exactValue? (position : Int) (table : ConstTable) :
    ConstExpr → Option Int
  | .int n => some n
  | .position => some position
  | .name s =>
      match table.lookup s with
      | some (.int n) => some n
      | _ => none
  | .neg e => do
      let a ← exactValue? position table e
      some (-a)
  | .binary op left right => do
      let a ← exactValue? position table left
      let b ← exactValue? position table right
      op.exactValue? a b
  | _ => none

/-
  Expressions over whole numbers of 64 bits.  Names stand for
  such numbers, if for anything.
-/
def IsWhole (table : ConstTable) : ConstExpr → Prop
  | .int n => Fits64 n
  | .position => True
  | .name s =>
      ∀ v, table.lookup s = some v → ∃ n, v = .int n ∧ Fits64 n
  | .neg e => IsWhole table e
  | .binary _ left right => IsWhole table left ∧ IsWhole table right
  | _ => False

/- No shift to the left by less than 64 bits loses any. -/
def ShiftsFit (position : Int) (table : ConstTable) :
    ConstExpr → Prop
  | .neg e => ShiftsFit position table e
  | .binary op left right =>
      ShiftsFit position table left
        ∧ ShiftsFit position table right
        ∧ (op = .shl → ∀ a b,
          left.exactValue? position table = some a →
            right.exactValue? position table = some b →
            0 ≤ b → b < 64 → Fits64 (a * 2 ^ b.toNat))
  | _ => True

/-
  The exact value of an expression, where every number on the
  way has 64 bits and every operation is a permitted one.
-/
inductive Computes (position : Int) (table : ConstTable) :
    ConstExpr → Int → Prop where
  | int (n : Int) : Computes position table (.int n) n
  | position : Computes position table .position position
  | name {s : String} {n : Int}
      (hFound : table.lookup s = some (.int n)) :
      Computes position table (.name s) n
  | neg {e : ConstExpr} {n : Int}
      (hOperand : Computes position table e n)
      (hFits : Fits64 (-n)) :
      Computes position table (.neg e) (-n)
  | binary {op : ConstOp} {left right : ConstExpr} {a b n : Int}
      (hLeft : Computes position table left a)
      (hRight : Computes position table right b)
      (hValue : op.exactValue? a b = some n)
      (hFits : Fits64 n)
      (hAllows : op.Allows a b) :
      Computes position table (.binary op left right) n

variable {position : Int}
variable {table : ConstTable}
variable {e : ConstExpr}

theorem isWhole_int
    {n : Int}
    (h : Fits64 n) : (int n).IsWhole table :=
  h

/- Whole numbers make whole numbers, of 64 bits again. -/
theorem exists_int_of_eval
    (hPosition : Fits64 position)
    (hWhole : e.IsWhole table)
    {v : ConstValue}
    (h : e.eval position table = some v) :
    ∃ n, v = .int n ∧ Fits64 n := by
  induction e generalizing v with
  | int n =>
      obtain rfl := Option.some.inj h
      exact ⟨n, rfl, hWhole⟩
  | position =>
      obtain rfl := Option.some.inj h
      exact ⟨position, rfl, hPosition⟩
  | name s => exact hWhole v h
  | neg e ih =>
      obtain ⟨w, hw, hNeg⟩ := Option.bind_eq_some_iff.mp h
      obtain ⟨a, rfl, -⟩ := ih hWhole hw
      obtain ⟨n, hn, rfl⟩ := Option.map_eq_some_iff.mp hNeg
      obtain ⟨rfl, hFits⟩ := within64?_eq_some_iff.mp hn
      exact ⟨_, rfl, hFits⟩
  | binary op left right ihLeft ihRight =>
      obtain ⟨w, hw, hRest⟩ := Option.bind_eq_some_iff.mp h
      obtain ⟨u, hu, hValue⟩ := Option.bind_eq_some_iff.mp hRest
      obtain ⟨a, rfl, hFits⟩ := ihLeft hWhole.1 hw
      obtain ⟨b, rfl, -⟩ := ihRight hWhole.2 hu
      obtain ⟨n, hn, rfl⟩ := Option.map_eq_some_iff.mp hValue
      exact ⟨n, rfl, ConstOp.fits64_of_applyInt hFits hn⟩
  | float | text | conversion | unknown => exact hWhole.elim

theorem fits64_of_eval
    (hPosition : Fits64 position)
    (hWhole : e.IsWhole table)
    {n : Int}
    (h : e.eval position table = some (.int n)) : Fits64 n := by
  obtain ⟨m, hm, hFits⟩ := exists_int_of_eval hPosition hWhole h
  exact ConstValue.int.inj hm ▸ hFits

/- What is computed step by step is the exact value. -/
theorem exactValue?_of_computes
    {n : Int}
    (h : e.Computes position table n) :
    e.exactValue? position table = some n := by
  induction h with
  | int | position => rfl
  | name hFound => simp [exactValue?, hFound]
  | neg _ _ ih => simp [exactValue?, ih]
  | binary _ _ hValue _ _ ihLeft ihRight =>
      simp [exactValue?, ihLeft, ihRight, hValue]

/- Where every step is a permitted one, there is an answer. -/
theorem eval_of_computes
    (hPosition : Fits64 position)
    (hWhole : e.IsWhole table)
    {n : Int}
    (h : e.Computes position table n) :
    e.eval position table = some (.int n) := by
  induction h with
  | int | position => rfl
  | name hFound => exact hFound
  | neg _ hFits ih =>
      simp [eval, ih hWhole, ConstValue.neg?,
        within64?_of_fits hFits]
  | binary _ _ hValue hFits hAllows ihLeft ihRight =>
      have hLeft := ihLeft hWhole.1
      have hRight := ihRight hWhole.2
      have hResult := ConstOp.applyInt_of_exactValue?
        (fits64_of_eval hPosition hWhole.1 hLeft)
        (fits64_of_eval hPosition hWhole.2 hRight)
        hValue hFits hAllows
      simp [eval, hLeft, hRight, ConstOp.apply, hResult]

/- An answer was computed step by step, if no bits got lost. -/
theorem computes_of_eval
    (hPosition : Fits64 position)
    (hWhole : e.IsWhole table)
    (hShifts : e.ShiftsFit position table)
    {n : Int}
    (h : e.eval position table = some (.int n)) :
    e.Computes position table n := by
  induction e generalizing n with
  | int m =>
      obtain rfl := ConstValue.int.inj (Option.some.inj h)
      exact .int m
  | position =>
      obtain rfl := ConstValue.int.inj (Option.some.inj h)
      exact .position
  | name s => exact .name h
  | neg e ih =>
      obtain ⟨w, hw, hNeg⟩ := Option.bind_eq_some_iff.mp h
      have hInner : e.IsWhole table := hWhole
      obtain ⟨a, rfl, -⟩ := exists_int_of_eval hPosition hInner hw
      obtain ⟨m, hm, hEq⟩ := Option.map_eq_some_iff.mp hNeg
      obtain rfl := ConstValue.int.inj hEq
      obtain ⟨rfl, hFits⟩ := within64?_eq_some_iff.mp hm
      exact .neg (ih hInner hShifts hw) hFits
  | binary op left right ihLeft ihRight =>
      obtain ⟨w, hw, hRest⟩ := Option.bind_eq_some_iff.mp h
      obtain ⟨u, hu, hValue⟩ := Option.bind_eq_some_iff.mp hRest
      obtain ⟨a, rfl, ha⟩ :=
        exists_int_of_eval hPosition hWhole.1 hw
      obtain ⟨b, rfl, hb⟩ :=
        exists_int_of_eval hPosition hWhole.2 hu
      obtain ⟨m, hm, hEq⟩ := Option.map_eq_some_iff.mp hValue
      obtain rfl := ConstValue.int.inj hEq
      have hLeft := ihLeft hWhole.1 hShifts.1 hw
      have hRight := ihRight hWhole.2 hShifts.2.1 hu
      have hExact := ConstOp.exactValue?_of_applyInt ha hb
        (fun hOp => hShifts.2.2 hOp a b
          (exactValue?_of_computes hLeft)
          (exactValue?_of_computes hRight))
        hm
      exact .binary hLeft hRight hExact.1
        (ConstOp.fits64_of_applyInt ha hm) hExact.2
  | float | text | conversion | unknown => exact hWhole.elim

/-
  An expression over whole numbers never has a value but a
  whole number of 64 bits.  If no shift to the left loses
  bits, it is the exact value, and there is one exactly if it
  can be computed in permitted steps.
-/
theorem eval_exact
    (hPosition : Fits64 position)
    (hWhole : e.IsWhole table) :
    (∀ v, e.eval position table = some v →
        ∃ n, v = .int n ∧ Fits64 n)
      ∧ (∀ n, e.Computes position table n →
        e.exactValue? position table = some n
          ∧ e.eval position table = some (.int n))
      ∧ (e.ShiftsFit position table → ∀ n,
        e.eval position table = some (.int n) →
          e.exactValue? position table = some n
            ∧ e.Computes position table n) := by
  refine ⟨fun v => exists_int_of_eval hPosition hWhole, ?_, ?_⟩
  · intro n h
    exact ⟨exactValue?_of_computes h,
      eval_of_computes hPosition hWhole h⟩
  · intro hShifts n h
    have hSteps := computes_of_eval hPosition hWhole hShifts h
    exact ⟨exactValue?_of_computes hSteps, hSteps⟩

/- Bits of a mask: `-(Base / 2) << iota | 1`. -/
def maskExpr : ConstExpr :=
  .binary .or
    (.binary .shl (.neg (.binary .div (.name "Base") (.int 2)))
      .position)
    (.int 1)

/- Minus four eights and a one are minus thirty-one. -/
theorem eval_exact_mask :
    Fits64 3
      ∧ maskExpr.IsWhole [("Base", .int 9)]
      ∧ maskExpr.ShiftsFit 3 [("Base", .int 9)]
      ∧ maskExpr.eval 3 [("Base", .int 9)] = some (.int (-31))
      ∧ maskExpr.exactValue? 3 [("Base", .int 9)] = some (-31) := by
  have hPosition : Fits64 3 := by decide
  have hWhole : maskExpr.IsWhole [("Base", .int 9)] := by
    refine ⟨⟨⟨?name, isWhole_int (by decide)⟩, trivial⟩,
      isWhole_int (by decide)⟩
    rintro v h
    obtain rfl := Option.some.inj h
    exact ⟨9, rfl, by decide⟩
  have hShifts : maskExpr.ShiftsFit 3 [("Base", .int 9)] := by
    refine ⟨⟨⟨trivial, trivial, nofun⟩, trivial, ?shift⟩, trivial,
      nofun⟩
    rintro - a b ha hb - -
    obtain rfl : -4 = a := Option.some.inj ha
    obtain rfl : 3 = b := Option.some.inj hb
    decide
  have hValue :
      maskExpr.eval 3 [("Base", .int 9)] = some (.int (-31)) := by
    decide
  exact ⟨hPosition, hWhole, hShifts, hValue,
    ((eval_exact hPosition hWhole).2.2 hShifts (-31) hValue).1⟩

/- One, shifted to the first of 64 bits. -/
def highBit : ConstExpr :=
  .binary .shl (.int 1) (.int 63)

/-
  The bit that is shifted into the place of the sign makes the
  value negative.
-/
theorem highBit_not_exact :
    (FileSource.parse? "m.go" "package m\n\nconst A = 1 << 63\n").map
        (fun f => f.consts.map ConstSource.value) =
      some [some highBit]
      ∧ highBit.IsWhole []
      ∧ highBit.eval 0 [] = some (.int (-0x8000000000000000))
      ∧ highBit.exactValue? 0 [] = some 0x8000000000000000 := by
  refine ⟨by decide +kernel, ⟨?one, ?amount⟩, by decide, by decide⟩
  · exact isWhole_int (by decide)
  · exact isWhole_int (by decide)

end ConstExpr

end Source

end WireSchema
