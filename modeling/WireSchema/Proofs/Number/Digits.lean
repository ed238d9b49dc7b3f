import Mathlib.Tactic.IntervalCases
import WireSchema.Number.Decimal

/-
  Numbers as the emitted code writes them.

  The decimal digits of a natural number denote it.  A numeral
  of the emitted code has a whole part without a zero in front,
  and perhaps a fraction.  The positional text of a number is
  such a numeral, behind a minus if need be, exactly if the
  number is finite.

  Key definitions include:
    * `digitsValue_toString`
    * `AreDigits`, `IsWholePart`
    * `IsUnsigned`, `IsNumeral`
    * `Binary64.isNumeral_positionalText_iff`
-/

namespace WireSchema

------------------------------------------------------------
-- Digits
------------------------------------------------------------

theorem toList_toString (n : Nat) :
    (toString n).toList = Nat.toDigits 10 n := by
  rw [Nat.toString_eq_ofList_toDigits, String.toList_ofList]

/- The digits of a number denote it. -/
theorem digitsValue_toString (n : Nat) :
    Binary64.digitsValue (toString n).toList = n := by
  have hFold := Nat.ofDigitChars_toDigits (n := n)
    (b := 10) (by decide) (by decide)
  rw [Nat.ofDigitChars_eq_foldl] at hFold
  rw [toList_toString]
  unfold Binary64.digitsValue
  simpa [Nat.mul_comm] using hFold

theorem isDigit_of_mem_toString
    {n : Nat}
    {c : Char}
    (h : c ∈ (toString n).toList) : c.isDigit = true := by
  rw [toList_toString] at h
  exact Nat.isDigit_of_mem_toDigits (by decide) (by decide) h

theorem toList_toString_ne_nil (n : Nat) :
    (toString n).toList ≠ [] := by
  rw [toList_toString]
  exact Nat.toDigits_ne_nil

/- Only zero is written with a leading zero. -/
theorem head?_toString_ne_zero
    {n : Nat}
    (h : 0 < n) : (toString n).toList.head? ≠ some '0' := by
  rw [toList_toString]
  induction n using Nat.strong_induction_on with
  | h n ih =>
      rw [Nat.toDigits_eq_if (by decide)]
      split
      · next hSmall =>
          interval_cases n <;> decide
      · next hLarge =>
          have hLess : n / 10 < n := by omega
          have hFirst := ih (n / 10) hLess (by omega)
          have hSome : (Nat.toDigits 10 (n / 10)).head?.isSome := by
            rw [List.isSome_head?]
            exact Nat.toDigits_ne_nil
          rwa [List.head?_append, Option.or_of_isSome hSome]

------------------------------------------------------------
-- Numerals
------------------------------------------------------------

/- Decimal digits, at least one. -/
structure AreDigits (s : List Char) : Prop where
  nonempty : s ≠ []
  all : ∀ c ∈ s, c.isDigit = true

/- A zero alone, or digits without a zero in front. -/
structure IsWholePart (s : List Char) : Prop where
  digits : AreDigits s
  noLeadingZero : s = ['0'] ∨ s.head? ≠ some '0'

/- A numeral without a sign. -/
inductive IsUnsigned : String → Prop
  | whole {n : List Char} (h : IsWholePart n) :
      IsUnsigned (String.ofList n)
  | point
      {n fraction : List Char}
      (h : IsWholePart n)
      (hFraction : AreDigits fraction) :
      IsUnsigned
        (String.ofList n ++ "." ++ String.ofList fraction)

/- A numeral, with a minus if it is below zero. -/
inductive IsNumeral : String → Prop
  | signed (negative : Bool) {t : String} (h : IsUnsigned t) :
      IsNumeral (Binary64.signText negative ++ t)

/- The characters that numerals are made of. -/
def isNumeralChar (c : Char) : Bool :=
  c.isDigit || c == '.' || c == '-'

theorem AreDigits.isNumeralChar
    {s : List Char}
    {c : Char}
    (h : AreDigits s)
    (hMem : c ∈ s) : isNumeralChar c = true := by
  simp [WireSchema.isNumeralChar, h.all c hMem]

theorem IsNumeral.isNumeralChar
    {t : String}
    {c : Char}
    (h : IsNumeral t)
    (hMem : c ∈ t.toList) : isNumeralChar c = true := by
  rcases h with ⟨negative, hUnsigned⟩
  rw [String.toList_append] at hMem
  rcases List.mem_append.mp hMem with hSign | hMem
  · cases negative with
    | false => cases hSign
    | true =>
        cases List.mem_singleton.mp hSign
        decide
  · cases hUnsigned with
    | whole hWhole =>
        rw [String.toList_ofList] at hMem
        exact hWhole.digits.isNumeralChar hMem
    | point hWhole hFraction =>
        simp only [String.toList_append, String.toList_ofList]
          at hMem
        rcases List.mem_append.mp hMem with hMem | hMem
        · rcases List.mem_append.mp hMem with hMem | hMem
          · exact hWhole.digits.isNumeralChar hMem
          · cases List.mem_singleton.mp hMem
            decide
        · exact hFraction.isNumeralChar hMem

theorem IsUnsigned.isNumeral
    {t : String}
    (h : IsUnsigned t) : IsNumeral t := by
  have hSigned := IsNumeral.signed false h
  rwa [Binary64.signText, if_neg Bool.false_ne_true,
    String.empty_append] at hSigned

------------------------------------------------------------
-- Integers
------------------------------------------------------------

theorem areDigits_toString (n : Nat) :
    AreDigits (toString n).toList :=
  ⟨toList_toString_ne_nil n, fun _ h => isDigit_of_mem_toString h⟩

theorem isWholePart_toString (n : Nat) :
    IsWholePart (toString n).toList := by
  refine ⟨areDigits_toString n, ?_⟩
  cases n with
  | zero => exact .inl (by decide)
  | succ n => exact .inr (head?_toString_ne_zero n.succ_pos)

theorem isUnsigned_toString (n : Nat) :
    IsUnsigned (toString n) := by
  have hWhole := IsUnsigned.whole (isWholePart_toString n)
  rwa [String.ofList_toList] at hWhole

theorem isNumeral_toString (n : Nat) : IsNumeral (toString n) :=
  (isUnsigned_toString n).isNumeral

theorem isNumeral_toString_int (n : Int) :
    IsNumeral (toString n) := by
  cases n with
  | ofNat n => exact isNumeral_toString n
  | negSucc n =>
      exact .signed true (isUnsigned_toString (n + 1))

------------------------------------------------------------
-- Placed Digits
------------------------------------------------------------

theorem AreDigits.append
    {s t : List Char}
    (h : AreDigits s)
    (ht : ∀ c ∈ t, c.isDigit = true) : AreDigits (s ++ t) := by
  refine ⟨?_, ?_⟩
  · intro hNil
    exact h.nonempty (List.append_eq_nil_iff.mp hNil).1
  · intro c hMem
    rcases List.mem_append.mp hMem with hMem | hMem
    · exact h.all c hMem
    · exact ht c hMem

/- Digits behind a whole part other than zero belong to it. -/
theorem isWholePart_append
    {s t : List Char}
    (h : AreDigits s)
    (hLead : s.head? ≠ some '0')
    (ht : ∀ c ∈ t, c.isDigit = true) : IsWholePart (s ++ t) := by
  refine ⟨h.append ht, .inr ?_⟩
  have hSome : s.head?.isSome := by
    rw [List.isSome_head?]
    exact h.nonempty
  rwa [List.head?_append, Option.or_of_isSome hSome]

theorem isDigit_of_mem_zeros
    {n : Nat}
    {c : Char}
    (h : c ∈ (Binary64.zeros n).toList) : c.isDigit = true := by
  rw [Binary64.zeros, String.toList_ofList] at h
  rw [(List.mem_replicate.mp h).2]
  decide

namespace Binary64

/- Digits with a point among or behind them are a numeral. -/
theorem isUnsigned_placeDigits
    {digits : Nat}
    (hPos : 0 < digits)
    (power : Int) : IsUnsigned (placeDigits digits power) := by
  have hDigits := areDigits_toString digits
  have hLead := head?_toString_ne_zero hPos
  have hLength : (toString digits).toList.length =
      (toString digits).length :=
    String.length_toList
  unfold placeDigits
  dsimp only
  split
  · -- a whole number with zeros behind it
    have hWhole := IsUnsigned.whole
      (isWholePart_append hDigits hLead
        (t := (zeros power.toNat).toList)
        (fun _ h => isDigit_of_mem_zeros h))
    rwa [← String.toList_append, String.ofList_toList] at hWhole
  · next hPower =>
      split
      · -- a point among the digits
        next hPlaces =>
        have hFront : 0 <
            (toString digits).length - (-power).toNat := by
          omega
        refine .point ⟨⟨?_, ?_⟩, .inr ?_⟩ ⟨?_, ?_⟩
        · intro hNil
          rcases List.take_eq_nil_iff.mp hNil with hZero | hNone
          · omega
          · exact hDigits.nonempty hNone
        · intro c hMem
          exact hDigits.all c (List.mem_of_mem_take hMem)
        · rwa [List.head?_take, if_neg (Nat.ne_of_gt hFront)]
        · intro hNil
          have hAll := List.drop_eq_nil_iff.mp hNil
          omega
        · intro c hMem
          exact hDigits.all c (List.mem_of_mem_drop hMem)
      · -- zeros between the point and the digits
        have hZero : IsWholePart ['0'] :=
          ⟨⟨List.cons_ne_nil _ _,
            List.forall_mem_singleton.mpr rfl⟩, .inl rfl⟩
        have hFraction : AreDigits
            ((zeros ((-power).toNat - (toString digits).length)
              ++ toString digits).toList) := by
          rw [String.toList_append]
          refine ⟨?_, ?_⟩
          · intro hNil
            exact hDigits.nonempty (List.append_eq_nil_iff.mp hNil).2
          · intro c hMem
            rcases List.mem_append.mp hMem with hMem | hMem
            · exact isDigit_of_mem_zeros hMem
            · exact hDigits.all c hMem
        have hPoint := IsUnsigned.point hZero hFraction
        rw [String.ofList_toList] at hPoint
        rwa [String.append_assoc]

------------------------------------------------------------
-- Shortest Digits
------------------------------------------------------------

theorem dyadicRatio_pos
    {m : Nat}
    (hPos : 0 < m)
    (e : Int) : 0 < (dyadicRatio m e).1 := by
  unfold dyadicRatio
  split
  · exact Nat.mul_pos hPos (twoTo_pos _)
  · exact hPos

theorem decimalRatio_den_pos (digits : Nat) (power : Int) :
    0 < (decimalRatio digits power).2 := by
  unfold decimalRatio
  split
  · exact Nat.one_pos
  · exact tenTo_pos _

/- Zero is below all that rounds to another number. -/
theorem roundingInterval_pos
    {m : Nat}
    (hPos : 0 < m)
    (e : Int) : 0 < (roundingInterval m e).1.1 := by
  unfold roundingInterval
  dsimp only
  apply Nat.mul_pos
  · split
    · omega
    · omega
  · exact dyadicRatio_pos Nat.one_pos _

/- So what reads back as another number is not zero. -/
theorem pos_of_readsBack
    {closed : Bool}
    {low d unit den high : Nat}
    (hLow : 0 < low)
    (h : if closed = true then
        low ≤ d * unit * den ∧ d * unit * den ≤ high
      else low < d * unit * den ∧ d * unit * den < high) :
    0 < d := by
  apply Nat.pos_of_ne_zero
  rintro rfl
  rw [Nat.zero_mul, Nat.zero_mul] at h
  split at h
  · omega
  · omega

theorem Tie.choose_pos
    {below : Nat}
    (hPos : 0 < below)
    (tie : Tie) : 0 < tie.choose below := by
  cases tie with
  | toEven =>
      rw [Tie.choose]
      split
      · exact hPos
      · exact Nat.succ_pos _
  | fromZero => exact Nat.succ_pos _

theorem pos_of_candidate?
    {tie : Tie}
    {m d : Nat}
    {e power : Int}
    (hPos : 0 < m)
    (h : candidate? tie m e power = some d) : 0 < d := by
  have hLow := Nat.mul_pos (roundingInterval_pos hPos e)
    (decimalRatio_den_pos 1 power)
  unfold candidate? at h
  rcases ite_eq_iff.mp h with ⟨hBelow, h⟩ | ⟨-, h⟩
  · have hBelow := pos_of_readsBack hLow hBelow
    rcases ite_eq_iff.mp h with ⟨-, h⟩ | ⟨-, h⟩
    · rcases ite_eq_iff.mp h with ⟨-, h⟩ | ⟨-, h⟩
      · cases h
        exact Nat.succ_pos _
      · rcases ite_eq_iff.mp h with ⟨-, h⟩ | ⟨-, h⟩
        · cases h
          exact hBelow
        · cases h
          exact tie.choose_pos hBelow
    · cases h
      exact hBelow
  · rcases ite_eq_iff.mp h with ⟨-, h⟩ | ⟨-, h⟩
    · cases h
      exact Nat.succ_pos _
    · cases h

theorem shortestFrom_pos
    {tie : Tie}
    {m : Nat}
    {e power : Int}
    (hPos : 0 < m)
    (fuel : Nat) : 0 < (shortestFrom tie m e power fuel).1 := by
  induction fuel generalizing power with
  | zero => exact hPos
  | succ fuel ih =>
      rw [shortestFrom]
      split
      · next hFound => exact pos_of_candidate? hPos hFound
      · exact ih

theorem dropZeros_pos
    {fuel digits : Nat}
    {power : Int}
    (hPos : 0 < digits) : 0 < (dropZeros fuel digits power).1 := by
  induction fuel generalizing digits power with
  | zero => exact hPos
  | succ fuel ih =>
      rw [dropZeros]
      split
      · next hZero => exact ih (by omega)
      · exact hPos

theorem shortest_pos
    {tie : Tie}
    {m : Nat}
    (hPos : 0 < m)
    (e : Int) : 0 < (shortest tie m e).1 :=
  dropZeros_pos (shortestFrom_pos hPos 17)

------------------------------------------------------------
-- Positional Texts
------------------------------------------------------------

theorem isNumeral_positionalText_of_finite
    (negative : Bool)
    (m : Nat)
    (e : Int) :
    IsNumeral (positionalText (.finite negative m e)) := by
  unfold positionalText
  dsimp only
  split
  · exact .signed negative (isUnsigned_toString 0)
  · next hPos =>
      exact .signed negative
        (isUnsigned_placeDigits
          (shortest_pos (Nat.pos_of_ne_zero hPos) e) _)

/- The text of a number is a numeral if the number is finite. -/
theorem isNumeral_positionalText_iff {x : Binary64} :
    IsNumeral x.positionalText ↔ x.isFinite = true := by
  cases x with
  | nan =>
      apply iff_of_false
      · intro h
        have hChar := h.isNumeralChar (c := 'N') (by decide)
        exact absurd hChar (by decide)
      · exact Bool.false_ne_true
  | infinite negative =>
      apply iff_of_false
      · intro h
        have hChar := h.isNumeralChar (c := 'f')
          (by cases negative <;> decide)
        exact absurd hChar (by decide)
      · exact Bool.false_ne_true
  | finite negative m e =>
      exact iff_of_true
        (isNumeral_positionalText_of_finite negative m e) rfl

end Binary64

end WireSchema
