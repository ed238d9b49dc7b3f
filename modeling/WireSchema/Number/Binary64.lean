import WireSchema.Number.Word

/-
  The double-precision numbers of IEEE 754, held as exact
  integers.

  A finite number is a sign, a significand and a power of
  two.  Every operation computes the exact result as a
  quotient of natural numbers and rounds it once, to the
  nearest number and on a tie to the even significand.

  Key definitions include:
    * `Binary64`
    * `Binary64.ofRatio`: rounding
    * `Binary64.ofDecimal`: a decimal numeral
    * `Binary64.add`, `neg`, `sub`, `mul`, `div`
    * `Binary64.toNatClamped`
-/

namespace WireSchema

------------------------------------------------------------
-- Numbers
------------------------------------------------------------

/-
  A finite number is `significand * 2 ^ exponent` up to its
  sign.  Significands stay below `significandCount` and
  exponents between -1074 and 971; a significand below
  `leastNormal` has the least exponent, so each number has
  one form.
-/
inductive Binary64 where
  | nan
  | infinite (negative : Bool)
  | finite
      (negative : Bool)
      (significand : Nat)
      (exponent : Int)
  deriving DecidableEq, Repr, Inhabited

namespace Binary64

/- The least and the greatest exponent of a finite number. -/
def minExponent : Int := -1074

def maxExponent : Int := 971

/- The least significand above the least exponent. -/
def leastNormal : Nat := 0x10000000000000

/- The number of significands. -/
def significandCount : Nat := 0x20000000000000

/- Zero of either sign. -/
def zero (negative : Bool) : Binary64 :=
  .finite negative 0 minExponent

def isFinite : Binary64 → Bool
  | .finite .. => true
  | _ => false

/- The magnitude of a dyadic number as a quotient. -/
def dyadicRatio
    (significand : Nat)
    (exponent : Int) : Nat × Nat :=
  if 0 ≤ exponent then
    (significand * twoTo exponent.toNat, 1)
  else
    (significand, twoTo (-exponent).toNat)

------------------------------------------------------------
-- Rounding
------------------------------------------------------------

/- The quotient to the nearest integer, ties to even. -/
def divRoundEven (num den : Nat) : Nat :=
  let q := num / den
  let r := num % den
  if 2 * r < den then q
  else if den < 2 * r then q + 1
  else if q % 2 = 0 then q
  else q + 1

/- A finite number, or infinity above the greatest one. -/
def pack
    (negative : Bool)
    (significand : Nat)
    (exponent : Int) : Binary64 :=
  if maxExponent < exponent then .infinite negative
  else .finite negative significand exponent

/- A quotient over a power of two, as a quotient. -/
def scaleDown (num den : Nat) (exponent : Int) : Nat × Nat :=
  if 0 ≤ exponent then (num, den * twoTo exponent.toNat)
  else (num * twoTo (-exponent).toNat, den)

/-
  The exponent that makes a quotient over it a significand
  above `leastNormal`, no smaller than the least one.
-/
def exponentFor (num den : Nat) : Int :=
  let guess : Int := (num.log2 : Int) - den.log2 - 53
  let scaled := scaleDown num den guess
  let fitted :=
    if scaled.1 / scaled.2 < significandCount then guess
    else guess + 1
  max minExponent fitted

/- The number nearest to a quotient. -/
def ofRatio
    (negative : Bool)
    (num den : Nat) : Binary64 :=
  if num = 0 then zero negative
  else
    let exponent := exponentFor num den
    let scaled := scaleDown num den exponent
    let q := divRoundEven scaled.1 scaled.2
    if q = significandCount then
      pack negative leastNormal (exponent + 1)
    else pack negative q exponent

/- The number nearest to an integer. -/
def ofInt (n : Int) : Binary64 :=
  ofRatio (decide (n < 0)) n.natAbs 1

/- The number nearest to a natural number. -/
def ofNat (n : Nat) : Binary64 :=
  ofRatio false n 1

/- How many decimal digits a number has; zero has one. -/
def digitCount (n : Nat) : Nat :=
  (Nat.toDigits 10 n).length

/-
  The number nearest to `digits * 10 ^ exponent`.  Numerals
  far outside the range are settled by their size, so that no
  giant power is ever computed.
-/
def ofDecimal
    (negative : Bool)
    (digits : Nat)
    (exponent : Int) : Binary64 :=
  let size : Int := (digitCount digits : Int) + exponent
  if digits = 0 then zero negative
  else if 310 < size then .infinite negative
  else if size < -330 then zero negative
  else if 0 ≤ exponent then
    ofRatio negative (digits * tenTo exponent.toNat) 1
  else
    ofRatio negative digits (tenTo (-exponent).toNat)

------------------------------------------------------------
-- Arithmetic
------------------------------------------------------------

def neg : Binary64 → Binary64
  | .nan => .nan
  | .infinite s => .infinite (!s)
  | .finite s m e => .finite (!s) m e

/- A signed significand brought to a lower exponent. -/
def alignTo
    (negative : Bool)
    (significand : Nat)
    (exponent lower : Int) : Int :=
  let m : Int := significand * twoTo (exponent - lower).toNat
  if negative then -m else m

def add : Binary64 → Binary64 → Binary64
  | .nan, _ => .nan
  | _, .nan => .nan
  | .infinite s, .infinite t =>
      if s = t then .infinite s else .nan
  | .infinite s, _ => .infinite s
  | _, .infinite t => .infinite t
  | .finite s m e, .finite t n f =>
      let lower := min e f
      let sum := alignTo s m e lower + alignTo t n f lower
      let ratio := dyadicRatio sum.natAbs lower
      if sum = 0 then zero (s && t)
      else ofRatio (decide (sum < 0)) ratio.1 ratio.2

def sub (a b : Binary64) : Binary64 :=
  add a (neg b)

def mul : Binary64 → Binary64 → Binary64
  | .nan, _ => .nan
  | _, .nan => .nan
  | .infinite s, .infinite t => .infinite (s != t)
  | .infinite s, .finite t n _ =>
      if n = 0 then .nan else .infinite (s != t)
  | .finite s m _, .infinite t =>
      if m = 0 then .nan else .infinite (s != t)
  | .finite s m e, .finite t n f =>
      let ratio := dyadicRatio (m * n) (e + f)
      ofRatio (s != t) ratio.1 ratio.2

def div : Binary64 → Binary64 → Binary64
  | .nan, _ => .nan
  | _, .nan => .nan
  | .infinite _, .infinite _ => .nan
  | .infinite s, .finite t _ _ => .infinite (s != t)
  | .finite s _ _, .infinite t => zero (s != t)
  | .finite s m e, .finite t n f =>
      if n = 0 then
        if m = 0 then .nan else .infinite (s != t)
      else
        let upper := dyadicRatio m e
        let lower := dyadicRatio n f
        ofRatio (s != t)
          (upper.1 * lower.2) (upper.2 * lower.1)

------------------------------------------------------------
-- Comparison and Conversion
------------------------------------------------------------

/- Below zero; neither zero is. -/
def isNegative : Binary64 → Bool
  | .nan => false
  | .infinite s => s
  | .finite s m _ => s && m != 0

/- A finite number without a fractional part. -/
def isWhole : Binary64 → Bool
  | .finite _ m e =>
      let ratio := dyadicRatio m e
      ratio.1 % ratio.2 == 0
  | _ => false

/-
  The whole part as a word of 64 bits: what is below zero
  becomes zero and what is too large the greatest word.
-/
def toNatClamped : Binary64 → Nat
  | .nan => 0
  | .infinite true => 0
  | .infinite false => maxWord
  | .finite true _ _ => 0
  | .finite false m e =>
      let ratio := dyadicRatio m e
      min maxWord (ratio.1 / ratio.2)

theorem toNatClamped_le_maxWord (x : Binary64) :
    x.toNatClamped ≤ maxWord := by
  cases x with
  | nan => simp [toNatClamped]
  | infinite s => cases s <;> simp [toNatClamped]
  | finite s m e =>
      cases s
      · exact Nat.min_le_left _ _
      · simp [toNatClamped]

end Binary64

end WireSchema
