import WireSchema.Number.Binary64

/-
  Decimal texts of double-precision numbers.

  A number is written with the fewest decimal digits that
  read back as the same number; of several such numerals the
  one nearest to the number is taken.  When two are equally
  near, the two forms of texts decide differently.

  Key definitions include:
    * `Tie`: which of two numerals equally near is taken
    * `Binary64.shortest`: the digits and their power of ten
    * `Binary64.positionalText`: no exponent, `inf`, `NaN`
    * `Binary64.jsonText`: the form of JSON documents
    * `Binary64.ofText?`: reading a numeral
-/

namespace WireSchema

namespace Binary64

------------------------------------------------------------
-- Shortest Digits
------------------------------------------------------------

/-
  The reals that round to a number, as three numerators over
  one denominator: lower end, the number itself, upper end.
  The gap below a power of two is half the gap above it.
-/
def roundingInterval
    (significand : Nat)
    (exponent : Int) : (Nat × Nat × Nat) × Nat :=
  let low :=
    if significand = leastNormal ∧ minExponent < exponent then
      4 * significand - 1
    else 4 * significand - 2
  let scale := dyadicRatio 1 (exponent - 2)
  ((low * scale.1, 4 * significand * scale.1,
      (4 * significand + 2) * scale.1),
    scale.2)

/- The power of ten of the leading decimal digit. -/
def leadingPower (num den : Nat) : Int :=
  if den ≤ num then (digitCount (num / den) : Int) - 1
  else
    Int.negOfNat
      (digitCount ((den + num - 1) / num - 1))

/- A multiple of a power of ten as a quotient. -/
def decimalRatio (digits : Nat) (power : Int) : Nat × Nat :=
  if 0 ≤ power then (digits * tenTo power.toNat, 1)
  else (digits, tenTo (-power).toNat)

/- Which of two numerals equally near is taken. -/
inductive Tie where
  | toEven
  | fromZero
  deriving DecidableEq, Repr, Inhabited

/- The numeral that a tie takes, by the one nearer to zero. -/
def Tie.choose : Tie → Nat → Nat
  | .toEven, below =>
      if below % 2 = 0 then below else below + 1
  | .fromZero, below => below + 1

/-
  The numeral with a given power of ten that is nearest to a
  number among those that read back as it.
-/
def candidate?
    (tie : Tie)
    (significand : Nat)
    (exponent power : Int) : Option Nat :=
  let interval := roundingInterval significand exponent
  let low := interval.1.1
  let mid := interval.1.2.1
  let high := interval.1.2.2
  let den := interval.2
  let unit := decimalRatio 1 power
  let below := mid * unit.2 / (den * unit.1)
  let closed := significand % 2 == 0
  let readsBack := fun (d : Nat) =>
    let x := d * unit.1 * den
    let l := low * unit.2
    let h := high * unit.2
    if closed then l ≤ x ∧ x ≤ h else l < x ∧ x < h
  let distance := fun (d : Nat) =>
    ((d * unit.1 * den : Nat) - (mid * unit.2 : Nat) : Int).natAbs
  let above := below + 1
  if readsBack below then
    if readsBack above then
      if distance above < distance below then some above
      else if distance below < distance above then some below
      else some (tie.choose below)
    else some below
  else if readsBack above then some above
  else none

/- Try one digit more until a numeral reads back. -/
def shortestFrom
    (tie : Tie)
    (significand : Nat)
    (exponent power : Int) : Nat → Nat × Int
  | 0 => (significand, power)
  | more + 1 =>
      match candidate? tie significand exponent power with
      | some digits => (digits, power)
      | none =>
          shortestFrom tie significand exponent (power - 1) more

/- Drop the zeros at the end of a numeral. -/
def dropZeros : Nat → Nat → Int → Nat × Int
  | 0, digits, power => (digits, power)
  | fuel + 1, digits, power =>
      if digits ≠ 0 ∧ digits % 10 = 0 then
        dropZeros fuel (digits / 10) (power + 1)
      else (digits, power)

/-
  The fewest digits that read back, with their power of ten.
  Seventeen digits are always enough.
-/
def shortest
    (tie : Tie)
    (significand : Nat)
    (exponent : Int) : Nat × Int :=
  let ratio := dyadicRatio significand exponent
  let lead := leadingPower ratio.1 ratio.2
  let found := shortestFrom tie significand exponent lead 17
  dropZeros 400 found.1 found.2

------------------------------------------------------------
-- Writing
------------------------------------------------------------

def zeros (n : Nat) : String :=
  String.ofList (List.replicate n '0')

/- Digits with a decimal point, without an exponent. -/
def placeDigits (digits : Nat) (power : Int) : String :=
  let text := toString digits
  let count := text.length
  if 0 ≤ power then text ++ zeros power.toNat
  else
    let places := (-power).toNat
    if places < count then
      String.ofList (text.toList.take (count - places))
        ++ "." ++ String.ofList (text.toList.drop (count - places))
    else "0." ++ zeros (places - count) ++ text

def signText (negative : Bool) : String :=
  if negative then "-" else ""

/-
  The positional text: an exponent is never written, and a
  whole number has no decimal point.  Ties go away from zero.
-/
def positionalText : Binary64 → String
  | .nan => "NaN"
  | .infinite s => signText s ++ "inf"
  | .finite s m e =>
      if m = 0 then signText s ++ "0"
      else
        let found := shortest .fromZero m e
        signText s ++ placeDigits found.1 found.2

/- Digits with an exponent, a point after the first digit. -/
def scientificText (digits : Nat) (lead : Int) : String :=
  let text := toString digits
  let mantissa :=
    match text.toList with
    | [] => ""
    | [d] => String.ofList [d]
    | d :: rest => String.ofList (d :: '.' :: rest)
  let sign := if lead < 0 then "-" else "+"
  mantissa ++ "e" ++ sign ++ toString lead.natAbs

/-
  The text in a JSON document: positional from 1e-5 to below
  1e16, where a whole number ends in `.0`, and with an
  exponent outside.  What is not finite is `null`.  Ties go to the
  even digit.
-/
def jsonText : Binary64 → String
  | .nan => "null"
  | .infinite _ => "null"
  | .finite s m e =>
      if m = 0 then signText s ++ "0.0"
      else
        let found := shortest .toEven m e
        let lead :=
          found.2 + ((toString found.1).length : Int) - 1
        let body :=
          if lead < -5 ∨ 16 ≤ lead then
            scientificText found.1 lead
          else if 0 ≤ found.2 then
            placeDigits found.1 found.2 ++ ".0"
          else placeDigits found.1 found.2
        signText s ++ body

------------------------------------------------------------
-- Reading
------------------------------------------------------------

/- The number that a list of decimal digits denotes. -/
def digitsValue (digits : List Char) : Nat :=
  digits.foldl
    (fun n c => n * 10 + (c.toNat - '0'.toNat)) 0

/- The exponent of a numeral: nothing, or `e`, sign, digits. -/
def exponentOf? : List Char → Option Int
  | [] => some 0
  | c :: rest =>
      if c = 'e' ∨ c = 'E' then
        let signed : Bool × List Char :=
          match rest with
          | '-' :: ds => (true, ds)
          | '+' :: ds => (false, ds)
          | ds => (false, ds)
        let ds := signed.2
        if ds.isEmpty || !ds.all Char.isDigit then none
        else
          let n : Int := digitsValue ds
          some (if signed.1 then -n else n)
      else none

/-
  A numeral without its sign: digits with at most one point
  among or beside them, and an exponent.
-/
def unsignedOf? (negative : Bool) (s : List Char) :
    Option Binary64 :=
  let whole := s.takeWhile Char.isDigit
  let afterWhole := s.dropWhile Char.isDigit
  let fraction : List Char × List Char :=
    match afterWhole with
    | '.' :: rest =>
        (rest.takeWhile Char.isDigit,
          rest.dropWhile Char.isDigit)
    | rest => ([], rest)
  if whole.isEmpty && fraction.1.isEmpty then none
  else
    (exponentOf? fraction.2).map fun power =>
      ofDecimal negative (digitsValue (whole ++ fraction.1))
        (power - fraction.1.length)

/-
  Read a numeral: a sign, then digits or one of the words
  `inf`, `infinity` and `nan` in any case.
-/
def ofText? (s : List Char) : Option Binary64 :=
  let signed : Bool × List Char :=
    match s with
    | '-' :: rest => (true, rest)
    | '+' :: rest => (false, rest)
    | rest => (false, rest)
  let word := String.ofList (signed.2.map Char.toLower)
  if word = "inf" ∨ word = "infinity" then
    some (.infinite signed.1)
  else if word = "nan" then some .nan
  else unsignedOf? signed.1 signed.2

end Binary64

end WireSchema
