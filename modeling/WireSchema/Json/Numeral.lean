import WireSchema.Json.Basic

/-
  Numerals of JSON documents.

  A numeral is read in one pass.  Its leading digits are
  gathered into a significand as long as that fits a word of
  64 bits, digits beyond are only counted, and the result is
  scaled by a power of ten with one rounding for each factor.
  So a long numeral need not denote the nearest number.  A
  numeral that is well formed has no value when it is out of
  range.

  Key definitions include:
    * `scaleByTen?`
    * `readNumeral?`
-/

namespace WireSchema

namespace Json

------------------------------------------------------------
-- Scaling
------------------------------------------------------------

/- The greatest power of ten that is a finite number. -/
def maxTenPower : Nat := 308

def tenPower (n : Nat) : Binary64 :=
  .ofNat (tenTo n)

def isZero : Binary64 → Bool
  | .finite _ m _ => m == 0
  | _ => false

/-
  Multiply by a power of ten.  A number that leaves the range
  upwards is refused; downwards it is divided in steps of the
  greatest power until it is in range or zero.
-/
def scaleByTen? : Nat → Binary64 → Int → Option Binary64
  | 0, x, _ => some x
  | fuel + 1, x, exponent =>
      if exponent.natAbs ≤ maxTenPower then
        if 0 ≤ exponent then
          let y := x.mul (tenPower exponent.natAbs)
          if y.isFinite then some y else none
        else some (x.div (tenPower exponent.natAbs))
      else if isZero x then some x
      else if 0 ≤ exponent then none
      else
        scaleByTen? fuel (x.div (tenPower maxTenPower))
          (exponent + maxTenPower)

/- Four steps bring every word to zero. -/
def numeralValue?
    (negative : Bool)
    (significand : Nat)
    (exponent : Int) : Option JsonNumber :=
  (scaleByTen? 4 (.ofNat significand) exponent).map fun x =>
    .float (if negative then x.neg else x)

------------------------------------------------------------
-- Digits
------------------------------------------------------------

/- Whether one more digit still fits a word of 64 bits. -/
def fitsWord (significand : Nat) (digit : Char) : Bool :=
  significand * 10 + (digit.toNat - '0'.toNat)
    ≤ maxWord

/-
  Gather digits into a significand while they fit.  The
  result holds the significand, how many digits were
  gathered, and the rest of the text.
-/
def gatherDigits :
    Nat → Nat → List Char → Nat × Nat × List Char
  | significand, count, [] => (significand, count, [])
  | significand, count, c :: s =>
      if c.isDigit && fitsWord significand c then
        gatherDigits
          (significand * 10 + (c.toNat - '0'.toNat))
          (count + 1) s
      else (significand, count, c :: s)

/- The exponent part after `e`, with the rest of the text. -/
def readExponent? (s : List Char) : Option (Int × List Char) :=
  let signed : Bool × List Char :=
    match s with
    | '-' :: rest => (true, rest)
    | '+' :: rest => (false, rest)
    | rest => (false, rest)
  let digits := signed.2.takeWhile Char.isDigit
  if digits.isEmpty then none
  else
    let n : Int := Binary64.digitsValue digits
    some (if signed.1 then -n else n,
      signed.2.dropWhile Char.isDigit)

/- A numeral with its value, if it has one, and what follows. -/
abbrev ReadNumeral := Option JsonNumber × List Char

/- The end of a numeral that is not an integer. -/
def finishNumeral?
    (negative : Bool)
    (significand : Nat)
    (exponent : Int) : List Char → Option ReadNumeral
  | [] => some (numeralValue? negative significand exponent, [])
  | c :: s =>
      if c = 'e' ∨ c = 'E' then
        (readExponent? s).map fun p =>
          (numeralValue? negative significand (exponent + p.1),
            p.2)
      else
        some
          (numeralValue? negative significand exponent, c :: s)

/-
  The fraction after the point.  At least one digit has to
  follow; digits that no longer fit are dropped.
-/
def readFraction?
    (negative : Bool)
    (significand : Nat)
    (exponent : Int)
    (s : List Char) : Option ReadNumeral :=
  if (s.takeWhile Char.isDigit).isEmpty then none
  else
    let gathered := gatherDigits significand 0 s
    finishNumeral? negative gathered.1
      (exponent - gathered.2.1)
      (gathered.2.2.dropWhile Char.isDigit)

/- An integer that fits a word, or a number otherwise. -/
def wholeNumber
    (negative : Bool)
    (n : Nat) : JsonNumber :=
  if negative then
    if n = 0 then .float (.zero true)
    else if n ≤ signWeight then .negative n
    else .float (Binary64.ofNat n).neg
  else .natural n

/- What follows the digits before the point. -/
def readAfterWhole?
    (negative : Bool)
    (significand : Nat)
    (s : List Char) : Option ReadNumeral :=
  let dropped := s.takeWhile Char.isDigit
  match s.dropWhile Char.isDigit with
  | '.' :: rest =>
      readFraction? negative significand dropped.length rest
  | rest =>
      let exponential :=
        match rest with
        | c :: _ => c == 'e' || c == 'E'
        | [] => false
      if dropped.isEmpty && !exponential then
        some (some (wholeNumber negative significand), rest)
      else
        finishNumeral? negative significand dropped.length rest

/-
  Read a numeral at the start of a text.  Only a lone zero
  may start with zero.
-/
def readNumeral? (s : List Char) : Option ReadNumeral :=
  let signed : Bool × List Char :=
    match s with
    | '-' :: rest => (true, rest)
    | rest => (false, rest)
  match signed.2 with
  | [] => none
  | '0' :: rest =>
      match rest with
      | c :: _ =>
          if c.isDigit then none
          else readAfterWhole? signed.1 0 rest
      | [] => readAfterWhole? signed.1 0 rest
  | c :: rest =>
      if c.isDigit then
        let gathered := gatherDigits 0 0 (c :: rest)
        readAfterWhole? signed.1 gathered.1 gathered.2.2
      else none

end Json

end WireSchema
