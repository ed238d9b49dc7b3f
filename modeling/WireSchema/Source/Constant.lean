import WireSchema.Number.Decimal
import WireSchema.Source.Literal

/-
  Constant expressions and their values.

  Integers have 64 bits: an operation of which the result
  does not fit has no value.

  Key definitions include:
    * `ConstExpr`, `ConstValue`
    * `ConstOp.apply`
    * `ConstExpr.eval`
-/

namespace WireSchema.Source

------------------------------------------------------------
-- Expressions
------------------------------------------------------------

/- Operators; `other` ones have no value. -/
inductive ConstOp where
  | add
  | sub
  | mul
  | div
  | rem
  | shl
  | shr
  | or
  | and
  | xor
  | other
  deriving DecidableEq, Repr, Inhabited

/- The operator that a symbol stands for. -/
def ConstOp.ofSymbol : String → ConstOp
  | "+" => .add
  | "-" => .sub
  | "*" => .mul
  | "/" => .div
  | "%" => .rem
  | "<<" => .shl
  | ">>" => .shr
  | "|" => .or
  | "&" => .and
  | "^" => .xor
  | _ => .other

/-
  A conversion to a type has the value of its operand.  What
  is `unknown` has no value.
-/
inductive ConstExpr where
  | int (n : Int)
  | float (x : Binary64)
  | text (s : String)
  | position
  | name (s : String)
  | neg (operand : ConstExpr)
  | binary (op : ConstOp) (left right : ConstExpr)
  | conversion (type : String) (operand : ConstExpr)
  | unknown
  deriving DecidableEq, Repr, Inhabited

inductive ConstValue where
  | int (n : Int)
  | float (x : Binary64)
  | text (s : String)
  deriving DecidableEq, Repr, Inhabited

/- The values of constants by name. -/
abbrev ConstTable := List (String × ConstValue)

------------------------------------------------------------
-- Integers of 64 Bits
------------------------------------------------------------

/- How far integers can be shifted. -/
def shiftAmount? (n : Int) : Option Nat :=
  if 0 ≤ n ∧ n < 64 then some n.toNat else none

/- The bits of an integer as a natural number. -/
def bits64 (n : Int) : Nat :=
  (n % wordCount).toNat

/- Combine integers bit by bit. -/
def bitwise (f : Nat → Nat → Nat) (a b : Int) : Int :=
  wrap64 (f (bits64 a) (bits64 b))

namespace ConstOp

/- The value of an operation on integers. -/
def applyInt (op : ConstOp) (a b : Int) : Option Int :=
  match op with
  | .add => within64? (a + b)
  | .sub => within64? (a - b)
  | .mul => within64? (a * b)
  | .div => if b = 0 then none else within64? (Int.tdiv a b)
  | .rem =>
      if b = 0 then none
      else if (within64? (Int.tdiv a b)).isNone then none
      else some (Int.tmod a b)
  | .shl =>
      (shiftAmount? b).map fun k => wrap64 (a * twoTo k)
  | .shr => (shiftAmount? b).map fun k => Int.fdiv a (twoTo k)
  | .or => some (bitwise Nat.lor a b)
  | .and => some (bitwise Nat.land a b)
  | .xor => some (bitwise Nat.xor a b)
  | .other => none

/- The value of an operation on floating-point numbers. -/
def applyFloat (op : ConstOp) (a b : Binary64) :
    Option Binary64 :=
  match op with
  | .add => some (a.add b)
  | .sub => some (a.sub b)
  | .mul => some (a.mul b)
  | .div => some (a.div b)
  | _ => none

end ConstOp

/- A number as a floating-point number. -/
def ConstValue.toFloat? : ConstValue → Option Binary64
  | .int n => some (.ofInt n)
  | .float x => some x
  | .text _ => none

/- The value of an operation. -/
def ConstOp.apply (op : ConstOp) :
    ConstValue → ConstValue → Option ConstValue
  | .int a, .int b => (op.applyInt a b).map .int
  | .text a, .text b =>
      if op = .add then some (.text (a ++ b)) else none
  | a, b => do
      let x ← a.toFloat?
      let y ← b.toFloat?
      (op.applyFloat x y).map .float

/- The value with the opposite sign. -/
def ConstValue.neg? : ConstValue → Option ConstValue
  | .int n => (within64? (-n)).map .int
  | .float x => some (.float x.neg)
  | .text _ => none

/-
  The value of an expression at a position in its group, with
  the values of names from a table.
-/
def ConstExpr.eval (position : Int) (table : ConstTable) :
    ConstExpr → Option ConstValue
  | .int n => some (.int n)
  | .float x => some (.float x)
  | .text s => some (.text s)
  | .position => some (.int position)
  | .name s => table.lookup s
  | .neg e => do (← eval position table e).neg?
  | .binary op left right => do
      let a ← eval position table left
      let b ← eval position table right
      op.apply a b
  | .conversion _ e => eval position table e
  | .unknown => none

end WireSchema.Source
