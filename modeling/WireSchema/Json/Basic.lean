import WireSchema.Number.Decimal

/-
  JSON documents as values.

  Key definitions include:
    * `JsonNumber`
    * `Json`
    * `Json.isSound`: there are no unusable values inside
    * `Json.member?`
    * `Json.sortMembers`: one member per name, by name
-/

namespace WireSchema

/-
  A numeral without point and exponent is an integer when it
  fits a signed or an unsigned word of 64 bits.  Every other
  numeral is a double-precision number.
-/
inductive JsonNumber where
  | natural (n : Nat)
  | negative (n : Nat)
  | float (x : Binary64)
  deriving DecidableEq, Repr, Inhabited

/-
  A document keeps the members of an object as they stand,
  repeated names included.  A value is unusable when it is
  well formed and yet stands for nothing: a text with half of
  a surrogate pair, a numeral beyond the range of numbers,
  what is nested too deeply.
-/
inductive Json where
  | null
  | bool (b : Bool)
  | number (n : JsonNumber)
  | text (s : String)
  | array (items : List Json)
  | object (members : List (String × Json))
  | unusable
  deriving Repr, Inhabited

namespace Json

------------------------------------------------------------
-- Building
------------------------------------------------------------

def nat (n : Nat) : Json :=
  .number (.natural n)

def int (n : Int) : Json :=
  if n < 0 then .number (.negative n.natAbs)
  else .number (.natural n.toNat)

def texts (xs : List String) : Json :=
  .array (xs.map .text)

/- An optional value, `null` when there is none. -/
def orNull : Option Json → Json
  | none => .null
  | some v => v

------------------------------------------------------------
-- Soundness
------------------------------------------------------------

mutual

/- Whether no value inside is unusable. -/
def isSound : Json → Bool
  | .array items => areSound items
  | .object members => haveSound members
  | .unusable => false
  | _ => true

def areSound : List Json → Bool
  | [] => true
  | v :: rest => isSound v && areSound rest

def haveSound : List (String × Json) → Bool
  | [] => true
  | (_, v) :: rest => isSound v && haveSound rest

end

------------------------------------------------------------
-- Members
------------------------------------------------------------

/- The first member of a name; other values have none. -/
def member? (name : String) : Json → Option Json
  | .object members => members.lookup name
  | _ => none

/-
  Put a member in its place by name.  A member of the same
  name that is there already stays.
-/
def insertMember
    (m : String × Json) :
    List (String × Json) → List (String × Json)
  | [] => [m]
  | n :: rest =>
      if m.1 < n.1 then m :: n :: rest
      else if n.1 < m.1 then n :: insertMember m rest
      else n :: rest

mutual

/-
  Sort the members of every object by name, keeping the last
  member of each name.
-/
def sortMembers : Json → Json
  | .array items => .array (sortMembersItems items)
  | .object members => .object (sortMembersObject members)
  | v => v

def sortMembersItems : List Json → List Json
  | [] => []
  | v :: rest => sortMembers v :: sortMembersItems rest

def sortMembersObject :
    List (String × Json) → List (String × Json)
  | [] => []
  | (name, v) :: rest =>
      insertMember (name, sortMembers v)
        (sortMembersObject rest)

end

end Json

end WireSchema
