import WireSchema.Number.Word

/-
  Bytes that should be a text but may not be one.

  Key definitions include:
    * `replaceMalformed`

  Every longest run of bytes that starts a character but does
  not finish it is shown as one replacement character, and so
  is every byte that starts none.
-/

namespace WireSchema.Text

/- What stands for bytes that are no character. -/
def replacement : Char := '\uFFFD'

/- A range of bytes. -/
abbrev ByteRange := UInt8 × UInt8

def ByteRange.holds (r : ByteRange) (b : UInt8) : Bool :=
  r.1 ≤ b && b ≤ r.2

/- The bytes that may continue any character. -/
def tailRange : ByteRange := (0x80, 0xBF)

/-
  The bytes that may follow a first byte.  The second byte is
  narrower where wide forms of narrow characters, surrogates
  and numbers beyond the last character would start.
-/
def followers? (b : UInt8) : Option (List ByteRange) :=
  if b < 0x80 then some []
  else if b < 0xC2 then none
  else if b < 0xE0 then some [tailRange]
  else if b == 0xE0 then some [(0xA0, 0xBF), tailRange]
  else if b == 0xED then some [(0x80, 0x9F), tailRange]
  else if b < 0xF0 then some [tailRange, tailRange]
  else if b == 0xF0 then
    some [(0x90, 0xBF), tailRange, tailRange]
  else if b < 0xF4 then some [tailRange, tailRange, tailRange]
  else if b == 0xF4 then
    some [(0x80, 0x8F), tailRange, tailRange]
  else none

/- How many bits of a first byte belong to the number. -/
def leadBits (b : UInt8) (count : Nat) : Nat :=
  if count = 0 then b.toNat else b.toNat % twoTo (6 - count)

/-
  Read bytes in given ranges after a first byte: the number
  they make up, if all are there, and the number of bytes
  that fit.
-/
def takeFollowers (n : Nat) :
    List ByteRange → List UInt8 → Option Nat × Nat
  | [], _ => (some n, 0)
  | _ :: _, [] => (none, 0)
  | r :: ranges, b :: rest =>
      if r.holds b then
        let (n, k) :=
          takeFollowers (n * 64 + b.toNat % 64) ranges rest
        (n, k + 1)
      else (none, 0)

/-
  The characters of bytes.  The first argument holds the
  number of bytes that are part of the character before.
-/
def replaceFrom : Nat → List UInt8 → List Char
  | _, [] => []
  | skip + 1, _ :: rest => replaceFrom skip rest
  | 0, b :: rest =>
      match followers? b with
      | none => replacement :: replaceFrom 0 rest
      | some ranges =>
          let (n, k) :=
            takeFollowers (leadBits b ranges.length) ranges rest
          match n with
          | some n => Char.ofNat n :: replaceFrom k rest
          | none => replacement :: replaceFrom k rest

/- The text of bytes, with what is no text replaced. -/
def replaceMalformed (bytes : List UInt8) : List Char :=
  replaceFrom 0 bytes

end WireSchema.Text
