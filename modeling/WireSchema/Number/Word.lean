/-
  Powers of two and of ten, and the numbers that fit a word
  of the machine.

  Key definitions include:
    * `twoTo`, `tenTo`
    * `maxWord`, `maxHalfWord`
    * `minInt64`, `maxInt64`, `within64?`
    * `wrap64`
-/

namespace WireSchema

------------------------------------------------------------
-- Powers
------------------------------------------------------------

def twoTo (k : Nat) : Nat :=
  Nat.pow 2 k

def tenTo (k : Nat) : Nat :=
  Nat.pow 10 k

theorem twoTo_succ (k : Nat) : twoTo (k + 1) = twoTo k * 2 :=
  rfl

theorem twoTo_pos (k : Nat) : 0 < twoTo k := by
  induction k with
  | zero => decide
  | succ k ih => rw [twoTo_succ]; omega

theorem tenTo_succ (k : Nat) : tenTo (k + 1) = tenTo k * 10 :=
  rfl

theorem tenTo_pos (k : Nat) : 0 < tenTo k := by
  induction k with
  | zero => decide
  | succ k ih => rw [tenTo_succ]; omega

------------------------------------------------------------
-- Words
------------------------------------------------------------

/- The number of words of 64 bits. -/
def wordCount : Nat := 0x10000000000000000

/- The greatest number of 64 bits. -/
def maxWord : Nat := 0xFFFFFFFFFFFFFFFF

/- The greatest number of 32 bits. -/
def maxHalfWord : Nat := 0xFFFFFFFF

/- What the first bit of a word of 64 bits stands for. -/
def signWeight : Nat := 0x8000000000000000

------------------------------------------------------------
-- Integers of 64 Bits
------------------------------------------------------------

/- The least and the greatest integer of 64 bits. -/
def minInt64 : Int := -0x8000000000000000

def maxInt64 : Int := 0x7FFFFFFFFFFFFFFF

/- An integer that fits 64 bits. -/
def within64? (n : Int) : Option Int :=
  if minInt64 ≤ n ∧ n ≤ maxInt64 then some n else none

/- The integer of 64 bits with the bits of an integer. -/
def wrap64 (n : Int) : Int :=
  Int.bmod n wordCount

/- An integer that fits is the one with its bits. -/
theorem wrap64_of_within64?
    {n m : Int}
    (h : within64? n = some m) : wrap64 n = n := by
  unfold within64? at h
  split at h
  · next hn =>
      simp only [minInt64, maxInt64] at hn
      apply Int.bmod_eq_of_le_mul_two <;>
        simp only [wordCount] <;> omega
  · simp at h

end WireSchema
