/-!
# Bounded words

Amounts, sizes and counts are natural numbers inside this library. Where a figure leaves it, or is
compared with something stored outside it, it has to fit a machine word. This file names the limits
and the three operations that stop at them.
-/

namespace CoinPurse.Word

/-- The largest unsigned 64-bit word. -/
def max64 : Nat := 18446744073709551615

/-- How many unsigned 64-bit words there are. -/
def size64 : Nat := 18446744073709551616

/-- The largest unsigned 32-bit word. -/
def max32 : Nat := 4294967295

/-- The largest signed 64-bit word. -/
def maxSigned64 : Nat := 9223372036854775807

/-- The smallest signed 64-bit word. -/
def minSigned64 : Int := -9223372036854775808

/-- The largest signed 32-bit word. -/
def maxSigned32 : Nat := 2147483647

/-- The nearest unsigned 64-bit word: negative figures become zero, large ones the largest word. -/
def clamp (v : Int) : Nat := min v.toNat max64

/-- Addition that stops at the largest word. -/
def add (a b : Nat) : Nat := min (a + b) max64

/-- Multiplication that stops at the largest word. -/
def mul (a b : Nat) : Nat := min (a * b) max64

/-- The signed 32-bit word with the same low 32 bits. -/
def narrow32 (v : Int) : Int := Int.bmod v 4294967296

/-- A figure that already is a word is its own nearest word. -/
theorem clamp_of_le {n : Nat} (h : n ≤ max64) : clamp (n : Int) = n := by
  simp [clamp, Nat.min_eq_left h]

/-- No nearest word exceeds the largest word. -/
theorem clamp_le (v : Int) : clamp v ≤ max64 := Nat.min_le_right _ _

/-- A larger figure never has a smaller nearest word. -/
theorem clamp_le_clamp {v w : Int} (h : v ≤ w) : clamp v ≤ clamp w := by
  simp only [clamp]
  omega

/-- A word does not become smaller by adding to it. -/
theorem le_add {a : Nat} (b : Nat) (h : a ≤ max64) : a ≤ add a b :=
  Nat.le_min.2 ⟨Nat.le_add_right a b, h⟩

end CoinPurse.Word
