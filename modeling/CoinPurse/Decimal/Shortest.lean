/-!
# The fewest digits that read back

A finite positive float is `mantissa · 2 ^ exponent`. All real numbers in an interval around it
round to it when they are read. Among the decimal numbers in that interval `shortest` picks one
with the fewest digits, and of those the nearest; of two equally near ones the larger.

The search is exact: it compares natural numbers after bringing the powers of two and of ten to a
common scale. If a point of a decimal grid lies in the interval then so does one of the two grid
points next to the float, so two candidates per grid are enough.
-/

namespace CoinPurse

/-- The number `digits · 10 ^ exponent`. -/
structure Decimal where
  /-- the digits, as a natural number -/
  digits : Nat
  /-- the power of ten they are multiplied by -/
  exponent : Int
  deriving DecidableEq, Repr

/-- A positive float, taken apart: `mantissa · 2 ^ exponent`. -/
structure Binary where
  /-- the significand, below `2 ^ 53` -/
  mantissa : Nat
  /-- the power of two it is multiplied by -/
  exponent : Int
  /-- the float below is only half as far away as the float above -/
  narrow : Bool
  deriving DecidableEq, Repr

namespace Binary

/-- The power of a base; one where the exponent is negative. -/
def power (base : Nat) (exponent : Int) : Nat := Nat.pow base exponent.toNat

/-- The significand bit that is not stored: the 52nd power of two. -/
def hidden : Nat := 4503599627370496

/-- The parts of the float with these bits, its sign left aside; `none` for infinities and for what
is not a number. -/
def ofBits (bits : Nat) : Option Binary :=
  let exponent : Nat := bits / hidden % 2048
  let fraction : Nat := bits % hidden
  if exponent = 2047 then none
  else if exponent = 0 then some ⟨fraction, -1074, false⟩
  else some ⟨fraction + hidden, (exponent : Int) - 1075, fraction = 0 && 1 < exponent⟩

/-- The grid point `c · 10 ^ k` nearest to the float, if a point of this grid reads back as it. -/
def onGrid (b : Binary) (k : Int) : Option Nat :=
  let step := power 10 k * power 2 (2 - b.exponent)
  let unit := power 10 (-k) * power 2 (b.exponent - 2)
  let value := 4 * b.mantissa * unit
  let low := value - (if b.narrow then 1 else 2) * unit
  let high := value + 2 * unit
  let readsBack (c : Nat) : Bool :=
    if b.mantissa % 2 = 0 then low ≤ c * step && c * step ≤ high
    else low < c * step && c * step < high
  let below := value / step
  match readsBack below, readsBack (below + 1) with
  | true, true =>
    if value - below * step < (below + 1) * step - value then some below else some (below + 1)
  | true, false => some below
  | false, true => some (below + 1)
  | false, false => none

/-- The power of ten of the float's first digit. -/
def leading (b : Binary) : Int :=
  let scaled := b.mantissa * power 10 400 * power 2 b.exponent / power 2 (-b.exponent)
  ((Nat.toDigits 10 scaled).length : Int) - 401

/-- The decimal with the fewest digits that reads back as this float. Seventeen digits are always
enough; the upper neighbour on the coarsest grid may be the next power of ten, which has one
digit. -/
def shortest (b : Binary) : Decimal :=
  ((List.range 17).findSome? fun (n : Nat) =>
      (b.onGrid (b.leading - n)).map fun c =>
        if c % 10 = 0 then ⟨c / 10, b.leading - n + 1⟩ else ⟨c, b.leading - n⟩).getD ⟨0, 0⟩

end Binary

end CoinPurse
