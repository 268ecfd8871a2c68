/-!
# Entropy

Where no random values are given, they come from a seed: the seed and the place of a value in the
stream are mixed into a word, and the upper bits of the word make the value.
-/

namespace CoinPurse.Entropy

/-- Spreads every bit of a word over the whole word. -/
def mix (z : UInt64) : UInt64 :=
  let z := (z ^^^ (z >>> 30)) * 0xbf58476d1ce4e5b9
  let z := (z ^^^ (z >>> 27)) * 0x94d049bb133111eb
  z ^^^ (z >>> 31)

/-- The value in `[0, 1)` given by the upper 53 bits of a word. -/
def unit (z : UInt64) : Float := (z >>> 11).toFloat / 9007199254740992.0

/-- The stream of values that belongs to a seed. -/
def stream (seed : UInt64) (k : Nat) : Float :=
  unit (mix (seed + UInt64.ofNat (k + 1) * 0x9e3779b97f4a7c15))

end CoinPurse.Entropy
