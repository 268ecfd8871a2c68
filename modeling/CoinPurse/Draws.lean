import CoinPurse.Word

/-!
# Random draws

Distribution of a surplus draws random values in `[0, 1)`. Values given by the caller are handed out
in order and start over at the end, so a run can be repeated; without them the values come from a
source of entropy. Either way the values form a stream, and what has been handed out is a first part
of it: `Draws.drawn` lists it, and a run repeated with these values draws the same.
-/

namespace CoinPurse

/-- A stream of values and the number of values taken from it. -/
structure Draws where
  /-- the value handed out at each place -/
  stream : Nat → Float
  /-- how many values have been handed out -/
  taken : Nat

namespace Draws

/-- The given values over and over. -/
def cycle (values : List Float) (k : Nat) : Float := (values[k % values.length]?).getD 0

/-- Repeats the given values; without any, draws from `entropy`. -/
def ofValues (entropy : Nat → Float) (values : Option (List Float)) : Draws :=
  match values with
  | some (v :: vs) => ⟨cycle (v :: vs), 0⟩
  | _ => ⟨entropy, 0⟩

/-- Whether the given values are repeated, rather than drawn from entropy. -/
def isReplay (values : Option (List Float)) : Bool :=
  match values with
  | some (_ :: _) => true
  | _ => false

/-- The next value. -/
def next (d : Draws) : Float × Draws := (d.stream d.taken, { d with taken := d.taken + 1 })

/-- How far a value in `[0, 1)` reaches into a span: the whole part of their product. -/
def reach (value : Float) (span : Nat) : Nat :=
  (value * (UInt64.ofNat span).toFloat).floor.toUInt64.toNat

/-- The next value as a whole number between `low` and `high`, both included. -/
def between (low high : Nat) (d : Draws) : Nat × Draws :=
  let (value, d) := d.next
  (min (low + reach value (high - low + 1)) high, d)

/-- Every value handed out so far, in order. -/
def drawn (d : Draws) : List Float := (List.range d.taken).map d.stream

/-- Where given values are repeated, entropy does not matter. -/
theorem ofValues_of_isReplay {values : Option (List Float)} (h : isReplay values = true)
    (entropy entropy' : Nat → Float) : ofValues entropy values = ofValues entropy' values := by
  rcases values with _ | _ | ⟨v, vs⟩
  · cases h
  · cases h
  · rfl

/-- A draw stays at or below its upper bound, whatever the value drawn. -/
theorem between_le (low high : Nat) (d : Draws) : (d.between low high).1 ≤ high :=
  Nat.min_le_right _ _

/-- A draw stays at or above its lower bound, whatever the value drawn. -/
theorem le_between {low high : Nat} (h : low ≤ high) (d : Draws) :
    low ≤ (d.between low high).1 :=
  Nat.le_min.2 ⟨Nat.le_add_right _ _, h⟩

end Draws

end CoinPurse
