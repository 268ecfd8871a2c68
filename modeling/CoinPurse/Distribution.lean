import CoinPurse.Draws

/-!
# Distributing a surplus

What a funded draft has in excess goes to its change outputs. One output takes all of it. With
several, the first is brought up to the initial amount if it started below it; what remains is
handed out in random shares, each a quarter to a half of what is left and at least one satoshi,
each to a random output.

A share is never more than what is left, so the surplus itself bounds the number of shares. Any
surplus is handed out here. In words, where what is left is read anew for every share, a surplus
that is not a word would lose its upper part; that of a run is a word (`Draft.finish`).
-/

namespace CoinPurse.Distribution

/-- A share of what is left, in hundredths of a percent, but at least one satoshi. -/
def share (percent left : Nat) : Nat := max 1 (percent * left / 10000)

/-- Hands out what is left in random shares, in at most so many steps. -/
def scatter : Nat → Nat → List Nat → Draws → List Nat × Draws
  | 0, _, amounts, draws => (amounts, draws)
  | steps + 1, left, amounts, draws =>
    if left = 0 then (amounts, draws)
    else
      let (percent, draws) := draws.between 2500 5000
      let part := share percent left
      let (place, draws) := draws.between 0 (amounts.length - 1)
      scatter steps (left - part) (amounts.modify place (· + part)) draws

/-- Hands out a surplus over the amounts of change outputs, the first of which may have started
below the initial amount. -/
def spread (initial surplus : Nat) : List Nat → Draws → List Nat × Draws
  | [], draws => ([], draws)
  | [only], draws => ([only + surplus], draws)
  | first :: second :: rest, draws =>
    let topUp := min surplus (initial - first)
    scatter (surplus - topUp) (surplus - topUp) ((first + topUp) :: second :: rest) draws

/-- A share of something is part of it. -/
theorem share_le {percent left : Nat} (hp : percent ≤ 10000) (hl : 0 < left) :
    share percent left ≤ left := by
  unfold share
  have : percent * left / 10000 ≤ left := by
    calc percent * left / 10000 ≤ 10000 * left / 10000 :=
          Nat.div_le_div_right (Nat.mul_le_mul_right _ hp)
      _ = left := by omega
  omega

/-- No share is empty. -/
theorem one_le_share (percent left : Nat) : 1 ≤ share percent left := Nat.le_max_left _ _

end CoinPurse.Distribution
