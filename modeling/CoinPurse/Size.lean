import CoinPurse.Total

/-!
# Serialized sizes

The fee of a transaction is charged on its serialized size, so the size has to be known before the
transaction exists. A legacy transaction is a version, a list of inputs, a list of outputs and a
lock time; a list is preceded by its length in *compact* form, and so is every script.

Only the lengths of the scripts matter, so a transaction is described by two lists of lengths.
-/

namespace CoinPurse.Size

/-- Bytes of the compact form of a length: one byte up to 252, else a marker byte and a word of two,
four or eight bytes. -/
def compact (n : Nat) : Nat :=
  if n ≤ 0xfc then 1 else if n ≤ 0xffff then 3 else if n ≤ 0xffffffff then 5 else 9

/-- Bytes of an input with an unlocking script of the given length: the outpoint (36), the script
with its length, and the sequence number (4). -/
def input (script : Nat) : Nat := 40 + compact script + script

/-- Bytes of an output with a locking script of the given length: the amount (8) and the script with
its length. -/
def output (script : Nat) : Nat := 8 + compact script + script

/-- Bytes of a transaction whose inputs and outputs are known by number and joint size; version and
lock time take four bytes each. -/
def frame (inputCount inputBytes outputCount outputBytes : Nat) : Nat :=
  8 + compact inputCount + inputBytes + compact outputCount + outputBytes

/-- Bytes of the transaction with these unlocking and locking script lengths. -/
def transaction (unlocking locking : List Nat) : Nat :=
  frame unlocking.length (totalOf (unlocking.map input))
    locking.length (totalOf (locking.map output))

/-- A longer list or script never has a shorter compact length. -/
theorem compact_le_compact {m n : Nat} (h : m ≤ n) : compact m ≤ compact n := by
  unfold compact
  repeat' split
  all_goals omega

end CoinPurse.Size
