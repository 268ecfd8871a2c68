import CoinPurse.Size
import CoinPurse.Word

/-!
# Fees

A fee model is a rate in satoshis per thousand bytes. The fee of a transaction is its size times the
rate, in thousands, rounded up; the fee is kept as a 64-bit word, so only its low 64 bits survive.
-/

namespace CoinPurse

/-- The rate at which transactions pay, in satoshis per thousand serialized bytes. -/
structure FeeModel where
  /-- satoshis per thousand bytes -/
  rate : Nat
  deriving DecidableEq, Repr

namespace FeeModel

/-- The exact fee for `size` bytes: the least whole number of satoshis that pays the rate. -/
def exact (m : FeeModel) (size : Nat) : Nat := (size * m.rate + 999) / 1000

/-- The fee owed for `size` bytes: the exact fee, in a 64-bit word. -/
def due (m : FeeModel) (size : Nat) : Nat := m.exact size % Word.size64

/-- As long as the exact fee fits a word it is the fee owed. -/
theorem due_eq_exact {m : FeeModel} {size : Nat} (h : m.exact size < Word.size64) :
    m.due size = m.exact size := Nat.mod_eq_of_lt h

end FeeModel

end CoinPurse
