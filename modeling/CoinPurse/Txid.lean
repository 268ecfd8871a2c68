import CoinPurse.Bytes.Hex

/-!
# Transaction ids

A transaction is known by an id of thirty-two bytes. Anything shorter or longer is none.
-/

namespace CoinPurse

/-- The id of a transaction. -/
structure Txid where
  /-- its bytes -/
  bytes : Bytes
  length_eq : bytes.length = 32
  deriving DecidableEq, Repr

namespace Txid

/-- The transaction id with these bytes, if there are as many as it takes. -/
def ofBytes? (bytes : Bytes) : Option Txid :=
  if h : bytes.length = 32 then some ⟨bytes, h⟩ else none

/-- The bytes of a transaction id make it up. -/
theorem ofBytes?_bytes (t : Txid) : ofBytes? t.bytes = some t := by simp [ofBytes?, t.length_eq]

/-- A string of bytes is refused exactly when it has the wrong length. -/
theorem ofBytes?_eq_none_iff {bytes : Bytes} : ofBytes? bytes = none ↔ bytes.length ≠ 32 := by
  unfold ofBytes?
  split <;> simp_all

end Txid

end CoinPurse
