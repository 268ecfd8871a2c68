import CoinPurse.Size
import CoinPurse.Txid

/-!
# Transactions as bytes

Fees are charged on serialized sizes (`Size`), and this file has the bytes that are counted.
Numbers are written with the lowest byte first. A list or a script is preceded by its length in
compact form: one byte if it is small, else a marker byte and as many bytes as the marker says.
Compact lengths have as many bytes as `Size.compact` counts (`Transaction.length_compact`). -/

namespace CoinPurse

/-- An input of a transaction: the output it spends, the script that unlocks it, and a sequence
number. -/
structure Transaction.Input where
  /-- the transaction of the output -/
  txid : Txid
  /-- the place of the output in that transaction -/
  vout : Nat
  /-- the unlocking script -/
  script : Bytes
  /-- the sequence number -/
  sequence : Nat
  deriving DecidableEq, Repr

/-- An output of a transaction: an amount and the script that locks it. -/
structure Transaction.Output where
  /-- the amount -/
  satoshis : Nat
  /-- the locking script -/
  script : Bytes
  deriving DecidableEq, Repr

/-- A transaction. -/
structure Transaction where
  /-- the version -/
  version : Nat
  /-- what it spends -/
  inputs : List Transaction.Input
  /-- what it pays -/
  outputs : List Transaction.Output
  /-- the time before which it is not final -/
  lockTime : Nat
  deriving DecidableEq, Repr

namespace Transaction

/-- A number in so many bytes, the lowest first. -/
def littleEndian : Nat → Nat → Bytes
  | 0, _ => []
  | width + 1, n => UInt8.ofNat n :: littleEndian width (n / 256)

/-- A length in compact form. -/
def compact (n : Nat) : Bytes :=
  if n ≤ 0xfc then littleEndian 1 n
  else if n ≤ 0xffff then 0xfd :: littleEndian 2 n
  else if n ≤ 0xffffffff then 0xfe :: littleEndian 4 n
  else 0xff :: littleEndian 8 n

/-- A script with its length in front. -/
def scriptBytes (script : Bytes) : Bytes := compact script.length ++ script

namespace Input

/-- An input as bytes. -/
def bytes (i : Input) : Bytes :=
  i.txid.bytes ++ littleEndian 4 i.vout ++ scriptBytes i.script ++ littleEndian 4 i.sequence

end Input

namespace Output

/-- An output as bytes. -/
def bytes (o : Output) : Bytes := littleEndian 8 o.satoshis ++ scriptBytes o.script

end Output

/-- A transaction as bytes. -/
def bytes (t : Transaction) : Bytes :=
  littleEndian 4 t.version
    ++ compact t.inputs.length ++ t.inputs.flatMap Input.bytes
    ++ compact t.outputs.length ++ t.outputs.flatMap Output.bytes
    ++ littleEndian 4 t.lockTime

/-- A number has the bytes it is given. -/
theorem length_littleEndian (width n : Nat) : (littleEndian width n).length = width := by
  induction width generalizing n with
  | zero => rfl
  | succ width ih => simp [littleEndian, ih]

/-- A compact length has as many bytes as are counted for it. -/
theorem length_compact (n : Nat) : (compact n).length = Size.compact n := by
  unfold compact Size.compact
  repeat' split
  all_goals simp [length_littleEndian]

end Transaction

end CoinPurse
