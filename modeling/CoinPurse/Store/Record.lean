import CoinPurse.Candidate
import CoinPurse.Store.Cell
import CoinPurse.Store.Fault
import CoinPurse.Total
import CoinPurse.Txid
import CoinPurse.Word

/-!
# Records of a store

What callers see of a store is typed: a transaction id has thirty-two bytes, an amount is a
natural number, a run is open, completed or aborted. What is stored is a row of cells. This file
goes from one to the other, and says what may go wrong on the way.

A database also notes when each row was made and when it was last changed, and hands these two texts
out with the row. They come from its clock. Nothing is decided by them, and they are left out of the
rows here as well as of the outputs and runs that callers see. -/

namespace CoinPurse

/-- How a run stands. -/
inductive RunStatus where
  /-- it may claim outputs -/
  | opened
  /-- its outputs are spent -/
  | completed
  /-- its outputs are given back -/
  | aborted
  deriving DecidableEq, Repr

namespace RunStatus

/-- The number a status is stored as. -/
def code : RunStatus → Int
  | opened => 0
  | completed => 1
  | aborted => 2

/-- The word for a status. -/
def name : RunStatus → String
  | opened => "open"
  | completed => "completed"
  | aborted => "aborted"

/-- The status stored as a number. -/
def ofCode (code : Int) : Except Store.Fault RunStatus :=
  if code = 0 then .ok opened
  else if code = 1 then .ok completed
  else if code = 2 then .ok aborted
  else .error (.invalidData (.runStatus code))

/-- A status is read as it was stored. -/
theorem ofCode_code (s : RunStatus) : ofCode s.code = .ok s := by cases s <;> rfl

end RunStatus

namespace Store

/-- A change output to be stored. -/
structure NewOutput where
  /-- the transaction it belongs to -/
  txid : Txid
  /-- its place among the outputs of that transaction -/
  vout : Nat
  /-- what it is worth -/
  satoshis : Nat
  /-- its locking script -/
  script : Bytes
  deriving DecidableEq, Repr

/-- A stored change output, without the times at which it was stored and last changed. -/
structure Output where
  /-- the id it is stored under -/
  id : Int
  /-- the transaction it belongs to -/
  txid : Txid
  /-- its place among the outputs of that transaction -/
  vout : Nat
  /-- what it is worth -/
  satoshis : Nat
  /-- its locking script -/
  script : Bytes
  /-- whether it has been spent -/
  spent : Bool
  /-- the transaction that spent it -/
  spendingTxid : Option Txid
  deriving DecidableEq, Repr

/-- A stored run, without the times at which it was opened and last changed. -/
structure Run where
  /-- the id it is stored under -/
  id : Int
  /-- how it stands -/
  status : RunStatus
  /-- the transaction it was completed with -/
  spendingTxid : Option Txid
  deriving DecidableEq, Repr

/-- The columns of a stored change output, but for the two that hold times. The id is a number and
the script is bytes, whatever is done to the row; the other columns may hold any cell. -/
structure Row where
  id : Int
  txid : Cell
  vout : Cell
  satoshis : Cell
  script : Bytes
  spent : Cell
  spendingTxid : Cell
  deriving DecidableEq, Repr

/-- The columns of a stored run, but for the two that hold times. -/
structure RunRow where
  id : Int
  status : Cell
  spendingTxid : Cell
  deriving DecidableEq, Repr

/-- Bad data as a failure. -/
def bad {α : Type} (cause : BadData) : Except Fault α := .error (.invalidData cause)

/-- A cell for the spending transaction, read. -/
def readSpending (c : Cell) : Except Fault (Option Txid) :=
  if c = .null then .ok none
  else match Txid.ofBytes? c.content with
  | some t => .ok (some t)
  | none => bad (.spendingTxidLength c.content.length)

/-- A cell for an amount, read. -/
def readAmount (c : Cell) : Except Fault Nat :=
  if 0 ≤ c.number then .ok c.number.toNat else bad (.negativeAmount c.number)

namespace Cell

/-- The cell read as a number of 32 bits; higher bits are passed over. -/
def shortNumber (c : Cell) : Int := Word.narrow32 c.number

end Cell

namespace NewOutput

/-- The columns of an output as it enters the store under an id; index and amount have to fit. -/
def row (o : NewOutput) (id : Int) : Except Fault Row :=
  if Word.maxSigned32 < o.vout then bad (.voutOutOfRange o.vout)
  else if Word.maxSigned64 < o.satoshis then bad (.amountOutOfRange o.satoshis)
  else .ok ⟨id, .bytes o.txid.bytes, .int o.vout, .int o.satoshis, o.script, .int 0, .null⟩

/-- Passes if the output fits its columns. -/
def check (o : NewOutput) : Except Fault Unit := (o.row 0).map fun _ => ()

end NewOutput

namespace Row

/-- The output a row describes; columns are checked in their order. -/
def read (r : Row) : Except Fault Output :=
  match Txid.ofBytes? r.txid.content with
  | none => bad (.txidLength r.txid.content.length)
  | some txid =>
    let vout := r.vout.shortNumber
    if vout < 0 then bad (.negativeVout vout)
    else do
      let satoshis ← readAmount r.satoshis
      let spendingTxid ← readSpending r.spendingTxid
      let spent := r.spent.shortNumber != 0
      return ⟨r.id, txid, vout.toNat, satoshis, r.script, spent, spendingTxid⟩

/-- The output as a candidate for funding; only its amount is checked. -/
def readCandidate (r : Row) : Except Fault Candidate := do
  return ⟨r.id, ← readAmount r.satoshis⟩

end Row

namespace RunRow

/-- The status of the run. -/
def readStatus (r : RunRow) : Except Fault RunStatus := RunStatus.ofCode r.status.shortNumber

/-- The run a row describes. -/
def read (r : RunRow) : Except Fault Run := do
  let status ← r.readStatus
  let spendingTxid ← readSpending r.spendingTxid
  return ⟨r.id, status, spendingTxid⟩

end RunRow

end Store

end CoinPurse
