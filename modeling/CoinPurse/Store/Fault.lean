/-!
# What can go wrong in a store

A fault names a cause; `Fault.message` puts it in a sentence. Data are checked where they enter a
store, since its columns are narrower than what callers may pass, and again where they are read,
since a store can be changed behind the library's back. -/

namespace CoinPurse.Store

/-- Data that do not fit a column, or a column that does not hold what it should. -/
inductive BadData where
  /-- an output index is beyond its column -/
  | voutOutOfRange (vout : Nat)
  /-- an amount is beyond its column -/
  | amountOutOfRange (satoshis : Nat)
  /-- a stored transaction id has the wrong length -/
  | txidLength (bytes : Nat)
  /-- a stored output index is negative -/
  | negativeVout (vout : Int)
  /-- a stored amount is negative -/
  | negativeAmount (satoshis : Int)
  /-- a stored spending transaction id has the wrong length -/
  | spendingTxidLength (bytes : Nat)
  /-- a stored status is none -/
  | runStatus (code : Int)
  /-- the spendable outputs are worth more than a word holds -/
  | balanceOverflow
  deriving DecidableEq, Repr

/-- What the sentence about bad data says. -/
def BadData.message : BadData → String
  | voutOutOfRange vout => s!"vout {vout} out of range"
  | amountOutOfRange satoshis => s!"satoshi amount {satoshis} out of range"
  | txidLength bytes => s!"txid: expected 32 bytes, got {bytes}"
  | negativeVout vout => s!"negative vout: {vout}"
  | negativeAmount satoshis => s!"negative satoshis: {satoshis}"
  | spendingTxidLength bytes => s!"spending_txid: expected 32 bytes, got {bytes}"
  | runStatus code => s!"invalid run status: {code}"
  | balanceOverflow => "spendable balance overflows"

/-- What stands in the way of using the file of a store. -/
inductive Trouble where
  /-- there is no such file, and none can be made -/
  | cannotOpen
  /-- the address makes no sense -/
  | badAddress
  /-- the address asks for more than it may -/
  | denied
  /-- the file cannot be changed -/
  | readOnly
  /-- the file, or one beside it, cannot be looked at -/
  | inputOutput
  /-- the index to the log of the file cannot be made -/
  | noIndex
  /-- the file holds something else -/
  | notAStore
  deriving DecidableEq, Repr

/-- The words for a trouble. -/
def Trouble.message : Trouble → String
  | cannotOpen => "unable to open database file"
  | badAddress => "SQL logic error"
  | denied => "access permission denied"
  | readOnly => "attempt to write a readonly database"
  | inputOutput => "disk I/O error"
  | noIndex => "locking protocol"
  | notAStore => "file is not a database"

/-- Why a store could not be opened, or an operation on it failed. -/
inductive Fault where
  /-- the address holds a zero byte -/
  | zeroInAddress (position : Nat)
  /-- the file cannot be reached -/
  | unreachable (trouble : Trouble)
  /-- the file cannot be made ready -/
  | unprepared (trouble : Trouble)
  /-- the file takes no change -/
  | refused (trouble : Trouble)
  /-- an output with this outpoint is already stored -/
  | duplicateOutpoint
  /-- a column that has to hold something would hold nothing -/
  | emptyColumn (column : String)
  /-- data do not fit, or are not what they should be -/
  | invalidData (cause : BadData)
  /-- the run does not hold the output -/
  | notAllocated (output run : Int)
  /-- there is no such run -/
  | runNotFound (run : Int)
  /-- the run has ended -/
  | runNotOpen (run : Int)
  deriving DecidableEq, Repr

namespace Fault

/-- Whether the fault is that something stored would be there twice. -/
def isDuplicate : Fault → Bool
  | duplicateOutpoint => true
  | _ => false

/-- The sentence that reports the fault. -/
def message : Fault → String
  | zeroInAddress position =>
    s!"connection error: nul byte found in provided data at position: {position}"
  | unreachable trouble => s!"connection error: {trouble.message}"
  | unprepared trouble => s!"migration error: {trouble.message}"
  | refused trouble => s!"database error: {trouble.message}"
  | duplicateOutpoint =>
    "database error: UNIQUE constraint failed: change_outputs.txid, change_outputs.vout"
  | emptyColumn column => s!"database error: NOT NULL constraint failed: {column}"
  | invalidData cause => s!"invalid data: {cause.message}"
  | notAllocated output run => s!"change output {output} is not allocated to run {run}"
  | runNotFound run => s!"generation run {run} not found"
  | runNotOpen run => s!"generation run {run} is not open"

end Fault

end CoinPurse.Store
