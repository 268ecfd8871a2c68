import CoinPurse.Store.Basic

/-!
# Stores changed from outside

A store lives in a file that others can write. An *edit* overwrites one column of one stored output
or run, with a cell of any kind. None of the checks the library makes apply; all that is kept is
that a required column holds something and that no two outputs have the same outpoint. Operations
on an edited store still give an answer or a fault; they find what is wrong when they read the row.

Edits reach the columns that may turn out to hold bad data when they are read, and the one that says
whether an output is spent. They leave the others alone: a locking script is handed on whatever it
is, the times in a row are not kept here (`Row`), and rows and claims are found by their ids. Edits
write neither fractions nor text (`Cell`), which would be read as numbers or bytes in any of these
columns.
-/

namespace CoinPurse.Store

/-- The columns of an output that others may overwrite. -/
inductive Row.Column where
  /-- the transaction it belongs to -/
  | txid
  /-- its place in that transaction -/
  | vout
  /-- what it is worth -/
  | satoshis
  /-- the mark of being spent -/
  | spent
  /-- the transaction that spent it -/
  | spendingTxid
  deriving DecidableEq, Repr

/-- The name of a column that has to hold something. -/
def Row.Column.required? : Row.Column → Option String
  | txid => some "change_outputs.txid"
  | vout => some "change_outputs.vout"
  | satoshis => some "change_outputs.satoshis"
  | spent => some "change_outputs.spent"
  | spendingTxid => none

/-- The row with another cell in a column. -/
def Row.set (column : Row.Column) (cell : Cell) (r : Row) : Row :=
  match column with
  | .txid => { r with txid := cell }
  | .vout => { r with vout := cell }
  | .satoshis => { r with satoshis := cell }
  | .spent => { r with spent := cell }
  | .spendingTxid => { r with spendingTxid := cell }

/-- The columns of a run that others may overwrite. -/
inductive RunRow.Column where
  /-- how it stands -/
  | status
  /-- the transaction it was completed with -/
  | spendingTxid
  deriving DecidableEq, Repr

/-- The name of a column that has to hold something. -/
def RunRow.Column.required? : RunRow.Column → Option String
  | status => some "generation_runs.status"
  | spendingTxid => none

/-- The row with another cell in a column. -/
def RunRow.set (column : RunRow.Column) (cell : Cell) (r : RunRow) : RunRow :=
  match column with
  | .status => { r with status := cell }
  | .spendingTxid => { r with spendingTxid := cell }

/-- A column overwritten from outside. -/
inductive Edit where
  /-- a column of an output -/
  | output (id : Int) (column : Row.Column) (cell : Cell)
  /-- a column of a run -/
  | run (id : Int) (column : RunRow.Column) (cell : Cell)
  deriving DecidableEq, Repr

/-- Passes unless a column that has to hold something is given nothing. -/
def ensureFilled (required : Option String) (cell : Cell) : Except Fault Unit :=
  match required with
  | some name => if cell = .null then .error (.emptyColumn name) else .ok ()
  | none => .ok ()

/-- Whether another output than the one with this id has the outpoint. -/
def isTaken (id : Int) (txid vout : Cell) (s : Store) : Bool :=
  s.slots.any fun slot => !slot.hasId id && slot.hasOutpoint txid vout

/-- The store with the row of an output changed. -/
def setRow (id : Int) (change : Row → Row) (s : Store) : Store :=
  { s with
    slots := s.slots.map fun slot =>
      if slot.hasId id then { slot with row := change slot.row } else slot }

/-- Overwrites a column; gives the number of rows it found. -/
def edit (e : Edit) (s : Store) : Except Fault (Nat × Store) :=
  match e with
  | .output id column cell =>
    match s.slots.find? (Slot.hasId id) with
    | none => .ok (0, s)
    | some slot => do
      ensureFilled column.required? cell
      let row := slot.row.set column cell
      if s.isTaken id row.txid row.vout then .error .duplicateOutpoint
      else return (1, s.setRow id (Row.set column cell))
  | .run id column cell =>
    match s.runs.find? (·.id == id) with
    | none => .ok (0, s)
    | some _ => do
      ensureFilled column.required? cell
      return (1, s.setRun id (RunRow.set column cell))

end CoinPurse.Store
