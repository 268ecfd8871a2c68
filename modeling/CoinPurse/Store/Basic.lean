import CoinPurse.Store.Record

/-!
# Stores

A store keeps change outputs and runs. An open run *claims* spendable outputs: those that are
neither spent nor claimed. It ends in one of two ways. When it is completed its outputs become
spent, by the transaction it was for, and the change of that transaction joins the store. When it
is aborted its outputs become spendable again. An ended run stays as it is.

Outputs and runs are numbered from one, in the order in which they are stored. A claim is kept
beside the output it is on, so no output has two.

An operation gives its answer and the store after it, or else a fault; a failed operation leaves the
store as it was. What a database may refuse for its own sake is not among the faults: a store holds
as much as is put into it, and takes statements of any size.
-/

namespace CoinPurse

namespace Store

/-- An output in a store, and the run that claims it. -/
structure Slot where
  /-- the output -/
  row : Row
  /-- the run that claims it -/
  claim : Option Int
  deriving DecidableEq, Repr

namespace Slot

/-- Neither spent nor claimed. -/
def isSpendable (s : Slot) : Bool := s.row.spent == .int 0 && s.claim.isNone

/-- Whether the slot holds the output with this id. -/
def hasId (id : Int) (s : Slot) : Bool := s.row.id == id

/-- Whether the output is claimed by this run. -/
def isClaimedBy (run : Int) (s : Slot) : Bool := s.claim == some run

/-- Whether the output is stored as that of this place in this transaction. -/
def hasOutpoint (txid vout : Cell) (s : Slot) : Bool := s.row.txid == txid && s.row.vout == vout

/-- The slot with its output spent and no claim on it. -/
def spend (txid : Txid) (s : Slot) : Slot :=
  { row := { s.row with spent := .int 1, spendingTxid := .bytes txid.bytes }, claim := none }

end Slot

end Store

/-- Change outputs with the claims on them, and runs. -/
structure Store where
  /-- the outputs, in the order of their ids -/
  slots : List Store.Slot
  /-- the runs, in the order of their ids -/
  runs : List Store.RunRow
  deriving DecidableEq, Repr

namespace Store

/-- A store without outputs and runs. -/
def empty : Store := ⟨[], []⟩

/-! ## Questions -/

/-- The spendable outputs as they are stored. -/
def spendable (s : Store) : List Row := (s.slots.filter Slot.isSpendable).map (·.row)

/-- The outputs claimed by a run, as they are stored. -/
def claimed (run : Int) (s : Store) : List Row :=
  (s.slots.filter (Slot.isClaimedBy run)).map (·.row)

/-- The output with this id. -/
def get (id : Int) (s : Store) : Except Fault (Option Output) :=
  match s.slots.find? (Slot.hasId id) with
  | none => .ok none
  | some slot => slot.row.read.map some

/-- The spendable outputs. -/
def list (s : Store) : Except Fault (List Output) := s.spendable.mapM Row.read

/-- A total with the amount in a cell added. -/
def addAmount (total : Nat) (c : Cell) : Except Fault Nat := do
  let satoshis ← readAmount c
  if Word.max64 < total + satoshis then bad .balanceOverflow else return total + satoshis

/-- What the spendable outputs are worth together. Amounts are looked at in ascending order, so of
several negative ones the least is reported, and that rather than an overflow. -/
def balance (s : Store) : Except Fault Nat :=
  (Cell.ascending (s.spendable.map (·.satoshis))).foldlM addAmount 0

/-- How many spendable outputs there are. -/
def count (s : Store) : Nat := s.spendable.length

/-- The run with this id. -/
def getRun (run : Int) (s : Store) : Except Fault (Option Run) :=
  match s.runs.find? (·.id == run) with
  | none => .ok none
  | some row => row.read.map some

/-- The outputs a run claims, as candidates. -/
def allocations (run : Int) (s : Store) : Except Fault (List Candidate) :=
  (s.claimed run).mapM Row.readCandidate

/-- Passes if the run is open. -/
def ensureOpen (run : Int) (s : Store) : Except Fault Unit :=
  match s.runs.find? (·.id == run) with
  | none => .error (.runNotFound run)
  | some row => do
    match ← row.readStatus with
    | .opened => return ()
    | _ => .error (.runNotOpen run)

/-! ## Selection

Amounts are compared as cells, and a cell for numbers holds signed words. So a target beyond the
largest signed word counts as that word, and an exact amount beyond it matches nothing. -/

/-- The lower id. -/
def earlier (a b : Row) : Bool := a.id < b.id

/-- The smaller amount, then the lower id. -/
def smaller (a b : Row) : Bool :=
  a.satoshis.before b.satoshis || (a.satoshis == b.satoshis && a.id < b.id)

/-- The larger amount, then the lower id. -/
def larger (a b : Row) : Bool :=
  b.satoshis.before a.satoshis || (a.satoshis == b.satoshis && a.id < b.id)

/-- The row that answers a request best: one worth the exact amount, else the smallest that covers
the target, else the largest that does not. -/
def pick (rows : List Row) (ask : Ask) : Option Row :=
  let target : Cell := .int (min ask.target Word.maxSigned64)
  let exact := ask.exact.filter (· ≤ Word.maxSigned64)
  (best? earlier (rows.filter fun r => exact.any fun e => r.satoshis == .int e))
    <|> (best? smaller (rows.filter fun r => !r.satoshis.before target))
    <|> (best? larger (rows.filter fun r => r.satoshis.before target))

/-! ## Changes -/

/-- The id the next output gets. -/
def nextOutputId (s : Store) : Int := s.slots.length + 1

/-- The id the next run gets. -/
def nextRunId (s : Store) : Int := s.runs.length + 1

/-- The store with a claim set or lifted. -/
def setClaim (id : Int) (claim : Option Int) (s : Store) : Store :=
  { s with slots := s.slots.map fun slot => if slot.hasId id then { slot with claim } else slot }

/-- The store without the claims of a run. -/
def dropClaims (run : Int) (s : Store) : Store :=
  { s with
    slots := s.slots.map fun slot =>
      if slot.isClaimedBy run then { slot with claim := none } else slot }

/-- The store with the outputs of a run spent. -/
def spendClaims (run : Int) (txid : Txid) (s : Store) : Store :=
  { s with
    slots := s.slots.map fun slot => if slot.isClaimedBy run then slot.spend txid else slot }

/-- The store with a run at another status. -/
def setRun (run : Int) (change : RunRow → RunRow) (s : Store) : Store :=
  { s with runs := s.runs.map fun row => if row.id == run then change row else row }

/-- Stores an output, unless its outpoint is stored already; gives its id. -/
def add (o : NewOutput) (s : Store) : Except Fault (Int × Store) := do
  let row ← o.row s.nextOutputId
  match s.slots.find? (Slot.hasOutpoint row.txid row.vout) with
  | some slot => return (slot.row.id, s)
  | none => return (row.id, { s with slots := s.slots ++ [⟨row, none⟩] })

/-- Opens a run; gives its id. -/
def begin (s : Store) : Int × Store :=
  (s.nextRunId, { s with runs := s.runs ++ [⟨s.nextRunId, .int RunStatus.opened.code, .null⟩] })

/-- Claims for a run the spendable output that answers the request best. -/
def allocate (run : Int) (ask : Ask) (s : Store) : Except Fault (Option Candidate × Store) := do
  s.ensureOpen run
  match pick s.spendable ask with
  | none => return (none, s)
  | some row =>
    let c ← row.readCandidate
    return (some c, s.setClaim c.id (some run))

/-- Gives back an output that a run claims. -/
def release (run id : Int) (s : Store) : Except Fault (Unit × Store) := do
  s.ensureOpen run
  if s.slots.any fun slot => slot.hasId id && slot.isClaimedBy run then
    return ((), s.setClaim id none)
  else .error (.notAllocated id run)

/-- What came of completing a run. -/
structure Settlement where
  /-- the ids of the change outputs that were stored -/
  created : List Int
  /-- how many outputs were spent -/
  spent : Nat
  deriving DecidableEq, Repr

/-- Stores a new output under the next id. -/
def insert (o : NewOutput) (s : Store) : Except Fault (Int × Store) := do
  let row ← o.row s.nextOutputId
  if s.slots.any (Slot.hasOutpoint row.txid row.vout) then .error .duplicateOutpoint
  else return (row.id, { s with slots := s.slots ++ [⟨row, none⟩] })

/-- Stores new outputs in order. -/
def insertAll : List NewOutput → Store → Except Fault (List Int × Store)
  | [], s => .ok ([], s)
  | o :: rest, s => do
    let (id, s) ← s.insert o
    let (ids, s) ← insertAll rest s
    return (id :: ids, s)

/-- Completes a run with the transaction it was for, and stores the change of that transaction. The
outputs of the run are spent by one statement, which names each of them. It is taken to go through
however many they are, although a database may have a limit to what one statement names. -/
def complete (run : Int) (txid : Txid) (change : List NewOutput) (s : Store) :
    Except Fault (Settlement × Store) := do
  change.forM NewOutput.check
  s.ensureOpen run
  let spent := (s.claimed run).length
  let (created, s) ← insertAll change (s.spendClaims run txid)
  return (⟨created, spent⟩,
    s.setRun run fun r => { r with
      status := .int RunStatus.completed.code, spendingTxid := .bytes txid.bytes })

/-- Aborts a run; gives the number of outputs that became spendable again. -/
def abort (run : Int) (s : Store) : Except Fault (Nat × Store) := do
  s.ensureOpen run
  return ((s.claimed run).length,
    (s.dropClaims run).setRun run fun r => { r with status := .int RunStatus.aborted.code })

end Store

end CoinPurse
