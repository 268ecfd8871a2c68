import CoinPurse.Journal
import CoinPurse.Store.Basic

/-!
# Histories of a store

The operations that may change a store, as data. A history is a list of them, and `Store.after` is
the store it leads to: an operation that fails is passed over. Each successful operation leaves a
receipt, from which its line in the journal is written. -/

namespace CoinPurse.Store

/-- An operation that may change a store. -/
inductive Op where
  /-- store an output -/
  | add (output : NewOutput)
  /-- open a run -/
  | begin
  /-- claim an output for a run -/
  | allocate (run : Int) (ask : Ask)
  /-- give back an output -/
  | release (run id : Int)
  /-- complete a run -/
  | complete (run : Int) (txid : Txid) (change : List NewOutput)
  /-- abort a run -/
  | abort (run : Int)
  deriving DecidableEq, Repr

/-- What a successful operation gives back. -/
inductive Receipt where
  /-- an output was stored, or already is, under this id -/
  | added (id : Int)
  /-- a run was opened -/
  | begun (run : Int)
  /-- an output was claimed, or there was none -/
  | allocated (candidate : Option Candidate)
  /-- an output was given back -/
  | released
  /-- a run was completed -/
  | completed (settlement : Settlement)
  /-- a run was aborted, and so many outputs given back -/
  | aborted (released : Nat)
  deriving DecidableEq, Repr

/-- Performs an operation. -/
def perform (op : Op) (s : Store) : Except Fault (Receipt × Store) :=
  match op with
  | .add o => (s.add o).map fun (id, s) => (.added id, s)
  | .begin => .ok (.begun s.begin.1, s.begin.2)
  | .allocate run ask => (s.allocate run ask).map fun (c, s) => (.allocated c, s)
  | .release run id => (s.release run id).map fun (_, s) => (.released, s)
  | .complete run txid change =>
    (s.complete run txid change).map fun (settlement, s) => (.completed settlement, s)
  | .abort run => (s.abort run).map fun (released, s) => (.aborted released, s)

/-- The store after an operation; if the operation fails, the same store. -/
def step (s : Store) (op : Op) : Store :=
  match s.perform op with
  | .ok (_, next) => next
  | .error _ => s

/-- The store a history leads to. -/
def after (history : List Op) : Store := history.foldl step empty

/-- The line about a claim. -/
def claimLine (run : Int) (c : Candidate) : Line :=
  ⟨.debug, s!"run {run}: claimed change output {c.id} ({c.satoshis} sat)"⟩

/-- The line about a run that was aborted. -/
def abortLine (run : Int) (released : Nat) : Line :=
  ⟨.debug, s!"run {run}: aborted, {released} change outputs released"⟩

/-- The line about a run that was completed. -/
def completeLine (run : Int) (txid : Txid) (settlement : Settlement) : Line :=
  ⟨.info, s!"run {run}: completed by {Hex.encode txid.bytes}, {settlement.spent} change outputs "
    ++ s!"spent, {settlement.created.length} created"⟩

/-- The lines about an operation that left this receipt. -/
def Op.lines : Op → Receipt → List Line
  | allocate run _, .allocated (some c) => [claimLine run c]
  | complete run txid _, .completed settlement => [completeLine run txid settlement]
  | abort run, .aborted released => [abortLine run released]
  | _, _ => []

end CoinPurse.Store
