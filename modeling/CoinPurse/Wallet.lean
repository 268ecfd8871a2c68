import CoinPurse.Config
import CoinPurse.Generation.Journal
import CoinPurse.Store.History

/-!
# Wallets

A wallet funds transactions from a store. Funding opens a run in the store, generates change
through an allocator bound to that run, and hands back the run with its plan. The run is later
completed, once its transaction is known, or aborted. If funding fails the wallet aborts the run
itself, so no claim outlives a failure, and reports the failure that came first.

Several users may share a store. One that dies in the middle of an operation leaves the store
*broken*: nobody may use it any more.
-/

namespace CoinPurse

/-- A store that is shared. -/
structure Vault where
  /-- the store -/
  store : Store
  /-- a user died while using the store -/
  broken : Bool
  deriving DecidableEq, Repr

/-- Why a shared store gave no answer. -/
inductive AccessFault where
  /-- the operation failed -/
  | store (fault : Store.Fault)
  /-- the store is broken -/
  | broken
  deriving DecidableEq, Repr

/-- The sentence that reports the fault. -/
def AccessFault.message : AccessFault → String
  | store fault => s!"store error: {fault.message}"
  | broken => "internal mutex poisoned by a prior panic"

namespace Vault

/-- Uses the store for an operation that may change it. -/
def update {α : Type} (v : Vault) (act : Store → Except Store.Fault (α × Store)) :
    Except AccessFault α × Vault :=
  if v.broken then (.error .broken, v)
  else match act v.store with
  | .ok (answer, store) => (.ok answer, { v with store })
  | .error fault => (.error (.store fault), v)

/-- Uses the store for a question. -/
def ask {α : Type} (v : Vault) (act : Store → Except Store.Fault α) : Except AccessFault α :=
  if v.broken then .error .broken
  else match act v.store with
  | .ok answer => .ok answer
  | .error fault => .error (.store fault)

/-- Claims and releases on behalf of a run. -/
def allocator (run : Int) : Allocator Vault AccessFault where
  claim request v := v.update (Store.allocate run request)
  release id v := v.update (Store.release run id)

end Vault

/-- Why a wallet did not do what it was asked to. -/
inductive WalletFault where
  /-- the store failed -/
  | access (fault : AccessFault)
  /-- change generation failed -/
  | generation (failure : Failure AccessFault)

namespace WalletFault

/-- Whether more funds or a smaller transaction would help. -/
def isInsufficientFunds : WalletFault → Bool
  | access _ => false
  | generation failure => failure.isInsufficientFunds

/-- The sentence that reports the fault. -/
def message : WalletFault → String
  | access fault => fault.message
  | generation failure => s!"change generation failed: {failure.message AccessFault.message}"

end WalletFault

/-- A funded run that waits to be completed or aborted. -/
structure Funded where
  /-- the run -/
  run : Int
  /-- its plan -/
  plan : Plan
  deriving DecidableEq, Repr

/-- What can be spent. -/
structure Balance where
  /-- what the spendable outputs are worth together -/
  satoshis : Nat
  /-- how many there are -/
  count : Nat
  deriving DecidableEq, Repr

/-- A configured wallet on a shared store. -/
structure Wallet where
  /-- how it is set up -/
  config : Config
  /-- where its outputs are -/
  vault : Vault
  deriving DecidableEq, Repr

/-- An answer, the state after it, and the lines it left in the journal. -/
structure Reply (α σ : Type) where
  /-- the answer, or why there is none -/
  result : α
  /-- the state afterwards -/
  state : σ
  /-- the lines about it -/
  lines : List Line

namespace Wallet

/-- A wallet on this store. -/
def ofStore (config : Config) (store : Store) : Wallet := ⟨config, ⟨store, false⟩⟩

/-- What can be spent; of two faults, that of the amounts. -/
def balance (w : Wallet) : Except AccessFault Balance :=
  w.vault.ask fun s => do return ⟨← s.balance, s.count⟩

/-- Performs an operation on the store. -/
def perform (w : Wallet) (op : Store.Op) : Reply (Except AccessFault Store.Receipt) Wallet :=
  let (result, vault) := w.vault.update (Store.perform op)
  let lines := match result with
    | .ok receipt => op.lines receipt
    | .error _ => []
  ⟨result, { w with vault }, lines⟩

/-- The net count a request is funded with: its own, or else what the basket lacks. -/
def netCount (w : Wallet) (r : Request) : Except AccessFault (Option Int) :=
  match r.netCount with
  | some n => .ok (some n)
  | none =>
    if w.config.basket.desiredCount = 0 then .ok none
    else (w.vault.ask fun s => .ok s.count).map w.config.basketNetCount

/-- Generates change for an open run. -/
def fundRun (w : Wallet) (entropy : Nat → Float) (run : Int) (r : Request) :
    Reply (Except WalletFault Plan) Vault :=
  match w.netCount r with
  | .error fault => ⟨.error (.access fault), w.vault, []⟩
  | .ok netCount =>
    let t := w.config.terms r netCount
    let report := generate (Vault.allocator run) entropy defaultRounds t w.vault
    ⟨report.outcome.mapError .generation, report.source,
      report.lines t fun c => [Store.claimLine run c]⟩

/-- The line about a run that was funded. -/
def fundedLine (run : Int) (p : Plan) : Line :=
  ⟨.info, s!"run {run}: funded with {p.inputs.length} change inputs, "
    ++ s!"{p.outputs.length} change outputs, fee {p.fee}"⟩

/-- Aborts a run that could not be funded; the lines say how that went. -/
def cleanUp (run : Int) (fault : WalletFault) (v : Vault) : Vault × List Line :=
  match v.update (Store.abort run) with
  | (.ok released, v) =>
    (v, [Store.abortLine run released,
      ⟨.debug, s!"run {run}: funding failed ({fault.message}), "
        ++ s!"released {released} change outputs"⟩])
  | (.error again, v) =>
    (v, [⟨.warn, s!"run {run}: abort after failed funding failed: {again.message}"⟩])

/-- Funds a request. -/
def fund (w : Wallet) (entropy : Nat → Float) (r : Request) :
    Reply (Except WalletFault Funded) Wallet :=
  match w.vault.update fun s => .ok s.begin with
  | (.error fault, vault) => ⟨.error (.access fault), { w with vault }, []⟩
  | (.ok run, vault) =>
    let attempt := { w with vault }.fundRun entropy run r
    match attempt.result with
    | .ok plan =>
      ⟨.ok ⟨run, plan⟩, { w with vault := attempt.state },
        attempt.lines ++ (if w.config.quiet then [] else [fundedLine run plan])⟩
    | .error fault =>
      let (vault, lines) := cleanUp run fault attempt.state
      ⟨.error fault, { w with vault }, attempt.lines ++ lines⟩

end Wallet

end CoinPurse
