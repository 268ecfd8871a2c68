import CoinPurse.Distribution
import CoinPurse.Funding
import CoinPurse.Plan

/-!
# Change generation

A run turns terms into a plan. It checks the terms, seeds a draft with change outputs, funds the
draft through an allocator, and spreads what is left over the change outputs, so that the fee of
the plan is exactly the one owed.

A run fails for want of funds if the draft stays short with every change output given up, or if it
ends with an excess that no output can take. It has then released all it claimed. After any other
failure it may still hold claims.
-/

namespace CoinPurse

/-- Why a run produced no plan. -/
inductive Failure (ε : Type) where
  /-- the pool cannot pay for the transaction -/
  | insufficientFunds (required shortfall : Nat)
  /-- more rounds would have been needed than the run is allowed -/
  | roundLimit (cap : Nat)
  /-- the fee of the finished draft is not a word -/
  | negativeFee (fee : Int)
  /-- the plan does not add up -/
  | unsound (problems : List Problem)
  /-- the terms are refused -/
  | invalidTerms (fault : TermsFault)
  /-- the allocator failed -/
  | allocation (cause : ε)

namespace Failure

variable {ε : Type}

/-- Whether the caller can mend the failure with more funds or a smaller transaction. -/
def isInsufficientFunds : Failure ε → Bool
  | insufficientFunds .. => true
  | _ => false

/-- The sentence that reports the failure, given the text of an allocator's failure. -/
def message (text : ε → String) : Failure ε → String
  | insufficientFunds required shortfall =>
    s!"insufficient funds: {required} satoshis required, short by {shortfall}"
  | roundLimit cap =>
    s!"internal consistency failure: funding did not converge within {cap} allocation rounds"
  | negativeFee fee => s!"internal consistency failure: negative final fee {fee}"
  | unsound problems => s!"internal consistency failure: {Plan.report problems}"
  | invalidTerms fault => fault.message
  | allocation cause => s!"change allocation failed: {text cause}"

end Failure

/-- A run that has ended. -/
structure Report (σ ε : Type) where
  /-- the plan, or why there is none -/
  outcome : Except (Failure ε) Plan
  /-- the random values used, in order -/
  drawn : List Float
  /-- the state of the allocator -/
  source : σ
  /-- what has happened, in order -/
  trace : List (Event ε)

/-- The rounds a run is allowed unless it is told otherwise. -/
def defaultRounds : Nat := 100000

namespace Draft

/-- The plan of a draft whose change outputs have these amounts, in order. -/
def plan (t : Terms) (d : Draft) (amounts : List Nat) (fee : Nat) : Plan where
  inputs := d.claimed.toList
  outputs := amounts.map fun satoshis => ⟨satoshis, t.lockingScript⟩
  size := d.size t
  fee
  rate := t.feeModel.rate

/-- What the fixed outputs and the fee take together, as a word. -/
def required (t : Terms) (d : Draft) : Nat := Word.clamp ((t.outputTotal : Int) + d.dueWith t 0 0)

/-- Spreads the excess of a funded draft over its change outputs. The excess is handed out as the
number it is. Reading what is left as a word in every turn (`Handout.Deal`) makes no difference as
long as the excess is one. That of a run is, if the exact fee is one, whatever its claims are worth
together (`generate_leavesWords`). -/
def finish (t : Terms) (d : Draft) (draws : Draws) : List Nat × Draws :=
  Distribution.spread t.initialSatoshis (d.excess t).toNat d.change.toList draws

/-- The plan of a draft with these final amounts, unless it does not add up. -/
def settle {ε : Type} (t : Terms) (d : Draft) (amounts : List Nat) : Except (Failure ε) Plan :=
  let fee : Int := (d.funding t : Int) - t.outputTotal - totalOf amounts
  if fee < 0 || (Word.max64 : Int) < fee then .error (.negativeFee fee)
  else
    let plan := d.plan t amounts fee.toNat
    match plan.problems t with
    | [] => .ok plan
    | problems => .error (.unsound problems)

end Draft

section
variable {σ ε : Type}

namespace Progress

/-- A run at its start. -/
def start (t : Terms) (source : σ) : Progress σ ε := ⟨Draft.seed t, source, []⟩

/-- Ends the run without a plan. -/
def fail (s : Progress σ ε) (failure : Failure ε) : Report σ ε :=
  ⟨.error failure, [], s.source, s.trace.reverse⟩

/-- Ends the run for want of funds, after releasing every claim. -/
def failShort (a : Allocator σ ε) (t : Terms) (s : Progress σ ε) (shortfall : Nat) : Report σ ε :=
  let required := s.draft.required t
  match s.releaseAll a with
  | (some e, s) => s.fail (.allocation e)
  | (none, s) => s.fail (.insufficientFunds required shortfall)

/-- The run, if its draft is funded: it is not short, and if it has an excess there is a change
output to take it. Otherwise the run has ended for want of funds. -/
def ready (a : Allocator σ ε) (t : Terms) (s : Progress σ ε) :
    Except (Report σ ε) (Progress σ ε) :=
  let excess := s.draft.excess t
  if excess < 0 then .error (s.failShort a t (Draft.deficit excess))
  else if s.draft.change.size = 0 && 0 < excess then .error (s.failShort a t t.firstSatoshis)
  else .ok s

/-- Hands out the excess of a funded draft, and ends the run with its plan. -/
def handOut (t : Terms) (draws : Draws) (s : Progress σ ε) : Report σ ε :=
  let (amounts, draws) := s.draft.finish t draws
  ⟨s.draft.settle t amounts, draws.drawn, s.source, s.trace.reverse⟩

end Progress

/-- Runs change generation up to the point where the excess of a funded draft is handed out. A run
that does not get there has ended, with a report. No random value is drawn on the way. -/
def ready (a : Allocator σ ε) (rounds : Nat) (t : Terms) (source : σ) :
    Except (Report σ ε) (Progress σ ε) :=
  match t.check with
  | .error fault => .error ⟨.error (.invalidTerms fault), [], source, []⟩
  | .ok () =>
    let pass := fund a t rounds (.start t source)
    match pass.halt with
    | .exhausted => .error (pass.progress.fail (.roundLimit rounds))
    | .refused cause => .error (pass.progress.fail (.allocation cause))
    | .covered | .dry => pass.progress.ready a t

/-- Runs change generation on these terms, with at most so many rounds, through an allocator in the
given state. Random values not given by the terms come from `entropy`. -/
def generate (a : Allocator σ ε) (entropy : Nat → Float) (rounds : Nat) (t : Terms) (source : σ) :
    Report σ ε :=
  match ready a rounds t source with
  | .error report => report
  | .ok s => s.handOut t (.ofValues entropy t.randomValues)

end

end CoinPurse
