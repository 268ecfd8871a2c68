import CoinPurse.Candidate
import CoinPurse.Terms

/-!
# Plans

A *plan* is what a successful run hands back: the inputs it claimed, the change outputs to create,
and the size, fee and rate of the transaction. Every plan has to balance: what its inputs bring
beyond its outputs is the fee, and the fee is the one owed for the size. `Plan.problems` lists
where a plan fails to. -/

namespace CoinPurse

/-- A change output to be created. -/
structure ChangeOutput where
  /-- what the output is worth -/
  satoshis : Nat
  /-- the length of its locking script -/
  lockingScript : Nat
  deriving DecidableEq, Repr

/-- A funded transaction whose fee is balanced. -/
structure Plan where
  /-- the inputs claimed from the pool, in the order of their claims -/
  inputs : List Candidate
  /-- the change outputs -/
  outputs : List ChangeOutput
  /-- the serialized size of the transaction -/
  size : Nat
  /-- the fee it pays -/
  fee : Nat
  /-- the rate it pays at -/
  rate : Nat
  deriving DecidableEq, Repr

/-- A way in which a plan does not add up. -/
inductive Problem where
  /-- the fee is not what the inputs bring beyond the outputs -/
  | unbalanced (fee : Nat) (funding spending change : Nat)
  /-- the fee is not the one owed for the size -/
  | wrongFee (fee required size rate : Nat)
  /-- the outputs take more than the inputs bring -/
  | negativeFee (actual : Int)
  deriving DecidableEq, Repr

namespace Problem

/-- The clause that reports the problem. -/
def message : Problem → String
  | unbalanced fee funding spending change =>
    let actual : Int := funding - spending - change
    s!"fee {fee} does not match funding {funding} - spending {spending} - change {change} "
      ++ s!"= {actual}"
  | wrongFee fee required size rate =>
    s!"fee {fee} is not the {required} required for {size} bytes at {rate} sat/kb"
  | negativeFee actual => s!"negative fee {actual}"

end Problem

namespace Plan

/-- What the claimed inputs are worth together. -/
def inputTotal (p : Plan) : Nat := totalOf (p.inputs.map (·.satoshis))

/-- What the change outputs are worth together. -/
def changeTotal (p : Plan) : Nat := totalOf (p.outputs.map (·.satoshis))

/-- What inputs bring beyond outputs. -/
def actualFee (t : Terms) (p : Plan) : Int :=
  ((t.inputTotal + p.inputTotal : Nat) : Int) - t.outputTotal - p.changeTotal

/-- The fee owed for the plan's size at the plan's rate. -/
def requiredFee (p : Plan) : Nat := (FeeModel.mk p.rate).due p.size

/-- Everything about a plan that does not add up under these terms. -/
def problems (t : Terms) (p : Plan) : List Problem :=
  (if p.actualFee t = p.fee then []
    else [.unbalanced p.fee (t.inputTotal + p.inputTotal) t.outputTotal p.changeTotal])
  ++ (if p.fee = p.requiredFee then [] else [.wrongFee p.fee p.requiredFee p.size p.rate])
  ++ (if p.actualFee t < 0 then [.negativeFee (p.actualFee t)] else [])

/-- The problems in one sentence. -/
def report (problems : List Problem) : String := "; ".intercalate (problems.map Problem.message)

end Plan

end CoinPurse
