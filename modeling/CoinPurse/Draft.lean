import CoinPurse.Candidate
import CoinPurse.Tally
import CoinPurse.Terms

/-!
# Drafts

A *draft* is the transaction of a run as it stands: the inputs claimed so far and the change
outputs proposed so far, beside the fixed part given by the terms. What it pays as a fee is what
is left over of its inputs, and its *excess* is that fee less the fee it owes. A draft is funded
once its excess is not negative, and finished once it is zero.

Questions about the next step are asked of the draft too: what its excess would be with a few more
inputs and outputs (`Draft.excessWith`), what to ask of an allocator (`Draft.ask`), and what becomes
of it when a candidate is claimed (`Draft.accept`).
-/

namespace CoinPurse

/-- The inputs claimed and the amounts of the change outputs proposed, each most recent first. -/
structure Draft where
  /-- the candidates claimed for this transaction -/
  claimed : Tally Candidate Candidate.satoshis
  /-- the amounts of the change outputs -/
  change : Tally Nat id

namespace Draft

/-- Nothing claimed and nothing proposed. -/
def blank : Draft := ⟨.empty, .empty⟩

section
variable (t : Terms) (d : Draft)

/-- What all inputs are worth together. -/
def funding : Nat := t.inputTotal + d.claimed.total

/-- The fee the draft pays: what its outputs leave of its inputs. -/
def fee : Int := (d.funding t : Int) - t.outputTotal - d.change.total

/-- The size of the transaction with some more claimed inputs and change outputs. -/
def sizeWith (inputs outputs : Nat) : Nat :=
  let ins := d.claimed.size + inputs
  let outs := d.change.size + outputs
  Size.frame
    (t.fixedInputs.length + ins)
    (totalOf (t.fixedInputs.map fun i => Size.input i.unlockingScript)
      + ins * Size.input t.unlockingScript)
    (t.fixedOutputs.length + outs)
    (totalOf (t.fixedOutputs.map fun o => Size.output o.lockingScript)
      + outs * Size.output t.lockingScript)

/-- The size of the transaction. -/
def size : Nat := d.sizeWith t 0 0

/-- The fee owed with some more claimed inputs and change outputs. -/
def dueWith (inputs outputs : Nat) : Nat := t.feeModel.due (d.sizeWith t inputs outputs)

/-- The excess with some more inputs and outputs, before they bring or take any satoshis. -/
def excessWith (inputs outputs : Nat) : Int := d.fee t - d.dueWith t inputs outputs

/-- What the draft pays above the fee it owes; negative while it is short. -/
def excess : Int := d.excessWith t 0 0

/-- Change outputs less claimed inputs. -/
def netCount : Int := (d.change.size : Int) - d.claimed.size

/-- With one more input the draft would fall behind the wanted net count. -/
def wantsBalance : Bool :=
  match t.netCount with
  | none => false
  | some wanted => d.netCount - 1 < wanted

/-- What the next change output starts with. -/
def nextAmount : Nat := if d.change.size = 0 then t.firstSatoshis else t.initialSatoshis

/-- The change outputs to start from: as many as the wanted net count, and one in any case if the
fixed inputs alone pay more than the fee. -/
def seed : Draft :=
  match (t.netCount.getD 0).toNat with
  | 0 =>
    if 0 < blank.excess t then { blank with change := blank.change.push t.firstSatoshis }
    else blank
  | n + 1 =>
    { blank with change := .ofList (List.replicate n t.initialSatoshis ++ [t.firstSatoshis]) }

end

/-- What lifts a negative excess to zero. -/
def deficit (excess : Int) : Nat := if 0 ≤ excess then 0 else Word.clamp (-excess)

section
variable (t : Terms) (d : Draft)

/-- What to ask for. The target covers the shortage after one more input, and where a change
output goes with that input it covers this output too, with two initial amounts to spare. An exact
amount is named only while neither a net count nor an output stands in the way of a transaction
without change. -/
def ask : Ask where
  target :=
    if d.wantsBalance t then
      Word.add (deficit (d.excessWith t 1 1)) (Word.mul t.initialSatoshis 2)
    else deficit (d.excessWith t 1 0)
  exact :=
    if t.netCount.isNone && d.change.size = 0 then some (deficit (d.excessWith t 1 0)) else none

/-- One more input. -/
def claim (c : Candidate) : Draft := { d with claimed := d.claimed.push c }

/-- One more change output, worth at most what there is in excess. -/
def addChange : Draft :=
  { d with change := d.change.push (min (Word.clamp (d.excess t)) (d.nextAmount t)) }

/-- The draft after a candidate is claimed. While it is `growing`, a claim that leaves an excess is
paired with a change output, if the net count asks for it or there is no output yet. -/
def accept (growing : Bool) (c : Candidate) : Draft :=
  let next := d.claim c
  if growing && 0 < next.excess t && (d.wantsBalance t || d.change.size = 0) then next.addChange t
  else next

/-- No claims, and one change output fewer. -/
def retreat : Draft := { claimed := .empty, change := d.change.pop }

/-- A claim adds its worth to the fee that is paid. -/
theorem fee_claim (c : Candidate) : (d.claim c).fee t = d.fee t + c.satoshis := by
  simp only [fee, funding, claim, Tally.push]
  omega

/-- A claim counts as one more input. -/
theorem sizeWith_claim (c : Candidate) (inputs outputs : Nat) :
    (d.claim c).sizeWith t inputs outputs = d.sizeWith t (inputs + 1) outputs := by
  simp only [sizeWith, claim, Tally.push]
  grind

/-- Claims leave the change outputs alone. -/
@[simp] theorem change_claim (c : Candidate) : (d.claim c).change = d.change := rfl

/-- A new change output leaves the claims alone. -/
@[simp] theorem claimed_addChange : (d.addChange t).claimed = d.claimed := rfl

end

end Draft

end CoinPurse
