import CoinPurse.Decimal.FloatText
import CoinPurse.FeeModel
import CoinPurse.Total
import CoinPurse.Word

/-!
# The terms of a run

The terms say what the caller has already settled about a transaction (its fixed inputs and
outputs), at which rate it pays, and what its change should look like. A run starts only on terms
that pass `Terms.check`; the first thing wrong with them is reported. -/

namespace CoinPurse

/-- An input the caller has already chosen. -/
structure FixedInput where
  /-- what the input is worth -/
  satoshis : Nat
  /-- the length of its unlocking script -/
  unlockingScript : Nat
  deriving DecidableEq, Repr

/-- An output the caller has already chosen. -/
structure FixedOutput where
  /-- what the output pays -/
  satoshis : Nat
  /-- the length of its locking script -/
  lockingScript : Nat
  deriving DecidableEq, Repr

/-- Everything one run of change generation has to know. -/
structure Terms where
  /-- the rate the transaction pays -/
  feeModel : FeeModel
  /-- inputs that are spent in any case -/
  fixedInputs : List FixedInput
  /-- outputs that are paid in any case -/
  fixedOutputs : List FixedOutput
  /-- what every change output but the first starts with -/
  initialSatoshis : Nat
  /-- what the first change output starts with -/
  firstSatoshis : Nat
  /-- the locking script length of change outputs -/
  lockingScript : Nat
  /-- the unlocking script length of inputs claimed from a pool -/
  unlockingScript : Nat
  /-- how many more change outputs than claimed inputs there should be -/
  netCount : Option Int
  /-- values to draw instead of entropy -/
  randomValues : Option (List Float)
  /-- whether the run keeps quiet -/
  quiet : Bool

/-- What can be wrong with terms. -/
inductive TermsFault where
  /-- change outputs would start with nothing -/
  | zeroInitial
  /-- the first change output would start with nothing -/
  | zeroFirst
  /-- more change outputs are wanted than one run makes -/
  | netCountTooLarge (count : Int)
  /-- a random value lies outside `[0, 1)` -/
  | valueOutside (value : Float)
  /-- the fixed inputs are worth more than fits a signed word -/
  | inputTotal
  /-- the fixed outputs pay more than fits a signed word -/
  | outputTotal

namespace TermsFault

/-- The field that is at fault. -/
def field : TermsFault → String
  | zeroInitial => "changeInitialSatoshis"
  | zeroFirst => "changeFirstSatoshis"
  | netCountTooLarge _ => "targetNetCount"
  | valueOutside _ => "randomValues"
  | inputTotal => "fixedInputs"
  | outputTotal => "fixedOutputs"

/-- What is wrong with it. -/
def reason : TermsFault → String
  | zeroInitial | zeroFirst => "must be greater than zero"
  | netCountTooLarge count => s!"{count} exceeds 10000"
  | valueOutside value => s!"{FloatText.inFull value} is outside [0, 1)"
  | inputTotal | outputTotal => "satoshi total overflows"

/-- The sentence that reports the fault. -/
def message (f : TermsFault) : String := s!"invalid parameter `{f.field}`: {f.reason}"

end TermsFault

namespace Terms

/-- The largest net count a run accepts; every unit of it is one change output. -/
def maxNetCount : Int := 10000

/-- What the fixed inputs are worth together. -/
def inputTotal (t : Terms) : Nat := totalOf (t.fixedInputs.map (·.satoshis))

/-- What the fixed outputs pay together. -/
def outputTotal (t : Terms) : Nat := totalOf (t.fixedOutputs.map (·.satoshis))

/-- A random value a run can use. -/
def usable (value : Float) : Bool := value.isFinite && !(value < 0.0) && !(value ≥ 1.0)

/-- The first random value that a run cannot use. -/
def unusable? (t : Terms) : Option Float := (t.randomValues.getD []).find? fun v => !usable v

/-- Accepts the terms, or names the first fault: amounts for change, net count, random values, then
the totals of inputs and outputs. -/
def check (t : Terms) : Except TermsFault Unit :=
  if t.initialSatoshis = 0 then .error .zeroInitial
  else if t.firstSatoshis = 0 then .error .zeroFirst
  else match t.netCount.filter (maxNetCount < ·) with
  | some count => .error (.netCountTooLarge count)
  | none => match t.unusable? with
    | some value => .error (.valueOutside value)
    | none =>
      if Word.maxSigned64 < t.inputTotal then .error .inputTotal
      else if Word.maxSigned64 < t.outputTotal then .error .outputTotal
      else .ok ()

end Terms

end CoinPurse
