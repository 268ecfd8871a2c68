import CoinPurse.Bytes.Path
import CoinPurse.Terms

/-!
# Configuration

A configuration says where the pool is stored, at which rate transactions pay unless a request
says otherwise, and what the *change basket* should look like: how many spendable outputs there
should be, and how large. Together with a request it gives the terms of a run. -/

namespace CoinPurse

/-- The change outputs a wallet tries to keep in stock. -/
structure Basket where
  /-- how many spendable outputs there should be; with 0 no count is aimed for -/
  desiredCount : Nat
  /-- what an output should be worth at least -/
  minimumSatoshis : Nat
  /-- the locking script length of change outputs -/
  lockingScript : Nat
  /-- the unlocking script length of change outputs when they are spent -/
  unlockingScript : Nat
  deriving DecidableEq, Repr

namespace Basket

/-- Thirty-two outputs of a thousand satoshis. -/
def standard : Basket := ⟨32, 1000, 25, 107⟩

/-- What a change output starts with: the minimum, but at least one satoshi. -/
def initialSatoshis (b : Basket) : Nat := max b.minimumSatoshis 1

/-- What the first change output starts with: a quarter of the minimum, a half rounded up, but at
least one satoshi. -/
def firstSatoshis (b : Basket) : Nat := max (Word.add b.minimumSatoshis 2 / 4) 1

end Basket

/-- How a wallet is set up. -/
structure Config where
  /-- where the pool is stored -/
  databasePath : Path
  /-- the rate transactions pay unless a request names one -/
  feeModel : FeeModel
  /-- the change outputs to keep in stock -/
  basket : Basket
  /-- whether runs keep quiet -/
  quiet : Bool
  deriving DecidableEq, Repr

/-- A transaction to be funded. -/
structure Request where
  /-- the inputs already chosen -/
  fixedInputs : List FixedInput
  /-- the outputs already chosen -/
  fixedOutputs : List FixedOutput
  /-- the net count to aim for, in place of the basket's -/
  netCount : Option Int
  /-- the rate to pay, in place of the configured one -/
  feeModel : Option FeeModel
  /-- random values to use -/
  randomValues : Option (List Float)

namespace Request

/-- A request for nothing in particular. -/
def blank : Request := ⟨[], [], none, none, none⟩

end Request

namespace Config

/-- The file a configuration is kept in. -/
def defaultFile : String := "wallet_config.json"

/-- The configuration of a wallet that was given none. -/
def standard : Config := ⟨Path.ofText "wallet.db", ⟨100⟩, .standard, false⟩

/-- The terms on which a request is funded, with this net count. -/
def terms (c : Config) (r : Request) (netCount : Option Int) : Terms where
  feeModel := r.feeModel.getD c.feeModel
  fixedInputs := r.fixedInputs
  fixedOutputs := r.fixedOutputs
  initialSatoshis := c.basket.initialSatoshis
  firstSatoshis := c.basket.firstSatoshis
  lockingScript := c.basket.lockingScript
  unlockingScript := c.basket.unlockingScript
  netCount
  randomValues := r.randomValues
  quiet := c.quiet

/-- The net count that would fill the basket from so many spendable outputs; negative if there are
too many, none if the basket names no count. -/
def basketNetCount (c : Config) (spendable : Nat) : Option Int :=
  if c.basket.desiredCount = 0 then none
  else some ((c.basket.desiredCount : Int) - min spendable Word.maxSigned64)

/-- Where the pool is stored, as text; `none` if the path is not text. -/
def databaseText? (c : Config) : Option String := c.databasePath.text?

end Config

end CoinPurse
