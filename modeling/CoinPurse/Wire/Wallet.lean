import CoinPurse.Wallet
import CoinPurse.Wire.Config
import CoinPurse.Wire.Plan

/-!
# Answers of a wallet in data notation
-/

namespace CoinPurse

/-- A funded run with its fields. -/
def Funded.toJson (f : Funded) : Json := .obj [("runId", .int f.run), ("result", f.plan.toJson)]

/-- A balance with its fields. -/
def Balance.toJson (b : Balance) : Json :=
  .obj [("satoshis", .ofNat b.satoshis), ("count", .ofNat b.count)]

end CoinPurse
