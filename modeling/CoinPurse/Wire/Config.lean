import CoinPurse.Config
import CoinPurse.Wire.Terms

/-!
# Configurations and requests in data notation

Every field of a configuration or request may be missing. A configuration can be written only if its
path is text.
-/

namespace CoinPurse

namespace Basket

/-- Reads a change basket. -/
def ofJson? (j : Json) : Option Basket := do
  let f ← Json.record ["desiredUtxoCount", "minimumDesiredUtxoValue", "lockingScriptLength",
    "unlockingScriptLength"] j
  return {
    desiredCount := ← f.orElse "desiredUtxoCount" Json.word32 standard.desiredCount
    minimumSatoshis := ← f.orElse "minimumDesiredUtxoValue" Json.word64 standard.minimumSatoshis
    lockingScript := ← f.orElse "lockingScriptLength" Json.word64 standard.lockingScript
    unlockingScript := ← f.orElse "unlockingScriptLength" Json.word64 standard.unlockingScript }

/-- A change basket with its fields. -/
def toJson (b : Basket) : Json :=
  .obj [("desiredUtxoCount", .ofNat b.desiredCount),
    ("minimumDesiredUtxoValue", .ofNat b.minimumSatoshis),
    ("lockingScriptLength", .ofNat b.lockingScript),
    ("unlockingScriptLength", .ofNat b.unlockingScript)]

end Basket

namespace Path

/-- Reads a path. -/
def ofJson? (j : Json) : Option Path := (Json.text j).map ofText

end Path

namespace Config

/-- Reads a configuration. -/
def ofJson? (j : Json) : Option Config := do
  let f ← Json.record ["databasePath", "feeModel", "changeBasket", "noLogging"] j
  return {
    databasePath := ← f.orElse "databasePath" Path.ofJson? standard.databasePath
    feeModel := ← f.orElse "feeModel" FeeModel.ofJson? standard.feeModel
    basket := ← f.orElse "changeBasket" Basket.ofJson? standard.basket
    quiet := ← f.orElse "noLogging" Json.flag standard.quiet }

/-- A configuration with its fields. -/
def toJson? (c : Config) : Option Json :=
  c.databasePath.text?.map fun path =>
    .obj [("databasePath", .str path), ("feeModel", c.feeModel.toJson),
      ("changeBasket", c.basket.toJson), ("noLogging", .bool c.quiet)]

end Config

namespace Request

/-- Reads a request. -/
def ofJson? (j : Json) : Option Request := do
  let f ← Json.record ["fixedInputs", "fixedOutputs", "targetNetCount", "feeModel",
    "randomValues"] j
  return {
    fixedInputs := ← f.orElse "fixedInputs" (Json.list FixedInput.ofJson?) []
    fixedOutputs := ← f.orElse "fixedOutputs" (Json.list FixedOutput.ofJson?) []
    netCount := ← f.orElse "targetNetCount" (Json.option Json.signed64) none
    feeModel := ← f.orElse "feeModel" (Json.option FeeModel.ofJson?) none
    randomValues := ← f.orElse "randomValues" (Json.option (Json.list Json.float)) none }

/-- A request with its fields. -/
def toJson (r : Request) : Json :=
  .obj ([("fixedInputs", .arr (r.fixedInputs.map FixedInput.toJson)),
      ("fixedOutputs", .arr (r.fixedOutputs.map FixedOutput.toJson))]
    ++ Json.optionalField "targetNetCount" .int r.netCount
    ++ Json.optionalField "feeModel" FeeModel.toJson r.feeModel
    ++ Json.optionalField "randomValues" .ofFloats r.randomValues)

end Request

end CoinPurse
