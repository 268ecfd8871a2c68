import CoinPurse.Json.Record
import CoinPurse.Terms

/-!
# Terms in data notation

Each type has a reader, and a writer that gives its fields in order. Optional fields that are absent
are not written.
-/

namespace CoinPurse

namespace Json

/-- Fields for an optional value: one, or none. -/
def optionalField {α : Type} (name : String) (write : α → Json) : Option α → List (String × Json)
  | none => []
  | some x => [(name, write x)]

/-- A natural number. -/
def ofNat (n : Nat) : Json := int n

/-- A list of floats. -/
def ofFloats (xs : List Float) : Json := arr (xs.map fun x => decimal (Literal.ofFloat x))

end Json

namespace FeeModel

/-- Accepts the one unit rates are given in, as a text or as a choice with nothing to it. -/
def readUnit : Json.Reader Unit
  | .str "sat/kb" => some ()
  | .obj [("sat/kb", .null)] => some ()
  | _ => none

/-- Reads a fee model. -/
def ofJson? (j : Json) : Option FeeModel := do
  let f ← Json.record ["model", "value"] j
  f.need "model" readUnit
  return ⟨← f.need "value" Json.word64⟩

/-- A fee model with its unit. -/
def toJson (m : FeeModel) : Json := .obj [("model", .str "sat/kb"), ("value", .ofNat m.rate)]

end FeeModel

namespace FixedInput

/-- Reads a fixed input. -/
def ofJson? (j : Json) : Option FixedInput := do
  let f ← Json.record ["satoshis", "unlockingScriptLength"] j
  return ⟨← f.need "satoshis" Json.word64, ← f.need "unlockingScriptLength" Json.word64⟩

/-- A fixed input with its fields. -/
def toJson (i : FixedInput) : Json :=
  .obj [("satoshis", .ofNat i.satoshis), ("unlockingScriptLength", .ofNat i.unlockingScript)]

end FixedInput

namespace FixedOutput

/-- Reads a fixed output. -/
def ofJson? (j : Json) : Option FixedOutput := do
  let f ← Json.record ["satoshis", "lockingScriptLength"] j
  return ⟨← f.need "satoshis" Json.word64, ← f.need "lockingScriptLength" Json.word64⟩

/-- A fixed output with its fields. -/
def toJson (o : FixedOutput) : Json :=
  .obj [("satoshis", .ofNat o.satoshis), ("lockingScriptLength", .ofNat o.lockingScript)]

end FixedOutput

namespace Terms

/-- The fields of terms, in order. -/
def fieldNames : List String :=
  ["feeModel", "fixedInputs", "fixedOutputs", "changeInitialSatoshis", "changeFirstSatoshis",
    "changeLockingScriptLength", "changeUnlockingScriptLength", "targetNetCount", "randomValues",
    "noLogging"]

/-- Reads terms. -/
def ofJson? (j : Json) : Option Terms := do
  let f ← Json.record fieldNames j
  return {
    feeModel := ← f.need "feeModel" FeeModel.ofJson?
    fixedInputs := ← f.orElse "fixedInputs" (Json.list FixedInput.ofJson?) []
    fixedOutputs := ← f.orElse "fixedOutputs" (Json.list FixedOutput.ofJson?) []
    initialSatoshis := ← f.need "changeInitialSatoshis" Json.word64
    firstSatoshis := ← f.need "changeFirstSatoshis" Json.word64
    lockingScript := ← f.need "changeLockingScriptLength" Json.word64
    unlockingScript := ← f.need "changeUnlockingScriptLength" Json.word64
    netCount := ← f.orElse "targetNetCount" (Json.option Json.signed64) none
    randomValues := ← f.orElse "randomValues" (Json.option (Json.list Json.float)) none
    quiet := ← f.orElse "noLogging" Json.flag false }

/-- Terms with their fields. -/
def toJson (t : Terms) : Json :=
  .obj ([("feeModel", t.feeModel.toJson),
      ("fixedInputs", .arr (t.fixedInputs.map FixedInput.toJson)),
      ("fixedOutputs", .arr (t.fixedOutputs.map FixedOutput.toJson)),
      ("changeInitialSatoshis", .ofNat t.initialSatoshis),
      ("changeFirstSatoshis", .ofNat t.firstSatoshis),
      ("changeLockingScriptLength", .ofNat t.lockingScript),
      ("changeUnlockingScriptLength", .ofNat t.unlockingScript)]
    ++ Json.optionalField "targetNetCount" .int t.netCount
    ++ Json.optionalField "randomValues" .ofFloats t.randomValues
    ++ [("noLogging", .bool t.quiet)])

end Terms

end CoinPurse
