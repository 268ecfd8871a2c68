import CoinPurse.Plan
import CoinPurse.Wire.Terms

/-!
# Plans in data notation
-/

namespace CoinPurse

namespace Candidate

/-- Reads a claimed input. -/
def ofJson? (j : Json) : Option Candidate := do
  let f ← Json.record ["outputId", "satoshis"] j
  return ⟨← f.need "outputId" Json.signed64, ← f.need "satoshis" Json.word64⟩

/-- A claimed input with its fields. -/
def toJson (c : Candidate) : Json := .obj [("outputId", .int c.id), ("satoshis", .ofNat c.satoshis)]

end Candidate

namespace ChangeOutput

/-- Reads a change output. -/
def ofJson? (j : Json) : Option ChangeOutput := do
  let f ← Json.record ["satoshis", "lockingScriptLength"] j
  return ⟨← f.need "satoshis" Json.word64, ← f.need "lockingScriptLength" Json.word64⟩

/-- A change output with its fields. -/
def toJson (o : ChangeOutput) : Json :=
  .obj [("satoshis", .ofNat o.satoshis), ("lockingScriptLength", .ofNat o.lockingScript)]

end ChangeOutput

namespace Plan

/-- Reads a plan. -/
def ofJson? (j : Json) : Option Plan := do
  let f ← Json.record ["allocatedChangeInputs", "changeOutputs", "size", "fee", "satsPerKb"] j
  return {
    inputs := ← f.need "allocatedChangeInputs" (Json.list Candidate.ofJson?)
    outputs := ← f.need "changeOutputs" (Json.list ChangeOutput.ofJson?)
    size := ← f.need "size" Json.word64
    fee := ← f.need "fee" Json.word64
    rate := ← f.need "satsPerKb" Json.word64 }

/-- A plan with its fields. -/
def toJson (p : Plan) : Json :=
  .obj [("allocatedChangeInputs", .arr (p.inputs.map Candidate.toJson)),
    ("changeOutputs", .arr (p.outputs.map ChangeOutput.toJson)),
    ("size", .ofNat p.size), ("fee", .ofNat p.fee), ("satsPerKb", .ofNat p.rate)]

end Plan

end CoinPurse
