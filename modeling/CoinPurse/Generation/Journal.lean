import CoinPurse.Generation
import CoinPurse.Journal

/-!
# The journal of a run

A run that is not quiet tells on which terms it starts, when a pass starves, and, if it claimed any
input, what it arrived at and which random values it used. An allocator may tell about each claim as
well; its lines stand where the claim was made, and a quiet run does not silence them.
-/

namespace CoinPurse

/-- An optional count, in words. -/
def optionText : Option Int → String
  | none => "None"
  | some n => s!"Some({n})"

namespace Terms

/-- The line a run starts with. -/
def openingLine (t : Terms) : Line :=
  ⟨.debug, s!"generate_change: {t.fixedInputs.length} fixed inputs ({t.inputTotal} sat), "
    ++ s!"{t.fixedOutputs.length} fixed outputs ({t.outputTotal} sat), {t.feeModel.rate} sat/kb, "
    ++ s!"target net count {optionText t.netCount}"⟩

end Terms

namespace Plan

/-- The line a run with claimed inputs ends with. -/
def summaryLine (p : Plan) : Line :=
  ⟨.info, s!"generate_change: {p.inputs.length} change inputs ({p.inputTotal} sat), "
    ++ s!"{p.outputs.length} change outputs ({p.changeTotal} sat), "
    ++ s!"size {p.size} fee {p.fee} at {p.rate} sat/kb"⟩

/-- The lines a run with this plan ends with, given the random values it used. -/
def closingLines (p : Plan) (drawn : List Float) : List Line :=
  if p.inputs.isEmpty then []
  else p.summaryLine ::
    (if drawn.isEmpty then []
      else [⟨.debug, s!"generate_change: random values used {FloatText.list drawn}"⟩])

end Plan

namespace Event

variable {ε : Type}

/-- The lines about one event. -/
def lines (quiet : Bool) (claimLines : Candidate → List Line) : Event ε → List Line
  | asked _ (.ok (some c)) => claimLines c
  | starved left =>
    if quiet then []
    else [⟨.debug, s!"generate_change: starved, retrying with {left} change outputs"⟩]
  | _ => []

end Event

namespace Report

variable {σ ε : Type}

/-- The lines about a run on these terms, given the lines of its allocator about a claim. -/
def lines (t : Terms) (claimLines : Candidate → List Line) (r : Report σ ε) : List Line :=
  let middle := r.trace.flatMap (Event.lines t.quiet claimLines)
  match r.outcome with
  | .error (.invalidTerms _) => []
  | .error _ => if t.quiet then middle else t.openingLine :: middle
  | .ok p => if t.quiet then middle else t.openingLine :: middle ++ p.closingLines r.drawn

end Report

end CoinPurse
