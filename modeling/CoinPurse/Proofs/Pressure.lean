import CoinPurse.Proofs.Request
import CoinPurse.Proofs.Serialization
import CoinPurse.Proofs.Terms

/-!
# Fee pressure

Every input and every change output makes a transaction larger, and a larger transaction owes no
less. So each of them weighs on a draft (`Draft.feePressure`). A change output lowers the excess by
what it takes at least, since its bytes have to be paid for, and an input raises it by what it
brings at most.

What a draft asks for is worked out beforehand, with further inputs and outputs only counted in.
Whether it is funded is decided later, when they have been appended. The two agree
(`Draft.excessWith_extend`): in whatever order parts are appended, the excess is the one worked out
beforehand, with what the inputs bring and without what the outputs take.

Sizes are added up without any limit here. Script by script and in words they come to the same, as
long as they are words (`Draft.toNat_sizeWith64`). The fee owed grows with them only as long as the
exact fee is a word, too: beyond that it is cut down, and may fall.
-/

namespace CoinPurse.Draft

/-- What can be appended to a draft. -/
inductive Part where
  /-- one more input -/
  | input (c : Candidate)
  /-- one more change output, of so many satoshis -/
  | output (satoshis : Nat)

namespace Part

/-- The candidate of an input. -/
def candidate? : Part → Option Candidate
  | input c => some c
  | output _ => none

/-- The amount of a change output. -/
def amount? : Part → Option Nat
  | input _ => none
  | output satoshis => some satoshis

/-- The candidates of the inputs among some parts. -/
def candidates (parts : List Part) : List Candidate := parts.filterMap candidate?

/-- The amounts of the change outputs among some parts. -/
def amounts (parts : List Part) : List Nat := parts.filterMap amount?

/-- What the inputs among some parts bring. -/
def brought (parts : List Part) : Nat := totalOf ((candidates parts).map (·.satoshis))

/-- What the change outputs among some parts take. -/
def taken (parts : List Part) : Nat := totalOf (amounts parts)

section
variable (c : Candidate) (satoshis : Nat) (rest : List Part)

@[simp] theorem candidates_nil : candidates [] = [] := rfl
@[simp] theorem candidates_input : candidates (.input c :: rest) = c :: candidates rest := rfl
@[simp] theorem candidates_output : candidates (.output satoshis :: rest) = candidates rest := rfl
@[simp] theorem amounts_nil : amounts [] = [] := rfl
@[simp] theorem amounts_input : amounts (.input c :: rest) = amounts rest := rfl
@[simp] theorem amounts_output :
    amounts (.output satoshis :: rest) = satoshis :: amounts rest := rfl

@[simp] theorem brought_nil : brought [] = 0 := rfl
@[simp] theorem brought_input : brought (.input c :: rest) = c.satoshis + brought rest := rfl
@[simp] theorem brought_output : brought (.output satoshis :: rest) = brought rest := rfl
@[simp] theorem taken_nil : taken [] = 0 := rfl
@[simp] theorem taken_input : taken (.input c :: rest) = taken rest := rfl
@[simp] theorem taken_output : taken (.output satoshis :: rest) = satoshis + taken rest := rfl

end

end Part

/-- A draft with one part more. -/
def append (d : Draft) : Part → Draft
  | .input c => d.claim c
  | .output satoshis => { d with change := d.change.push satoshis }

/-- A draft with some parts more, appended one after the other. -/
def extend (d : Draft) (parts : List Part) : Draft := parts.foldl append d

@[simp] theorem extend_nil (d : Draft) : d.extend [] = d := rfl
@[simp] theorem extend_cons (d : Draft) (part : Part) (rest : List Part) :
    d.extend (part :: rest) = (d.append part).extend rest := rfl

/-- The size with some more inputs and outputs, added up in words over the scripts of all of
them. -/
def sizeWith64 (t : Terms) (d : Draft) (inputs outputs : Nat) : UInt64 :=
  Size.transaction64
    ((t.fixedInputs.map (·.unlockingScript)
      ++ List.replicate (d.claimed.size + inputs) t.unlockingScript).map UInt64.ofNat)
    ((t.fixedOutputs.map (·.lockingScript)
      ++ List.replicate (d.change.size + outputs) t.lockingScript).map UInt64.ofNat)

section
variable {t : Terms} {d : Draft}

/-- **In words** a size is the same, as long as it is a word. -/
theorem toNat_sizeWith64 {inputs outputs : Nat} (h : d.sizeWith t inputs outputs ≤ Word.max64) :
    (d.sizeWith64 t inputs outputs).toNat = d.sizeWith t inputs outputs := by
  rw [sizeWith_eq] at h ⊢
  exact Size.transaction64_eq h

/-- A change output counts as one more output. -/
theorem sizeWith_output (satoshis inputs outputs : Nat) :
    (d.append (.output satoshis)).sizeWith t inputs outputs
      = d.sizeWith t inputs (outputs + 1) := by
  have hcount : (d.append (.output satoshis)).change.size + outputs
      = d.change.size + (outputs + 1) := Nat.succ_add_eq_add_succ d.change.size outputs
  have hclaimed : (d.append (.output satoshis)).claimed = d.claimed := rfl
  rw [sizeWith_eq, sizeWith_eq, hcount, hclaimed]

/-- What a change output takes is missing from the fee that is paid. -/
theorem fee_output (satoshis : Nat) :
    (d.append (.output satoshis)).fee t = d.fee t - satoshis := by
  have htotal : (d.append (.output satoshis)).change.total = satoshis + d.change.total := rfl
  have hfunding : (d.append (.output satoshis)).funding t = d.funding t := rfl
  rw [fee, fee, htotal, hfunding]
  omega

/-- Parts that are appended count as many more inputs and outputs. -/
theorem sizeWith_extend (parts : List Part) (inputs outputs : Nat) :
    (d.extend parts).sizeWith t inputs outputs
      = d.sizeWith t ((Part.candidates parts).length + inputs)
        ((Part.amounts parts).length + outputs) := by
  induction parts generalizing d with
  | nil => simp
  | cons part rest ih =>
    rw [extend_cons, ih]
    cases part with
    | input c =>
      rw [append, sizeWith_claim, Part.candidates_input, Part.amounts_input, List.length_cons,
        Nat.add_right_comm]
    | output satoshis =>
      rw [sizeWith_output, Part.candidates_output, Part.amounts_output, List.length_cons,
        Nat.add_right_comm _ 1]

/-- Parts that are appended change the fee that is paid by what they bring and take. -/
theorem fee_extend (parts : List Part) :
    (d.extend parts).fee t = d.fee t + Part.brought parts - Part.taken parts := by
  induction parts generalizing d with
  | nil => simp
  | cons part rest ih =>
    rw [extend_cons, ih]
    cases part with
    | input c =>
      rw [append, fee_claim, Part.brought_input, Part.taken_input]
      omega
    | output satoshis =>
      rw [fee_output, Part.brought_output, Part.taken_output]
      omega

/-- **Counted in or appended.** Parts that are appended leave the excess that was worked out with
them counted in, with what they bring and without what they take. -/
theorem excessWith_extend (parts : List Part) (inputs outputs : Nat) :
    (d.extend parts).excessWith t inputs outputs
      = d.excessWith t ((Part.candidates parts).length + inputs)
        ((Part.amounts parts).length + outputs) + Part.brought parts - Part.taken parts := by
  rw [excessWith, excessWith, dueWith, dueWith, sizeWith_extend, fee_extend]
  omega

/-- Appending parts never makes a draft smaller. -/
theorem sizeWith_le_sizeWith_extend (parts : List Part) (inputs outputs : Nat) :
    d.sizeWith t inputs outputs ≤ (d.extend parts).sizeWith t inputs outputs := by
  rw [sizeWith_extend]
  exact sizeWith_le_sizeWith (Nat.le_add_left _ _) (Nat.le_add_left _ _)

/-- Appending parts never makes a draft cheaper, as long as the exact fee is a word. -/
theorem dueWith_le_dueWith_extend (parts : List Part) (inputs outputs : Nat)
    (hfee : t.feeModel.exact ((d.extend parts).sizeWith t inputs outputs) ≤ Word.max64) :
    d.dueWith t inputs outputs ≤ (d.extend parts).dueWith t inputs outputs := by
  rw [dueWith, dueWith, sizeWith_extend] at *
  exact dueWith_le_dueWith (feeFits_iff.2 hfee) (Nat.le_add_left _ _) (Nat.le_add_left _ _)

/-- **Nothing comes for free.** Parts raise the excess by at most what they bring beyond what they
take. -/
theorem excess_extend_le (parts : List Part)
    (hfee : t.feeModel.exact ((d.extend parts).size t) ≤ Word.max64) :
    (d.extend parts).excess t ≤ d.excess t + Part.brought parts - Part.taken parts := by
  have hdue := dueWith_le_dueWith_extend parts 0 0 hfee
  rw [excess, excess, excessWith, excessWith, fee_extend]
  omega

/-- What a draft accepts is one input, and at times a change output after it. -/
theorem exists_accept_eq_extend (t : Terms) (d : Draft) (growing : Bool) (c : Candidate) :
    ∃ parts, d.accept t growing c = d.extend (.input c :: parts) ∧ Part.candidates parts = [] := by
  rcases accept_cases t d growing c with ⟨heq, -⟩ | ⟨-, -, -, heq⟩
  · exact ⟨[], heq, rfl⟩
  · exact ⟨[.output _], heq, rfl⟩

end

/-- How inputs and change outputs weigh on a draft, by their bytes and by what they bring or
take. -/
structure FeePressure (t : Terms) (d : Draft) : Prop where
  /-- added up in words, the size with some more of them is the same, as long as it is a word -/
  size_words : ∀ inputs outputs, d.sizeWith t inputs outputs ≤ Word.max64 →
    (d.sizeWith64 t inputs outputs).toNat = d.sizeWith t inputs outputs
  /-- the fee owed for it is the exact one, as long as that is a word -/
  due_eq : ∀ inputs outputs, t.feeModel.exact (d.sizeWith t inputs outputs) ≤ Word.max64 →
    d.dueWith t inputs outputs = t.feeModel.exact (d.sizeWith t inputs outputs)
  /-- counting in more of them never lowers the size -/
  size_le : ∀ inputs inputs' outputs outputs', inputs ≤ inputs' → outputs ≤ outputs' →
    d.sizeWith t inputs outputs ≤ d.sizeWith t inputs' outputs'
  /-- nor the fee owed -/
  due_le : ∀ inputs inputs' outputs outputs', inputs ≤ inputs' → outputs ≤ outputs' →
    t.feeModel.exact (d.sizeWith t inputs' outputs') ≤ Word.max64 →
    d.dueWith t inputs outputs ≤ d.dueWith t inputs' outputs'
  /-- nor does appending them lower the size -/
  size_le_extend : ∀ parts inputs outputs,
    d.sizeWith t inputs outputs ≤ (d.extend parts).sizeWith t inputs outputs
  /-- or the fee owed -/
  due_le_extend : ∀ parts inputs outputs,
    t.feeModel.exact ((d.extend parts).sizeWith t inputs outputs) ≤ Word.max64 →
    d.dueWith t inputs outputs ≤ (d.extend parts).dueWith t inputs outputs
  /-- so a change output lowers the excess by what it takes at least -/
  output_le : ∀ satoshis,
    t.feeModel.exact ((d.append (.output satoshis)).size t) ≤ Word.max64 →
    (d.append (.output satoshis)).excess t ≤ d.excess t - satoshis
  /-- an input raises it by what it brings at most -/
  input_le : ∀ c, t.feeModel.exact ((d.append (.input c)).size t) ≤ Word.max64 →
    (d.append (.input c)).excess t ≤ d.excess t + c.satoshis
  /-- and any of them, appended in any order, leave the excess that was worked out with as many
  inputs and outputs counted in, with what they bring and without what they take -/
  extend_eq : ∀ parts, (d.extend parts).excess t
    = d.excessWith t (Part.candidates parts).length (Part.amounts parts).length
      + Part.brought parts - Part.taken parts

/-- **Fee pressure is monotone**, for every draft under any terms. -/
theorem feePressure (t : Terms) (d : Draft) : d.FeePressure t where
  size_words _ _ hword := toNat_sizeWith64 hword
  due_eq _ _ hfee := FeeModel.due_eq_exact (Nat.lt_succ_of_le hfee)
  size_le _ _ _ _ hi ho := sizeWith_le_sizeWith hi ho
  due_le _ _ _ _ hi ho hfee := dueWith_le_dueWith (feeFits_iff.2 hfee) hi ho
  size_le_extend := sizeWith_le_sizeWith_extend
  due_le_extend := dueWith_le_dueWith_extend
  output_le satoshis hfee := by
    have hlowered := excess_extend_le (d := d) [.output satoshis] hfee
    simpa using hlowered
  input_le c hfee := by
    have hraised := excess_extend_le (d := d) [.input c] hfee
    simpa using hraised
  extend_eq parts := excessWith_extend parts 0 0

/-- A draft with a single claim. -/
def oneInput : Draft := blank.claim ⟨1, 6000⟩

/-- A payment with one input, for which 252 more are counted in. The last of them makes the number
of inputs longer, too. To the same payment two inputs are appended, with a change output between
them. -/
theorem feePressure_oneInput :
    (oneInput.sizeWith (.payment 100 1000) 252 0 ≤ Word.max64 ∧
      oneInput.sizeWith (.payment 100 1000) 252 0
        = oneInput.sizeWith (.payment 100 1000) 251 0 + 148 + 2 ∧
      (oneInput.sizeWith64 (.payment 100 1000) 252 0).toNat
        = oneInput.sizeWith (.payment 100 1000) 252 0) ∧
    ((FeeModel.mk 100).exact (oneInput.sizeWith (.payment 100 1000) 252 0) ≤ Word.max64 ∧
      oneInput.dueWith (.payment 100 1000) 252 0
        = (FeeModel.mk 100).exact (oneInput.sizeWith (.payment 100 1000) 252 0) ∧
      oneInput.dueWith (.payment 100 1000) 251 0 ≤ oneInput.dueWith (.payment 100 1000) 252 0) ∧
    ((FeeModel.mk 100).exact ((oneInput.append (.output 700)).size (.payment 100 1000))
        ≤ Word.max64 ∧
      (oneInput.append (.output 700)).excess (.payment 100 1000)
        ≤ oneInput.excess (.payment 100 1000) - 700) ∧
    ((FeeModel.mk 100).exact ((oneInput.append (.input ⟨2, 500⟩)).size (.payment 100 1000))
        ≤ Word.max64 ∧
      (oneInput.append (.input ⟨2, 500⟩)).excess (.payment 100 1000)
        ≤ oneInput.excess (.payment 100 1000) + 500) ∧
    (oneInput.extend [.input ⟨2, 500⟩, .output 700, .input ⟨3, 900⟩]).excess (.payment 100 1000)
      = oneInput.excessWith (.payment 100 1000) 2 1 + 1400 - 700 := by
  have hpressure := feePressure (.payment 100 1000) oneInput
  have hword : oneInput.sizeWith (.payment 100 1000) 252 0 ≤ Word.max64 := by decide
  have hfee : (FeeModel.mk 100).exact (oneInput.sizeWith (.payment 100 1000) 252 0)
      ≤ Word.max64 := by decide
  have houtput : (FeeModel.mk 100).exact
      ((oneInput.append (.output 700)).size (.payment 100 1000)) ≤ Word.max64 := by decide
  have hinput : (FeeModel.mk 100).exact
      ((oneInput.append (.input ⟨2, 500⟩)).size (.payment 100 1000)) ≤ Word.max64 := by decide
  refine ⟨⟨hword, by decide, hpressure.size_words 252 0 hword⟩,
    ⟨hfee, hpressure.due_eq 252 0 hfee, ?_⟩, ⟨houtput, hpressure.output_le 700 houtput⟩,
    ⟨hinput, hpressure.input_le ⟨2, 500⟩ hinput⟩,
    hpressure.extend_eq [.input ⟨2, 500⟩, .output 700, .input ⟨3, 900⟩]⟩
  exact hpressure.due_le 251 252 0 0 (by decide) (Nat.le_refl 0) hfee

/-- Where the exact fee is not a word, one more input may lower the fee owed. -/
example : blank.dueWith (.payment 9223372036854775808 1000) 14 0
    < blank.dueWith (.payment 9223372036854775808 1000) 13 0 := by decide

end CoinPurse.Draft
