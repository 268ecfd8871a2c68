import CoinPurse.Draft

/-!
# What a transaction costs, by number of inputs and outputs

All claimed inputs have scripts of one length, and so have all change outputs. So the size of a
transaction under given terms, the fee it owes and what its inputs have to bring depend on two
numbers only: how many inputs are claimed and how many change outputs there are (`Terms.sizeFor`,
`Terms.dueFor`, `Terms.costFor`). A draft that counts further inputs and outputs in asks about
these numbers (`Draft.sizeWith_eq`).

More inputs or outputs never make a transaction smaller, and never cheaper as long as its fee is a
word (`Terms.FeeFits.dueFor_le_dueFor`). A fee beyond a word is cut down to its low bits, so nothing
is said about one.
-/

namespace CoinPurse

namespace FeeModel

/-- A larger transaction never owes less, before the fee is made a word. -/
theorem exact_le_exact (m : FeeModel) {a b : Nat} (h : a ≤ b) : m.exact a ≤ m.exact b :=
  Nat.div_le_div_right (Nat.add_le_add_right (Nat.mul_le_mul_right m.rate h) 999)

/-- The fee owed is a word. -/
theorem due_le (m : FeeModel) (size : Nat) : m.due size ≤ Word.max64 :=
  Nat.le_of_lt_succ (Nat.mod_lt _ (by decide))

end FeeModel

namespace Terms

variable (t : Terms)

/-- The size of the transaction with so many claimed inputs and change outputs. -/
def sizeFor (inputs outputs : Nat) : Nat :=
  Size.transaction
    (t.fixedInputs.map (·.unlockingScript) ++ List.replicate inputs t.unlockingScript)
    (t.fixedOutputs.map (·.lockingScript) ++ List.replicate outputs t.lockingScript)

/-- The fee owed with so many claimed inputs and change outputs. -/
def dueFor (inputs outputs : Nat) : Nat := t.feeModel.due (t.sizeFor inputs outputs)

/-- What the inputs have to bring, before anything is left for change. -/
def costFor (inputs outputs : Nat) : Nat := t.outputTotal + t.dueFor inputs outputs

/-- What the fixed outputs pay and the exact fee together fit a word. -/
def Fits (inputs outputs : Nat) : Prop :=
  t.outputTotal + t.feeModel.exact (t.sizeFor inputs outputs) ≤ Word.max64

instance (inputs outputs : Nat) : Decidable (t.Fits inputs outputs) :=
  inferInstanceAs (Decidable (_ ≤ _))

/-- The exact fee is a word, whatever the fixed outputs pay. -/
def FeeFits (inputs outputs : Nat) : Prop :=
  t.feeModel.exact (t.sizeFor inputs outputs) ≤ Word.max64

instance (inputs outputs : Nat) : Decidable (t.FeeFits inputs outputs) :=
  inferInstanceAs (Decidable (_ ≤ _))

variable {t} {inputs outputs inputs' outputs' : Nat}

/-- More inputs or outputs never make a transaction smaller. -/
theorem sizeFor_le_sizeFor (hi : inputs ≤ inputs') (ho : outputs ≤ outputs') :
    t.sizeFor inputs outputs ≤ t.sizeFor inputs' outputs' := by
  have hin : Size.compact (t.fixedInputs.length + inputs)
      ≤ Size.compact (t.fixedInputs.length + inputs') :=
    Size.compact_le_compact (Nat.add_le_add_left hi _)
  have hout : Size.compact (t.fixedOutputs.length + outputs)
      ≤ Size.compact (t.fixedOutputs.length + outputs') :=
    Size.compact_le_compact (Nat.add_le_add_left ho _)
  have hins := Nat.mul_le_mul_right (Size.input t.unlockingScript) hi
  have houts := Nat.mul_le_mul_right (Size.output t.lockingScript) ho
  simp only [sizeFor, Size.transaction, Size.frame, List.length_append, List.length_map,
    List.length_replicate, List.map_append, List.map_replicate, totalOf_append, totalOf_replicate]
  omega

/-- The fee owed is the exact one as long as that is a word. -/
theorem FeeFits.dueFor_eq (h : t.FeeFits inputs outputs) :
    t.dueFor inputs outputs = t.feeModel.exact (t.sizeFor inputs outputs) :=
  FeeModel.due_eq_exact (Nat.lt_succ_of_le h)

/-- An exact fee that is a word with more inputs and outputs is one with fewer. -/
theorem FeeFits.anti (h : t.FeeFits inputs' outputs') (hi : inputs ≤ inputs')
    (ho : outputs ≤ outputs') : t.FeeFits inputs outputs :=
  Nat.le_trans (t.feeModel.exact_le_exact (sizeFor_le_sizeFor hi ho)) h

/-- More inputs or outputs never owe less, as long as the exact fee is a word. -/
theorem FeeFits.dueFor_le_dueFor (h : t.FeeFits inputs' outputs') (hi : inputs ≤ inputs')
    (ho : outputs ≤ outputs') : t.dueFor inputs outputs ≤ t.dueFor inputs' outputs' := by
  rw [(h.anti hi ho).dueFor_eq, h.dueFor_eq]
  exact t.feeModel.exact_le_exact (sizeFor_le_sizeFor hi ho)

/-- Where the cost fits a word, so does the exact fee. -/
theorem Fits.fee (h : t.Fits inputs outputs) : t.FeeFits inputs outputs :=
  Nat.le_trans (Nat.le_add_left _ _) h

/-- What fits a word with more inputs and outputs fits with fewer. -/
theorem Fits.anti (h : t.Fits inputs' outputs') (hi : inputs ≤ inputs')
    (ho : outputs ≤ outputs') : t.Fits inputs outputs :=
  Nat.le_trans
    (Nat.add_le_add_left (t.feeModel.exact_le_exact (sizeFor_le_sizeFor hi ho)) _) h

/-- The fee owed is the exact one as long as it fits. -/
theorem Fits.dueFor_eq (h : t.Fits inputs outputs) :
    t.dueFor inputs outputs = t.feeModel.exact (t.sizeFor inputs outputs) :=
  h.fee.dueFor_eq

/-- As long as it fits, the cost is a word. -/
theorem Fits.costFor_le (h : t.Fits inputs outputs) : t.costFor inputs outputs ≤ Word.max64 := by
  rw [costFor, h.dueFor_eq]
  exact h

/-- More inputs or outputs never make a transaction cheaper, as long as its cost fits. -/
theorem Fits.dueFor_le_dueFor (h : t.Fits inputs' outputs') (hi : inputs ≤ inputs')
    (ho : outputs ≤ outputs') : t.dueFor inputs outputs ≤ t.dueFor inputs' outputs' :=
  h.fee.dueFor_le_dueFor hi ho

end Terms

namespace Draft

variable (t : Terms) (d : Draft)

/-- The size of a draft is that of a transaction with as many inputs and outputs. -/
theorem sizeWith_eq (inputs outputs : Nat) :
    d.sizeWith t inputs outputs
      = t.sizeFor (d.claimed.size + inputs) (d.change.size + outputs) := by
  simp only [sizeWith, Terms.sizeFor, Size.transaction, List.length_append, List.length_map,
    List.length_replicate, List.map_append, List.map_map, List.map_replicate, totalOf_append,
    totalOf_replicate]
  rfl

/-- The fee owed by a draft is that of a transaction with as many inputs and outputs. -/
theorem dueWith_eq (inputs outputs : Nat) :
    d.dueWith t inputs outputs
      = t.dueFor (d.claimed.size + inputs) (d.change.size + outputs) := by
  rw [dueWith, sizeWith_eq, Terms.dueFor]

/-- The excess of a draft: what its inputs bring, less what its change outputs take and less the
cost of the transaction. -/
theorem excessWith_eq (inputs outputs : Nat) :
    d.excessWith t inputs outputs = (t.inputTotal : Int) + d.claimed.total - d.change.total
      - t.costFor (d.claimed.size + inputs) (d.change.size + outputs) := by
  rw [excessWith, dueWith_eq, fee, funding, Terms.costFor]
  omega

/-- The excess of a draft as it stands. -/
theorem excess_eq : d.excess t = (t.inputTotal : Int) + d.claimed.total - d.change.total
    - t.costFor d.claimed.size d.change.size := d.excessWith_eq t 0 0

section
variable {t d} {inputs outputs inputs' outputs' : Nat}

/-- The exact fee of a draft is a word if that of a transaction with as many inputs and outputs
is. -/
theorem feeFits_iff : t.FeeFits (d.claimed.size + inputs) (d.change.size + outputs) ↔
    t.feeModel.exact (d.sizeWith t inputs outputs) ≤ Word.max64 := by
  rw [sizeWith_eq]
  exact Iff.rfl

/-- Counting in more inputs or outputs never makes a draft smaller. -/
theorem sizeWith_le_sizeWith (hi : inputs ≤ inputs') (ho : outputs ≤ outputs') :
    d.sizeWith t inputs outputs ≤ d.sizeWith t inputs' outputs' := by
  rw [sizeWith_eq, sizeWith_eq]
  exact Terms.sizeFor_le_sizeFor (Nat.add_le_add_left hi _) (Nat.add_le_add_left ho _)

/-- Counting in more inputs or outputs never makes a draft cheaper, as long as the exact fee is a
word. -/
theorem dueWith_le_dueWith
    (hfits : t.FeeFits (d.claimed.size + inputs') (d.change.size + outputs'))
    (hi : inputs ≤ inputs') (ho : outputs ≤ outputs') :
    d.dueWith t inputs outputs ≤ d.dueWith t inputs' outputs' := by
  rw [dueWith_eq, dueWith_eq]
  exact hfits.dueFor_le_dueFor (Nat.add_le_add_left hi _) (Nat.add_le_add_left ho _)

/-- Counting in more inputs or outputs never raises the excess, as long as the exact fee is a
word. -/
theorem excessWith_le_excessWith
    (hfits : t.FeeFits (d.claimed.size + inputs') (d.change.size + outputs'))
    (hi : inputs ≤ inputs') (ho : outputs ≤ outputs') :
    d.excessWith t inputs' outputs' ≤ d.excessWith t inputs outputs := by
  have hdue := dueWith_le_dueWith hfits hi ho
  rw [excessWith, excessWith]
  omega

end

end Draft

end CoinPurse
