import CoinPurse.Pool
import CoinPurse.Proofs.Cost
import CoinPurse.Proofs.Generation
import CoinPurse.Proofs.Terms

/-!
# When a fee is exact

The exact fee is the least number of satoshis that pays the rate (`FeeModel.exact_le_iff`), and no
other number pays the rate with less than a satoshi to spare (`FeeModel.eq_exact_iff`). The fee owed
is its low 64 bits, so it is the exact fee as long as that is a word (`FeeModel.due_eq_exact_iff`).

Nothing in a run asks whether it is. A run and the check of its plan cut a fee down in the same way,
so a plan is handed out with either, and the fee of a plan is exact if and only if size and rate
leave it a word (`generate_fee_exact_iff`). At rates beyond that a plan pays too little, and it may
pay nothing at all (`generate_fee_wrapped`).
-/

namespace CoinPurse

namespace FeeModel

variable {m : FeeModel} {size fee : Nat}

/-- **The exact fee is the least that pays the rate.** -/
theorem exact_le_iff : m.exact size ≤ fee ↔ size * m.rate ≤ 1000 * fee := by
  rw [exact]
  omega

/-- The exact fee pays the rate. -/
theorem le_mul_exact (m : FeeModel) (size : Nat) : size * m.rate ≤ 1000 * m.exact size :=
  exact_le_iff.1 (Nat.le_refl _)

/-- The exact fee pays less than a satoshi more than the rate. -/
theorem mul_exact_lt (m : FeeModel) (size : Nat) :
    1000 * m.exact size < size * m.rate + 1000 := by
  rw [exact]
  omega

/-- No other fee pays the rate with less than a satoshi to spare. -/
theorem eq_exact_iff :
    fee = m.exact size ↔ size * m.rate ≤ 1000 * fee ∧ 1000 * fee < size * m.rate + 1000 := by
  constructor
  · rintro rfl
    exact ⟨m.le_mul_exact size, m.mul_exact_lt size⟩
  · rintro ⟨henough, hleast⟩
    have hpays := m.le_mul_exact size
    have hclose := m.mul_exact_lt size
    omega

/-- **The fee owed is the exact one as long as that is a word**, and only then. -/
theorem due_eq_exact_iff : m.due size = m.exact size ↔ size * m.rate ≤ 1000 * Word.max64 := by
  rw [← exact_le_iff]
  constructor
  · intro heq
    exact heq ▸ m.due_le size
  · intro hword
    exact due_eq_exact (Nat.lt_succ_of_le hword)

/-- What the fee owed leaves out of the exact one are whole words. -/
theorem exists_due_add_eq (m : FeeModel) (size : Nat) :
    ∃ k, m.due size + k * Word.size64 = m.exact size :=
  ⟨m.exact size / Word.size64, by rw [due, Nat.mul_comm, Nat.mod_add_div]⟩

end FeeModel

/-- The fee of a plan is the least that pays its rate for its size. -/
structure Plan.PaysExactly (p : Plan) : Prop where
  /-- the fee pays the rate -/
  enough : p.size * p.rate ≤ 1000 * p.fee
  /-- a satoshi less would not -/
  least : 1000 * p.fee < p.size * p.rate + 1000

/-- A plan pays exactly if its fee is the exact one for its size. -/
theorem Plan.paysExactly_iff (p : Plan) :
    p.PaysExactly ↔ p.fee = (FeeModel.mk p.rate).exact p.size := by
  rw [FeeModel.eq_exact_iff]
  exact ⟨fun h => ⟨h.enough, h.least⟩, fun h => ⟨h.1, h.2⟩⟩

variable {σ ε : Type}

/-- A plan is handed out at the rate of its terms, with the fee owed for its size. -/
theorem fee_of_generate {a : Allocator σ ε} {entropy : Nat → Float} {cap : Nat} {t : Terms}
    {source : σ} {p : Plan} (hok : (generate a entropy cap t source).outcome = .ok p) :
    p.rate = t.feeModel.rate ∧ p.fee = p.requiredFee := by
  obtain ⟨-, g, amounts, draws, -, -, -, -, hreport⟩ := generate_ok hok
  rw [hreport] at hok
  obtain rfl := Except.ok.inj hok
  exact ⟨rfl, rfl⟩

/-- **When fees are exact.** Whatever the terms and the answers of the allocator, the fee of a plan
is the least that pays the rate, if and only if that is a word. Otherwise the plan pays too little,
by a multiple of all words. -/
theorem generate_fee_exact_iff (a : Allocator σ ε) (entropy : Nat → Float) (cap : Nat) (t : Terms)
    (source : σ) (p : Plan) (hok : (generate a entropy cap t source).outcome = .ok p) :
    p.rate = t.feeModel.rate ∧ (p.PaysExactly ↔ p.size * p.rate ≤ 1000 * Word.max64) ∧
      (1000 * Word.max64 < p.size * p.rate → 1000 * p.fee < p.size * p.rate ∧
        ∃ k, p.fee + k * Word.size64 = (FeeModel.mk p.rate).exact p.size) := by
  obtain ⟨hrate, hfee⟩ := fee_of_generate hok
  refine ⟨hrate, ?_, fun hbeyond => ⟨?_, ?_⟩⟩
  · rw [p.paysExactly_iff, hfee, Plan.requiredFee, FeeModel.due_eq_exact_iff]
  · have hword : p.fee ≤ Word.max64 := hfee ▸ FeeModel.due_le _ _
    omega
  · rw [hfee]
    exact FeeModel.exists_due_add_eq _ _

/-- The fee of an ordinary payment is exact. -/
theorem generate_fee_exact_payment :
    (generate (Allocator.prepared none) (fun _ => 0) 3 (.payment 100 1000)
      [.ok (some ⟨7, 6000⟩)]).outcome = .ok ⟨[⟨7, 6000⟩], [⟨4977, 25⟩], 226, 23, 100⟩ ∧
    (100 = (Terms.payment 100 1000).feeModel.rate ∧
      (Plan.PaysExactly ⟨[⟨7, 6000⟩], [⟨4977, 25⟩], 226, 23, 100⟩ ↔
        226 * 100 ≤ 1000 * Word.max64) ∧
      (1000 * Word.max64 < 226 * 100 → 1000 * 23 < 226 * 100 ∧
        ∃ k, 23 + k * Word.size64 = (FeeModel.mk 100).exact 226)) :=
  ⟨rfl, generate_fee_exact_iff (Allocator.prepared none) (fun _ => 0) 3 (.payment 100 1000)
    [.ok (some ⟨7, 6000⟩)] ⟨[⟨7, 6000⟩], [⟨4977, 25⟩], 226, 23, 100⟩ rfl⟩

/-- The terms of a payment to a long script, at the rate of half of all words for a thousand
bytes. -/
def Terms.wrappingFee : Terms where
  feeModel := ⟨9223372036854775808⟩
  fixedInputs := []
  fixedOutputs := [⟨1000, 1797⟩]
  initialSatoshis := 1000
  firstSatoshis := 285
  lockingScript := 25
  unlockingScript := 107
  netCount := some 1
  randomValues := none
  quiet := true

/-- A payment to a long script takes two thousand bytes. The fee for them at this rate is a multiple
of all words, so the transaction pays nothing, and its plan is handed out. -/
theorem generate_fee_wrapped :
    Terms.wrappingFee.check = .ok () ∧
    (generate Holding.allocator (fun _ => 0) 9 .wrappingFee
      (Pool.ofList [⟨1, 5000⟩]).openSession).outcome
        = .ok ⟨[⟨1, 5000⟩], [⟨4000, 25⟩], 2000, 0, 9223372036854775808⟩ ∧
    ¬ Plan.PaysExactly ⟨[⟨1, 5000⟩], [⟨4000, 25⟩], 2000, 0, 9223372036854775808⟩ := by
  refine ⟨rfl, rfl, fun h => ?_⟩
  have henough := h.enough
  simp at henough

end CoinPurse
