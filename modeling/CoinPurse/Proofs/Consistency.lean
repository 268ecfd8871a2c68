import CoinPurse.Pool
import CoinPurse.Proofs.Generation
import CoinPurse.Proofs.Terms

/-!
# What can go wrong inside a run

Three failures blame the run itself, and neither its terms, nor the pool, nor the allocator: it used
up its rounds, the fee of its finished draft is negative or too large, or its plan does not add up.
Only the first of them ever happens (`generate_consistent`), whatever the allocator answers.

The other two are ruled out by the way a run gets to settle its draft. It does so only once the
draft is funded and a change output can take what is in excess, and then the fee that is paid is the
fee that is owed (`Draft.settle_finish`).
-/

namespace CoinPurse

variable {σ ε : Type}

/-- Whether a failure blames the run itself. -/
def Failure.isInconsistency : Failure ε → Bool
  | roundLimit _ | negativeFee _ | unsound _ => true
  | _ => false

/-- A run that ends for want of funds does not blame itself. -/
theorem isInconsistency_of_failShort {a : Allocator σ ε} {t : Terms} {s : Progress σ ε}
    {shortfall : Nat} {failure : Failure ε}
    (h : (s.failShort a t shortfall).outcome = .error failure) :
    failure.isInconsistency = false := by
  rcases failShort_cases a t s shortfall with ⟨s', -, heq⟩ | ⟨e, s', -, heq⟩
  · rw [heq] at h
    obtain rfl := Except.error.inj h
    rfl
  · rw [heq] at h
    obtain rfl := Except.error.inj h
    rfl

/-- However a run ends, it blames itself only for having used up its rounds. -/
theorem Ends.eq_roundLimit {a : Allocator σ ε} {entropy : Nat → Float} {t : Terms} {cap : Nat}
    {g : Stage σ ε} {r : Report σ ε} {failure : Failure ε} (hends : Ends a entropy t cap g r)
    (hfailure : r.outcome = .error failure) (hinside : failure.isInconsistency = true) :
    failure = .roundLimit cap := by
  cases hends with
  | settled hcovered hchange hfinish => cases hfailure
  | surplus hover hchange =>
    rw [isInconsistency_of_failShort hfailure] at hinside
    cases hinside
  | short hshort hchange hreply =>
    rw [isInconsistency_of_failShort hfailure] at hinside
    cases hinside
  | exhausted hshort => exact (Except.error.inj hfailure).symm
  | refused hshort hreply =>
    obtain rfl := Except.error.inj hfailure
    cases hinside
  | stuck hshort hchange hreply hback =>
    obtain rfl := Except.error.inj hfailure
    cases hinside

/-- **Plans add up.** Whatever the terms, the cap on the rounds and the answers of the allocator, if
a run blames itself then it has used up its rounds: no fee is ever found negative or too large, and
no finished plan is ever found wrong. -/
theorem generate_consistent (a : Allocator σ ε) (entropy : Nat → Float) (cap : Nat) (t : Terms)
    (source : σ) (failure : Failure ε)
    (hfailure : (generate a entropy cap t source).outcome = .error failure)
    (hinside : failure.isInconsistency = true) : failure = .roundLimit cap := by
  rcases hcheck : t.check with fault | ⟨⟩
  · rw [generate_unchecked a entropy t cap source hcheck] at hfailure
    obtain rfl := Except.error.inj hfailure
    cases hinside
  · obtain ⟨g, -, hends⟩ := generate_ends a entropy t cap source hcheck
    exact hends.eq_roundLimit hfailure hinside

/-- A payment that is still short when the only round it is given has brought a claim. -/
theorem generate_consistent_oneRound :
    (generate Holding.allocator (fun _ => 0) 1 (.payment 100 1000)
      ⟨⟨[⟨⟨1, 200⟩, none⟩, ⟨⟨2, 900⟩, none⟩], 1⟩, ⟨0, []⟩⟩).outcome = .error (.roundLimit 1) ∧
    (Failure.roundLimit 1 : Failure NotHeld).isInconsistency = true ∧
    (Failure.roundLimit 1 : Failure NotHeld) = .roundLimit 1 :=
  have hfailure : (generate Holding.allocator (fun _ => 0) 1 (.payment 100 1000)
      ⟨⟨[⟨⟨1, 200⟩, none⟩, ⟨⟨2, 900⟩, none⟩], 1⟩, ⟨0, []⟩⟩).outcome = .error (.roundLimit 1) := rfl
  ⟨hfailure, rfl, generate_consistent Holding.allocator (fun _ => 0) 1 (.payment 100 1000)
    ⟨⟨[⟨⟨1, 200⟩, none⟩, ⟨⟨2, 900⟩, none⟩], 1⟩, ⟨0, []⟩⟩ _ hfailure rfl⟩

end CoinPurse
