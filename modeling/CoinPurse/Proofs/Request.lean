import CoinPurse.Proofs.Cost
import CoinPurse.Proofs.Draft
import CoinPurse.Proofs.Selection

/-!
# What a draft asks for

The target of a request is never below what one more input has to bring, even where it is raised to
make room for a change output (`Draft.deficit_le_target`). So a candidate whose claim leaves the
draft short is neither an exact fit nor large enough for the target: it was chosen because there is
none larger (`Draft.le_of_claim_short`).

Where a change output goes with the input, the target has room for it. So a candidate that reaches
the target leaves nothing short even if an output is added (`Draft.excess_accept_nonneg`), and again
a draft is only left short by the largest candidate there is (`Draft.le_of_accept_short`).
-/

namespace CoinPurse.Draft

/-- A lower excess never has a smaller deficit. -/
theorem deficit_le_deficit {a b : Int} (h : a ≤ b) : deficit b ≤ deficit a := by
  simp only [deficit]
  split
  · exact Nat.zero_le _
  · rw [if_neg (by omega)]
    exact Word.clamp_le_clamp (by omega)

/-- A deficit is a word. -/
theorem deficit_le (excess : Int) : deficit excess ≤ Word.max64 := by
  simp only [deficit]
  split
  · exact Nat.zero_le _
  · exact Word.clamp_le _

/-- A deficit makes up for an excess below zero, as long as a word can. -/
theorem deficit_eq {excess : Int} (hle : excess ≤ 0) (hword : -excess ≤ Word.max64) :
    (deficit excess : Int) = -excess := by
  simp only [deficit]
  split
  · omega
  · simp only [Word.clamp]
    omega

variable {t : Terms} {d : Draft} {cs : List Candidate} {c : Candidate}

/-- What a claim leaves: the excess with one more input, and what the candidate is worth. -/
theorem excess_claim : (d.claim c).excess t = d.excessWith t 1 0 + c.satoshis := by
  rw [excess, excessWith, fee_claim, dueWith, sizeWith_claim, excessWith, dueWith, Nat.zero_add]
  omega

/-- **The target is high enough.** It is never below what one more input has to bring. -/
theorem deficit_le_target (hfits : t.Fits (d.claimed.size + 1) (d.change.size + 1)) :
    deficit (d.excessWith t 1 0) ≤ (d.ask t).target := by
  simp only [ask]
  split
  · -- the target is that of a larger transaction, with some satoshis to spare
    have hbalanced : deficit (d.excessWith t 1 0) ≤ deficit (d.excessWith t 1 1) :=
      deficit_le_deficit (excessWith_le_excessWith hfits.fee (Nat.le_refl 1) (Nat.zero_le 1))
    exact Nat.le_trans hbalanced (Word.le_add _ (deficit_le _))
  · exact Nat.le_refl _

/-- **The largest candidates come first.** If a draft is still short with the candidate chosen, no
other candidate is worth more. -/
theorem le_of_claim_short (hfits : t.Fits (d.claimed.size + 1) (d.change.size + 1))
    (hword : d.change.total + t.costFor (d.claimed.size + 1) d.change.size ≤ Word.max64)
    (hchoose : Candidate.choose cs (d.ask t) = some c) (hshort : (d.claim c).excess t < 0) :
    ∀ x ∈ cs, x.satoshis ≤ c.satoshis := by
  rw [excess_claim] at hshort
  have hneed : -d.excessWith t 1 0 ≤ Word.max64 := by
    rw [excessWith_eq, Nat.add_zero d.change.size]
    omega
  have hdeficit : (deficit (d.excessWith t 1 0) : Int) = -d.excessWith t 1 0 :=
    deficit_eq (by omega) hneed
  obtain ⟨-, hexact | htarget | hlargest⟩ := Candidate.choose_cases hchoose
  · simp only [ask] at hexact
    split at hexact
    · have := Option.some.inj hexact
      omega
    · cases hexact
  · have := deficit_le_target hfits
    omega
  · exact hlargest

/-- If a draft is still short with the candidate chosen, no other candidate is worth more, whatever
the change outputs take, as long as every candidate is a word. -/
theorem le_of_claim_short_of_words
    (hfits : t.Fits (d.claimed.size + 1) (d.change.size + 1))
    (hwords : ∀ x ∈ cs, x.satoshis ≤ Word.max64)
    (hchoose : Candidate.choose cs (d.ask t) = some c) (hshort : (d.claim c).excess t < 0) :
    ∀ x ∈ cs, x.satoshis ≤ c.satoshis := by
  by_cases hword : Word.max64 ≤ c.satoshis
  · exact fun x hx => Nat.le_trans (hwords x hx) hword
  · -- the candidate is less than what one more input has to bring, even if that is cut to a word
    have hless : c.satoshis < deficit (d.excessWith t 1 0) := by
      rw [excess_claim] at hshort
      simp only [deficit, Word.clamp]
      split <;> omega
    obtain ⟨-, hexact | htarget | hlargest⟩ := Candidate.choose_cases hchoose
    · simp only [ask] at hexact
      split at hexact
      · have := Option.some.inj hexact
        omega
      · cases hexact
    · have := deficit_le_target hfits
      omega
    · exact hlargest

/-- What a claim leaves when some more inputs and outputs are counted in. -/
theorem excessWith_claim (inputs outputs : Nat) :
    (d.claim c).excessWith t inputs outputs
      = d.excessWith t (inputs + 1) outputs + c.satoshis := by
  rw [excessWith, fee_claim, dueWith, sizeWith_claim, excessWith, dueWith]
  omega

/-- What a new change output leaves: the excess with one more output, less what the output takes. -/
theorem excess_addChange : (d.addChange t).excess t
    = d.excessWith t 0 1 - min (Word.clamp (d.excess t)) (d.nextAmount t) := by
  have hsize : (d.addChange t).change.size = d.change.size + 1 := rfl
  have htotal : (d.addChange t).change.total
      = min (Word.clamp (d.excess t)) (d.nextAmount t) + d.change.total := rfl
  simp only [excess_eq, excessWith_eq, claimed_addChange, hsize, htotal, Nat.add_zero]
  omega

/-- **A candidate large enough for a change output ends the shortage**, whether the output is added
or not. -/
theorem excess_accept_nonneg (hfits : t.FeeFits (d.claimed.size + 1) (d.change.size + 1))
    (growing : Bool) (hcovers : (d.nextAmount t : Int) ≤ d.excessWith t 1 1 + c.satoshis) :
    0 ≤ (d.accept t growing c).excess t := by
  rcases accept_cases t d growing c with ⟨heq, -⟩ | ⟨-, -, -, heq⟩
  · have hless : d.excessWith t 1 1 ≤ d.excessWith t 1 0 :=
      excessWith_le_excessWith hfits (Nat.le_refl 1) (Nat.zero_le 1)
    rw [heq, excess_claim]
    omega
  · have hnext : (d.claim c).nextAmount t = d.nextAmount t := rfl
    have hamount := Nat.min_le_right (Word.clamp ((d.claim c).excess t)) (d.nextAmount t)
    rw [heq, excess_addChange, excessWith_claim, hnext, Nat.zero_add]
    omega

/-- A target that was not cut down to a word covers a change output too, with two initial amounts to
spare. -/
theorem le_target_of_wantsBalance (hwants : d.wantsBalance t = true)
    (hword : (d.ask t).target < Word.max64) :
    2 * (t.initialSatoshis : Int) - d.excessWith t 1 1 ≤ (d.ask t).target := by
  simp only [ask, hwants, if_true, deficit, Word.add, Word.mul, Word.clamp] at hword ⊢
  split at hword <;> split <;> omega

/-- **The largest candidates come first**, also while a net count is kept up. If a draft that has
change outputs and wants more is short with the candidate chosen, no other candidate is worth
more. -/
theorem le_of_accept_short (hfits : t.Fits (d.claimed.size + 1) (d.change.size + 1))
    (hwords : ∀ x ∈ cs, x.satoshis ≤ Word.max64) (hwants : d.wantsBalance t = true)
    (hchange : d.change.size ≠ 0) (hchoose : Candidate.choose cs (d.ask t) = some c)
    {growing : Bool} (hshort : (d.accept t growing c).excess t < 0) :
    ∀ x ∈ cs, x.satoshis ≤ c.satoshis := by
  obtain ⟨-, hexact | htarget | hlargest⟩ := Candidate.choose_cases hchoose
  · simp [ask, hchange] at hexact
  · by_cases hword : Word.max64 ≤ c.satoshis
    · exact fun x hx => Nat.le_trans (hwords x hx) hword
    · -- the target was not cut down, so the candidate covers it with a change output
      have hreach := le_target_of_wantsBalance hwants (by omega)
      have hnext : d.nextAmount t = t.initialSatoshis := if_neg hchange
      have := excess_accept_nonneg (c := c) hfits.fee growing (by rw [hnext]; omega)
      omega
  · exact hlargest

end CoinPurse.Draft
