import CoinPurse.Terms

/-!
# What the check of terms establishes

`Terms.Accepted` collects what a run may rely on once its terms have passed the check, and
`Terms.check_eq_ok_iff` says that the check accepts exactly the terms of which all of it is true.
-/

namespace CoinPurse.Terms

/-- Nothing is wrong with these terms. -/
structure Accepted (t : Terms) : Prop where
  /-- change outputs start with something -/
  initial_pos : 1 ≤ t.initialSatoshis
  /-- so does the first of them -/
  first_pos : 1 ≤ t.firstSatoshis
  /-- no more change outputs are wanted than a run makes -/
  netCount_le : ∀ n, t.netCount = some n → n ≤ maxNetCount
  /-- every random value can be used -/
  values_usable : ∀ v ∈ t.randomValues.getD [], usable v = true
  /-- what the fixed inputs are worth fits a signed word -/
  inputTotal_le : t.inputTotal ≤ Word.maxSigned64
  /-- what the fixed outputs pay fits a signed word -/
  outputTotal_le : t.outputTotal ≤ Word.maxSigned64

/-- No net count is refused exactly when the one given, if any, is small enough. -/
theorem netCount_filter_eq_none_iff (t : Terms) :
    t.netCount.filter (maxNetCount < ·) = none ↔ ∀ n, t.netCount = some n → n ≤ maxNetCount := by
  cases t.netCount with
  | none => simp
  | some n => simp [Option.filter]

/-- No value is unusable exactly when every value can be used. -/
theorem unusable?_eq_none_iff (t : Terms) :
    t.unusable? = none ↔ ∀ v ∈ t.randomValues.getD [], usable v = true := by
  simp [unusable?, List.find?_eq_none]

/-- The check accepts exactly the terms with which nothing is wrong. -/
theorem check_eq_ok_iff (t : Terms) : t.check = .ok () ↔ t.Accepted := by
  rw [check]
  constructor
  · intro h
    split at h
    · cases h
    · split at h
      · cases h
      · split at h
        · cases h
        · rename_i hinitial hfirst _ hcount
          split at h
          · cases h
          · rename_i _ hvalues
            split at h
            · cases h
            · split at h
              · cases h
              · exact ⟨by omega, by omega, t.netCount_filter_eq_none_iff.1 hcount,
                  t.unusable?_eq_none_iff.1 hvalues, by omega, by omega⟩
  · rintro ⟨hinitial, hfirst, hcount, hvalues, hin, hout⟩
    rw [if_neg (by omega), if_neg (by omega), t.netCount_filter_eq_none_iff.2 hcount,
      t.unusable?_eq_none_iff.2 hvalues]
    simp only [if_neg (Nat.not_lt.2 hin), if_neg (Nat.not_lt.2 hout)]

/-- The terms of one payment to a script of ordinary length. -/
def payment (rate amount : Nat) : Terms where
  feeModel := ⟨rate⟩
  fixedInputs := []
  fixedOutputs := [⟨amount, 25⟩]
  initialSatoshis := 1000
  firstSatoshis := 285
  lockingScript := 25
  unlockingScript := 107
  netCount := none
  randomValues := none
  quiet := true

end CoinPurse.Terms
