import CoinPurse.Proofs.Rollback
import CoinPurse.Proofs.Terms
import CoinPurse.Wire.Config

/-!
# When a configuration can fund

A wallet derives the terms of a run from its configuration, the request and what it finds in the
store. The amounts that change outputs start with are kept in bounds on the way, whatever the
configuration says (`Basket.initial_pos`, `Basket.first_pos`). The net count that a basket asks for
is not: a basket that lacks more outputs than one run makes leads to terms that the run refuses.

That is the only way in which the terms derived for a proper request are refused
(`Config.check_terms`), and funding reports a fault in its terms exactly then
(`fund_invalidTerms_iff`).
-/

namespace CoinPurse

variable {σ ε : Type}

/-- A run that is out of funds has not refused its terms. -/
theorem failShort_ne_invalidTerms (a : Allocator σ ε) (t : Terms) (s : Progress σ ε)
    (shortfall : Nat) (fault : TermsFault) :
    (s.failShort a t shortfall).outcome ≠ .error (.invalidTerms fault) := by
  intro h
  rcases failShort_cases a t s shortfall with ⟨s', -, heq⟩ | ⟨e, s', -, heq⟩
  · rw [heq] at h
    cases h
  · rw [heq] at h
    cases h

/-- **A run refuses its terms exactly if the check does.** -/
theorem generate_invalidTerms_iff (a : Allocator σ ε) (entropy : Nat → Float) (cap : Nat)
    (t : Terms) (source : σ) (fault : TermsFault) :
    (generate a entropy cap t source).outcome = .error (.invalidTerms fault) ↔
      t.check = .error fault := by
  rcases hcheck : t.check with fault' | ⟨⟩
  · rw [generate_unchecked a entropy t cap source hcheck]
    simp
  · refine iff_of_false (fun h => ?_) (fun h => by cases h)
    obtain ⟨g, -, hends⟩ := generate_ends a entropy t cap source hcheck
    generalize generate a entropy cap t source = report at h hends
    cases hends with
    | settled => cases h
    | surplus => exact failShort_ne_invalidTerms a t _ _ fault h
    | short => exact failShort_ne_invalidTerms a t _ _ fault h
    | exhausted => cases h
    | refused => cases h
    | stuck => cases h

namespace Basket

/-- Whatever the minimum is, change outputs start with something. -/
theorem initial_pos (b : Basket) : b.initialSatoshis ≠ 0 :=
  Nat.ne_of_gt (Nat.lt_of_lt_of_le Nat.zero_lt_one (Nat.le_max_right _ _))

/-- Whatever the minimum is, the first change output starts with something. -/
theorem first_pos (b : Basket) : b.firstSatoshis ≠ 0 :=
  Nat.ne_of_gt (Nat.lt_of_lt_of_le Nat.zero_lt_one (Nat.le_max_right _ _))

end Basket

/-- A request with nothing wrong in it: a run can use its random values, and what its inputs are
worth and what its outputs pay fit a signed word. -/
structure Request.Proper (r : Request) : Prop where
  /-- every random value can be used -/
  values_usable : ∀ v ∈ r.randomValues.getD [], Terms.usable v = true
  /-- what the fixed inputs are worth fits -/
  inputTotal_le : totalOf (r.fixedInputs.map (·.satoshis)) ≤ Word.maxSigned64
  /-- so does what the fixed outputs pay -/
  outputTotal_le : totalOf (r.fixedOutputs.map (·.satoshis)) ≤ Word.maxSigned64

/-- **Of the terms derived for a proper request only the net count can be at fault**, whatever the
configuration. -/
theorem Config.check_terms (c : Config) {r : Request} (hr : r.Proper) (netCount : Option Int) :
    (c.terms r netCount).check = match netCount.filter (Terms.maxNetCount < ·) with
      | some count => .error (.netCountTooLarge count)
      | none => .ok () := by
  have hinitial : (c.terms r netCount).initialSatoshis ≠ 0 := c.basket.initial_pos
  have hfirst : (c.terms r netCount).firstSatoshis ≠ 0 := c.basket.first_pos
  have hcount : (c.terms r netCount).netCount = netCount := rfl
  have hvalues : (c.terms r netCount).unusable? = none :=
    (Terms.unusable?_eq_none_iff _).2 hr.values_usable
  have hin : ¬ Word.maxSigned64 < (c.terms r netCount).inputTotal := Nat.not_lt.2 hr.inputTotal_le
  have hout : ¬ Word.maxSigned64 < (c.terms r netCount).outputTotal :=
    Nat.not_lt.2 hr.outputTotal_le
  rw [Terms.check, if_neg hinitial, if_neg hfirst, hcount, hvalues]
  cases netCount.filter (Terms.maxNetCount < ·) with
  | none => simp only [if_neg hin, if_neg hout]
  | some count => rfl

/-- What the net count of a basket is, if it is too large for a run. -/
theorem Config.filter_basketNetCount (c : Config) (spendable : Nat) (count : Int) :
    (c.basketNetCount spendable).filter (Terms.maxNetCount < ·) = some count ↔
      count = (c.basket.desiredCount : Int) - min spendable Word.maxSigned64 ∧ 10000 < count := by
  rw [basketNetCount]
  split
  · simp [Option.filter]
    omega
  · by_cases hlarge : 10000 < (c.basket.desiredCount : Int) - min spendable Word.maxSigned64
    · simp only [Option.filter, Terms.maxNetCount, hlarge, decide_true, if_true, Option.some.injEq]
      omega
    · simp only [Option.filter, Terms.maxNetCount, hlarge, decide_false, Bool.false_eq_true,
        if_false, reduceCtorEq, false_iff]
      omega

namespace Wallet

variable {w : Wallet} {entropy : Nat → Float} {r : Request} {netCount : Option Int}

/-- **Funding reports a fault in its terms exactly if the check finds one.** -/
theorem fund_invalidTerms_of_netCount (hunbroken : w.vault.broken = false)
    (hcount : w.netCount r = .ok netCount) (fault : TermsFault) :
    (w.fund entropy r).result = .error (.generation (.invalidTerms fault)) ↔
      (w.config.terms r netCount).check = .error fault := by
  rw [← generate_invalidTerms_iff (Vault.allocator w.vault.store.nextRunId) entropy defaultRounds
    (w.config.terms r netCount) ⟨w.vault.store.begin.2, false⟩ fault]
  change _ ↔ (w.attempt entropy r netCount).outcome = _
  cases houtcome : (w.attempt entropy r netCount).outcome with
  | ok p =>
    rw [(fund_of_ok hunbroken hcount houtcome).1]
    simp
  | error failure =>
    rw [(fund_of_error hunbroken hcount houtcome).1]
    simp

/-- Without a net count of its own, a request is funded with that of the basket. -/
theorem netCount_eq_basket (config : Config) (store : Store) (hrequest : r.netCount = none) :
    (ofStore config store).netCount r = .ok (config.basketNetCount store.count) := by
  simp only [netCount, hrequest, ofStore, Vault.ask, Config.basketNetCount, Bool.false_eq_true,
    if_false]
  split
  · rfl
  · rename_i hdesired
    simp only [Except.map, Config.basketNetCount, if_neg hdesired]

end Wallet

/-- **When a configuration can fund.** Whatever the configuration and whatever is in the store, a
proper request without a net count is funded on terms that pass the check, unless the basket lacks
more than ten thousand outputs. Then funding fails over the net count; nothing else in its terms is
ever at fault. -/
theorem fund_invalidTerms_iff (config : Config) (store : Store) (entropy : Nat → Float)
    (r : Request) (hrequest : r.netCount = none) (hr : r.Proper) :
    (∃ netCount, (Wallet.ofStore config store).netCount r = .ok netCount ∧
      ((config.terms r netCount).check = .ok () ↔
        (config.basket.desiredCount : Int) - min store.count Word.maxSigned64 ≤ 10000)) ∧
    ∀ fault, ((Wallet.ofStore config store).fund entropy r).result
        = .error (.generation (.invalidTerms fault)) ↔
      ∃ count : Int, count = config.basket.desiredCount - min store.count Word.maxSigned64 ∧
        10000 < count ∧ fault = .netCountTooLarge count := by
  have hcount := Wallet.netCount_eq_basket config store hrequest
  have hfilter := config.filter_basketNetCount store.count
  have hcheck := config.check_terms hr (config.basketNetCount store.count)
  cases hlarge : (config.basketNetCount store.count).filter (Terms.maxNetCount < ·) with
  | none =>
    rw [hlarge] at hcheck hfilter
    have hsmall :
        (config.basket.desiredCount : Int) - min store.count Word.maxSigned64 ≤ 10000 := by
      by_contra hnot
      cases (hfilter _).2 ⟨rfl, Int.not_le.1 hnot⟩
    refine ⟨⟨_, hcount, iff_of_true hcheck hsmall⟩, fun fault => ?_⟩
    rw [Wallet.fund_invalidTerms_of_netCount rfl hcount]
    refine iff_of_false (fun h => ?_) ?_
    · cases hcheck.symm.trans h
    · rintro ⟨count, rfl, hover, -⟩
      omega
  | some count =>
    rw [hlarge] at hcheck hfilter
    obtain ⟨heq, hover⟩ := (hfilter count).1 rfl
    refine ⟨⟨_, hcount, iff_of_false (fun h => ?_) (by omega)⟩, fun fault => ?_⟩
    · cases hcheck.symm.trans h
    · rw [Wallet.fund_invalidTerms_of_netCount rfl hcount]
      constructor
      · intro h
        exact ⟨count, heq, hover, by cases hcheck.symm.trans h; rfl⟩
      · rintro ⟨count', rfl, -, rfl⟩
        rw [← heq]
        exact hcheck

/-- There is nothing wrong with a request for nothing in particular. -/
theorem Request.proper_blank : blank.Proper where
  values_usable _ hv := nomatch hv
  inputTotal_le := Nat.zero_le _
  outputTotal_le := Nat.zero_le _

/-- The configuration of a wallet that should keep twenty thousand outputs in stock. -/
def Config.desiringTooMany : Config :=
  { Config.standard with basket := { Basket.standard with desiredCount := 20000 } }

/-- A configuration that desires too many outputs cannot fund anything from an empty store. -/
theorem fund_invalidTerms_desiringTooMany :
    Request.blank.netCount = none ∧ Request.blank.Proper ∧
    ((∃ netCount, (Wallet.ofStore .desiringTooMany .empty).netCount .blank = .ok netCount ∧
      ((Config.desiringTooMany.terms .blank netCount).check = .ok () ↔
        (20000 : Int) - min 0 Word.maxSigned64 ≤ 10000)) ∧
    ∀ fault, ((Wallet.ofStore .desiringTooMany .empty).fund (fun _ => 0) .blank).result
        = .error (.generation (.invalidTerms fault)) ↔
      ∃ count : Int, count = 20000 - min 0 Word.maxSigned64 ∧
        10000 < count ∧ fault = .netCountTooLarge count) :=
  ⟨rfl, Request.proper_blank,
    fund_invalidTerms_iff .desiringTooMany .empty (fun _ => 0) .blank rfl Request.proper_blank⟩

/-- The configuration that desires too many outputs can be read from a file, which names their
number only. The store is new, and there is nothing wrong with the request. Still funding it fails
over its terms. -/
theorem fund_invalidTerms_parsed :
    Config.ofJson? (.obj [("changeBasket", .obj [("desiredUtxoCount", .ofNat 20000)])])
      = some .desiringTooMany ∧
    Request.blank.netCount = none ∧ Request.blank.Proper ∧
    ((Wallet.ofStore .desiringTooMany .empty).fund (fun _ => 0) .blank).result
      = .error (.generation (.invalidTerms (.netCountTooLarge 20000))) :=
  ⟨rfl, rfl, Request.proper_blank, rfl⟩

end CoinPurse
