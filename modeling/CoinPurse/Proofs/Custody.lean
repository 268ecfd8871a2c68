import CoinPurse.Proofs.Funded

/-!
# Funded runs have custody of their inputs

Several wallets may use one store. Each funds what it is asked to fund, and completes or aborts what
it has funded; outputs are added in between. `Book` puts down the runs that were funded that way.
As long as such a run is open it claims the inputs of its plan (`Book.Kept`), and since no output
is claimed twice no other open run has one of them (`fund_custody`).
-/

namespace CoinPurse

open Store

/-- What a wallet may be asked to do. -/
inductive Call where
  /-- fund a request -/
  | fund (entropy : Nat → Float) (r : Request)
  /-- store an output -/
  | add (output : NewOutput)
  /-- complete a run -/
  | complete (run : Int) (txid : Txid) (change : List NewOutput)
  /-- abort a run -/
  | abort (run : Int)

/-- A store that wallets share, and the runs that they funded from it, the latest first. -/
structure Book where
  /-- the store -/
  vault : Vault
  /-- the runs, with their plans -/
  funded : List Funded

namespace Book

/-- An operation that a wallet performs on the store. -/
def perform (config : Config) (op : Op) (b : Book) : Book :=
  { b with vault := ((⟨config, b.vault⟩ : Wallet).perform op).state.vault }

/-- A call to a wallet with this configuration. If it is to fund a request, and it succeeds, the run
is put down. -/
def serve (b : Book) : Config × Call → Book
  | (config, .fund entropy r) =>
    let reply := (⟨config, b.vault⟩ : Wallet).fund entropy r
    ⟨reply.state.vault, match reply.result with
      | .ok f => f :: b.funded
      | .error _ => b.funded⟩
  | (config, .add o) => b.perform config (.add o)
  | (config, .complete run txid change) => b.perform config (.complete run txid change)
  | (config, .abort run) => b.perform config (.abort run)

/-- The book of a store after these calls, none of whose runs was put down before. -/
def ofCalls (s : Store) (calls : List (Config × Call)) : Book :=
  calls.foldl serve ⟨⟨s, false⟩, []⟩

/-- No run was funded twice, and no two of them that are open have an input in common. -/
def Exclusive (b : Book) : Prop :=
  b.funded.Pairwise fun f g => f.run ≠ g.run ∧
    (b.vault.store.ensureOpen f.run = .ok () → b.vault.store.ensureOpen g.run = .ok () →
      ∀ c ∈ f.plan.inputs, ∀ d ∈ g.plan.inputs, c.id ≠ d.id)

/-- What is true of every book. -/
structure Kept (b : Book) : Prop where
  /-- operations have led to the store -/
  reached : b.vault.Reached
  /-- the runs are in the store -/
  runs_mem : ∀ f ∈ b.funded, f.run ∈ b.vault.store.runs.map (·.id)
  /-- they are told apart by their ids -/
  distinct : b.funded.Pairwise fun f g => f.run ≠ g.run
  /-- while one is open, it claims the inputs of its plan -/
  held : ∀ f ∈ b.funded, RunRow.opened f.run ∈ b.vault.store.runs →
    ∀ c ∈ f.plan.inputs, (c.id, f.run) ∈ b.vault.store.claims

end Book

namespace Store

variable {s next : Store} {op : Op} {receipt : Receipt} {run : Int}

/-- What is listed of the claims of a run is among the claims. -/
theorem mem_claims_of_allocations (h : s.Written) {cs : List Candidate}
    (hcs : s.allocations run = .ok cs) {c : Candidate} (hc : c ∈ cs) :
    (c.id, run) ∈ s.claims := by
  obtain rfl := Except.ok.inj ((h.allocations_eq run).symm.trans hcs)
  obtain ⟨row, hrow, rfl⟩ := List.mem_map.1 hc
  obtain ⟨slot, hslot, hheld, rfl⟩ := mem_claimed_iff.1 hrow
  exact mem_claims_iff.2 ⟨slot, hslot, rfl, hheld⟩

/-- Changing runs leaves their ids alone, if it does so for each. -/
theorem ids_setRun {change : RunRow → RunRow} (run : Int) (hid : ∀ r, (change r).id = r.id)
    (s : Store) : (s.setRun run change).runs.map (·.id) = s.runs.map (·.id) := by
  rw [setRun, List.map_map]
  refine List.map_congr_left fun r _ => ?_
  simp only [Function.comp_apply]
  split
  · exact hid r
  · rfl

/-- No operation removes a run. -/
theorem Effect.ids_subset (heffect : Effect s op receipt next) :
    s.runs.map (·.id) ⊆ next.runs.map (·.id) := by
  cases heffect with
  | added | known | unanswered | claimed | released => exact List.Subset.refl _
  | begun => exact List.map_subset _ (List.subset_append_left _ _)
  | @completed run txid _ _ _ _ _ hinsert =>
    obtain ⟨-, hruns⟩ := exists_of_insertAll hinsert
    rw [hruns, settle, ids_setRun]
    · exact List.Subset.refl _
    · exact fun _ => rfl
  | aborted =>
    rw [withdraw, ids_setRun]
    · exact List.Subset.refl _
    · exact fun _ => rfl

/-- A run that is open after an operation, and was there before, was open. -/
theorem Effect.opened_mem (h : s.Regular) (heffect : Effect s op receipt next)
    (hmem : run ∈ s.runs.map (·.id)) (hopen : RunRow.opened run ∈ next.runs) :
    RunRow.opened run ∈ s.runs := by
  obtain ⟨r, hr, rfl⟩ := List.mem_map.1 hmem
  by_contra hnot
  have hended : r.status ≠ .int RunStatus.opened.code := by
    intro hstatus
    cases h.runs r hr with
    | opened id => exact hnot hr
    | completed => cases hstatus
    | aborted => cases hstatus
  have hstays := heffect.mem_runs h hr hended
  exact hended (congrArg RunRow.status ((heffect.regular h).run_eq hstays hopen rfl))

/-- An operation other than a release does not end the claims of a run that is open afterwards. -/
theorem Effect.ends_eq_false (h : s.Regular) (heffect : Effect s op receipt next)
    (hkind : ∀ run id, op ≠ .release run id) (hopen : RunRow.opened run ∈ next.runs) (id : Int) :
    op.ends run id = false := by
  have hnext := heffect.regular h
  cases heffect with
  | added | known | begun | unanswered | claimed => rfl
  | released => exact absurd rfl (hkind _ _)
  | @completed run' txid change ids next hcheck hopen' hinsert =>
    have hcompleted :=
      ((Effect.completed hcheck hopen' hinsert).mem_of_completed h).1
    simp only [Op.ends, beq_eq_false_iff_ne]
    rintro rfl
    cases hnext.run_eq hcompleted hopen rfl
  | @aborted run' hopen' =>
    have haborted : RunRow.aborted run' ∈ (s.withdraw run').runs :=
      List.mem_map.2 ⟨_, h.mem_of_ensureOpen hopen', if_pos (beq_self_eq_true run')⟩
    simp only [Op.ends, beq_eq_false_iff_ne]
    rintro rfl
    cases hnext.run_eq haborted hopen rfl

/-- An operation other than a release leaves the claims of a run that is open afterwards in
place. -/
theorem Effect.mem_claims (h : s.Regular) (heffect : Effect s op receipt next)
    (hkind : ∀ run id, op ≠ .release run id) (hopen : RunRow.opened run ∈ next.runs) {id : Int}
    (hclaim : (id, run) ∈ s.claims) : (id, run) ∈ next.claims := by
  obtain ⟨slot, hslot, hid, hheld⟩ := mem_claims_iff.1 hclaim
  refine mem_claims_iff.2 ⟨slot, ?_, hid, hheld⟩
  refine heffect.mem_slots h hslot (by simp [Slot.isSpendable, hheld]) fun run' hrun' => ?_
  obtain rfl := Option.some.inj (hheld.symm.trans hrun')
  exact heffect.ends_eq_false h hkind hopen _

end Store

namespace Book.Kept

variable {b : Book}

/-- A book without runs is kept. -/
theorem nil {v : Vault} (h : v.Reached) : Kept ⟨v, []⟩ where
  reached := h
  runs_mem _ hf := nomatch hf
  distinct := .nil
  held _ hf := nomatch hf

/-- Operations other than a release keep a book. -/
theorem perform (h : b.Kept) (config : Config) {op : Op}
    (hkind : ∀ run id, op ≠ .release run id) : (b.perform config op).Kept := by
  have hbook : b.perform config op
      = { b with vault := (b.vault.update (Store.perform op)).2 } := rfl
  have hreached := h.reached.perform op
  have hregular := h.reached.regular
  rw [hbook]
  rcases b.vault.update_cases (Store.perform op) with heq | ⟨receipt, next, hperform, heq⟩
  · rwa [heq]
  · rw [heq] at hreached ⊢
    have heffect := effect_of_perform hperform
    refine ⟨hreached, ?_, h.distinct, ?_⟩
    · exact fun f hf => heffect.ids_subset (h.runs_mem f hf)
    · intro f hf hopen c hc
      have hbefore := heffect.opened_mem hregular (h.runs_mem f hf) hopen
      exact heffect.mem_claims hregular hkind hopen (h.held f hf hbefore c hc)

/-- A funding that succeeds keeps a book, if the new run is put down. -/
theorem cons (h : b.Kept) {f : Funded} {v : Vault} (hreached : v.Reached)
    (hrun : f.run = b.vault.store.nextRunId) (hfunds : b.vault.store.Funds f v.store) :
    Kept ⟨v, f :: b.funded⟩ := by
  have hnew : ∀ g ∈ b.funded, f.run ≠ g.run := by
    intro g hg hsame
    refine h.reached.regular.numbered.nextRunId_not_mem ?_
    rw [← hrun, hsame]
    exact h.runs_mem g hg
  refine ⟨hreached, ?_, List.pairwise_cons.2 ⟨hnew, h.distinct⟩, ?_⟩
  · intro g hg
    simp only
    rw [hfunds.runs_eq, List.map_append, List.mem_append]
    rcases List.mem_cons.1 hg with rfl | hg
    · exact .inr (List.mem_singleton.2 rfl)
    · exact .inl (h.runs_mem g hg)
  · intro g hg hopen c hc
    rcases List.mem_cons.1 hg with rfl | hg
    · obtain ⟨cs, hcs, hinputs, -⟩ := hfunds.allocations
      exact mem_claims_of_allocations hreached.written hcs (hinputs.mem_iff.2 hc)
    · have hbefore : RunRow.opened g.run ∈ b.vault.store.runs := by
        simp only at hopen
        rw [hfunds.runs_eq] at hopen
        rcases List.mem_append.1 hopen with hmem | hmem
        · exact hmem
        · have hsame := congrArg RunRow.id (List.mem_singleton.1 hmem)
          exact absurd hsame.symm (hnew g hg)
      have hclaim := h.held g hg hbefore c hc
      rw [← hfunds.claims_eq] at hclaim
      exact (List.mem_filter.1 hclaim).1

/-- A funding that fails keeps a book. -/
theorem undone (h : b.Kept) {v : Vault} (hreached : v.Reached)
    (hundone : b.vault.store.Undone v.store) : Kept ⟨v, b.funded⟩ := by
  refine ⟨hreached, ?_, h.distinct, ?_⟩
  · intro f hf
    have hmem := h.runs_mem f hf
    rcases hundone.runs_eq with heq | heq
    · rwa [heq]
    · simp only
      rw [heq, List.map_append]
      exact List.mem_append_left _ hmem
  · intro f hf hopen c hc
    have hbefore : RunRow.opened f.run ∈ b.vault.store.runs := by
      rcases hundone.runs_eq with heq | heq
      · rwa [heq] at hopen
      · simp only at hopen
        rw [heq] at hopen
        rcases List.mem_append.1 hopen with hmem | hmem
        · exact hmem
        · cases congrArg RunRow.status (List.mem_singleton.1 hmem)
    have hclaim := h.held f hf hbefore c hc
    rwa [claims, ← hundone.slots_eq] at hclaim

/-- Funding keeps a book, whether it succeeds or not. -/
theorem fund (h : b.Kept) (config : Config) (entropy : Nat → Float) (r : Request) :
    (b.serve (config, .fund entropy r)).Kept := by
  have hreached := Wallet.reached_fund (w := ⟨config, b.vault⟩) h.reached entropy r
  rw [Book.serve]
  cases hresult : ((⟨config, b.vault⟩ : Wallet).fund entropy r).result with
  | ok f =>
    have hrun := (Wallet.holds_of_fund (w := ⟨config, b.vault⟩) h.reached hresult).1
    exact h.cons hreached hrun (Wallet.funds_of_fund (w := ⟨config, b.vault⟩) h.reached hresult)
  | error fault =>
    have hnumbered := h.reached.regular.numbered
    exact h.undone hreached
      (Wallet.undone_of_fund (w := ⟨config, b.vault⟩) hnumbered hresult).1

/-- Every call keeps a book. -/
theorem serve (h : b.Kept) (call : Config × Call) : (b.serve call).Kept := by
  obtain ⟨config, call⟩ := call
  cases call with
  | fund entropy r => exact h.fund config entropy r
  | add o => exact h.perform config fun _ _ => Op.noConfusion
  | complete run txid change => exact h.perform config fun _ _ => Op.noConfusion
  | abort run => exact h.perform config fun _ _ => Op.noConfusion

/-- **In a book that is kept no input is promised twice.** -/
theorem exclusive (h : b.Kept) : b.Exclusive := by
  have hregular := h.reached.regular
  refine h.distinct.imp_of_mem fun {f g} hf hg hne => ⟨hne, ?_⟩
  intro hopen hopen' c hc d hd hid
  have hclaim := h.held f hf (hregular.mem_of_ensureOpen hopen) c hc
  have hclaim' := h.held g hg (hregular.mem_of_ensureOpen hopen') d hd
  obtain ⟨slot, hslot, hslotid, hheld⟩ := mem_claims_iff.1 hclaim
  obtain ⟨slot', hslot', hslotid', hheld'⟩ := mem_claims_iff.1 hclaim'
  obtain rfl := hregular.slot_eq hslot hslot' (by rw [hslotid, hslotid', hid])
  exact hne (Option.some.inj (hheld.symm.trans hheld'))

end Book.Kept

/-- Every book is kept. -/
theorem Book.kept_ofCalls (history : List Op) (calls : List (Config × Call)) :
    (Book.ofCalls (after history) calls).Kept := by
  suffices h : ∀ b : Book, b.Kept → (calls.foldl Book.serve b).Kept from
    h _ (.nil ⟨history, rfl⟩)
  induction calls with
  | nil => exact fun _ h => h
  | cons call calls ih => exact fun b h => ih _ (h.serve call)

/-- **Funded runs have custody of their inputs.** Whatever operations have led to a store, if a
wallet on it funds a request then the new run claims the inputs of its plan, and that is all that
changes (`Funds`). So whatever wallets are asked to do after that, no two runs they funded that are
still open have an input in common. -/
theorem fund_custody (history : List Op) :
    (∀ config entropy r f, ((Wallet.ofStore config (after history)).fund entropy r).result = .ok f →
      (after history).Funds f
        ((Wallet.ofStore config (after history)).fund entropy r).state.vault.store) ∧
    ∀ calls, (Book.ofCalls (after history) calls).Exclusive := by
  constructor
  · intro config entropy r f hok
    exact Wallet.funds_of_fund (w := .ofStore config (after history)) ⟨history, rfl⟩ hok
  · exact fun calls => (Book.kept_ofCalls history calls).exclusive

/-- Two payments from one store, each with an input of its own. -/
theorem fund_custody_twoPayments :
    ((Wallet.ofStore .desiringNone (after twoOutputs)).fund (fun _ => 0) .payment).result
      = .ok ⟨1, ⟨[⟨2, 3000⟩], [⟨1977, 25⟩], 226, 23, 100⟩⟩ ∧
    (after twoOutputs).Funds ⟨1, ⟨[⟨2, 3000⟩], [⟨1977, 25⟩], 226, 23, 100⟩⟩
      ((Wallet.ofStore .desiringNone (after twoOutputs)).fund
        (fun _ => 0) .payment).state.vault.store ∧
    (Book.ofCalls (after twoOutputs) [(.desiringNone, .fund (fun _ => 0) .payment),
      (.desiringNone, .fund (fun _ => 0) .payment)]).funded
      = [⟨2, ⟨[⟨1, 5000⟩], [⟨3977, 25⟩], 226, 23, 100⟩⟩,
        ⟨1, ⟨[⟨2, 3000⟩], [⟨1977, 25⟩], 226, 23, 100⟩⟩] ∧
    (Book.ofCalls (after twoOutputs) [(.desiringNone, .fund (fun _ => 0) .payment),
      (.desiringNone, .fund (fun _ => 0) .payment)]).Exclusive :=
  ⟨rfl, (fund_custody twoOutputs).1 .desiringNone (fun _ => 0) .payment _ rfl, rfl,
    (fund_custody twoOutputs).2 _⟩

end CoinPurse
