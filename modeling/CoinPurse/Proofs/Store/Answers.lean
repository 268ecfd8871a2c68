import CoinPurse.Proofs.Store.Lasting
import CoinPurse.Proofs.Store.Written

/-!
# What a store answers

In a store that only operations have changed, an open run can do what it is meant to do: its
requests are answered by the candidate that would be chosen from what is spendable
(`Regular.allocate_eq`), what it claims it can give back (`Regular.release_eq`), and what is listed
of the store can be read (`Written.allocations_eq`, `Regular.exists_list_eq_ok`).

The cells of a store hold signed words, so it searches with the request cut down to these
(`Ask.signed`). That makes no difference to the answer (`allocate_chooses`).
-/

namespace CoinPurse

/-- A request as it is put to a store: a target beyond the largest signed word counts as that word,
and an exact amount beyond it is not named. -/
def Ask.signed (ask : Ask) : Ask :=
  ⟨min ask.target Word.maxSigned64, ask.exact.filter (· ≤ Word.maxSigned64)⟩

namespace Store

variable {s : Store} {run : Int}

/-- An open run passes for open. -/
theorem Regular.ensureOpen_eq_ok (h : s.Regular) (hopen : RunRow.opened run ∈ s.runs) :
    s.ensureOpen run = .ok () := by
  have hfind : s.runs.find? (·.id == run) = some (.opened run) := h.find?_runs hopen
  rw [ensureOpen, hfind]
  rfl

/-- A run that is told to be open is open. -/
theorem Regular.mem_of_getRun (h : s.Regular) {r : Run} (hrun : s.getRun run = .ok (some r))
    (hopen : r.status = .opened) : RunRow.opened run ∈ s.runs := by
  rw [getRun] at hrun
  cases hfind : s.runs.find? (·.id == run) with
  | none =>
    rw [hfind] at hrun
    cases hrun
  | some row =>
    rw [hfind] at hrun
    obtain ⟨r', hread, hr'⟩ := exists_of_map_eq_ok hrun
    obtain rfl := Option.some.inj hr'
    obtain ⟨status, hstatus, hread⟩ := exists_of_bind_eq_ok hread
    obtain ⟨txid, -, hread⟩ := exists_of_bind_eq_ok hread
    obtain rfl := Except.ok.inj hread
    obtain rfl : status = .opened := hopen
    have hmem := List.mem_of_find?_eq_some hfind
    obtain rfl : row.id = run := by simpa using List.find?_some hfind
    cases h.runs row hmem with
    | opened id => exact hmem
    | completed id txid => cases hstatus
    | aborted id => cases hstatus

/-- What is spendable can be read. -/
theorem Written.holds_spendable (h : s.Written) : ∀ row ∈ s.spendable, ∃ o, row.Holds o := by
  intro row hrow
  obtain ⟨slot, hslot, -, rfl⟩ := mem_spendable_iff.1 hrow
  exact h slot hslot

/-- **What an open run is given** is chosen from the candidates that the spendable rows stand
for. -/
theorem Regular.allocate_eq (h : s.Regular) (hwritten : s.Written)
    (hopen : RunRow.opened run ∈ s.runs) (ask : Ask) :
    s.allocate run ask = .ok (match Candidate.choose (s.spendable.map Row.candidate) ask with
      | none => (none, s)
      | some c => (some c, s.setClaim c.id (some run))) := by
  have hrows := hwritten.holds_spendable
  rw [← pick_eq_choose hrows, allocate, h.ensureOpen_eq_ok hopen]
  cases hpick : pick s.spendable ask with
  | none => rfl
  | some row =>
    obtain ⟨o, ho⟩ := hrows row (mem_of_pick hpick)
    simp only [bind, Except.bind, ho.readCandidate_eq]
    rfl

/-- An open run gives back what it claims. -/
theorem Regular.release_eq (h : s.Regular) (hopen : RunRow.opened run ∈ s.runs) {slot : Slot}
    (hslot : slot ∈ s.slots) (hclaim : slot.claim = some run) :
    s.release run slot.row.id = .ok ((), s.setClaim slot.row.id none) := by
  have hheld : (s.slots.any fun x => x.hasId slot.row.id && x.isClaimedBy run) = true :=
    List.any_eq_true.2 ⟨slot, hslot, by simp [Slot.hasId, Slot.isClaimedBy, hclaim]⟩
  rw [release, h.ensureOpen_eq_ok hopen]
  exact if_pos hheld

/-- The claims of a run are listed as candidates. -/
theorem Written.allocations_eq (h : s.Written) (run : Int) :
    s.allocations run = .ok ((s.claimed run).map Row.candidate) := by
  have hread : ∀ row ∈ s.claimed run, ∃ c, row.readCandidate = .ok c ∧ id c = row.candidate := by
    intro row hrow
    obtain ⟨slot, hslot, -, rfl⟩ := mem_claimed_iff.1 hrow
    obtain ⟨o, ho⟩ := h slot hslot
    exact ⟨_, ho.readCandidate_eq, rfl⟩
  obtain ⟨cs, hcs, hmap⟩ := exists_mapM_eq_ok hread
  rw [List.map_id] at hmap
  rw [allocations, hcs, hmap]

/-- An output can be read, and is then the candidate its row stands for. -/
theorem Regular.exists_read_eq_ok (h : s.Regular) (hwritten : s.Written) {slot : Slot}
    (hslot : slot ∈ s.slots) :
    ∃ o, slot.row.read = .ok o ∧ o.candidate = slot.row.candidate := by
  obtain ⟨o, ho⟩ := hwritten slot hslot
  obtain ⟨spending, hspending⟩ := (h.slots slot hslot).exists_readSpending
  refine ⟨_, ho.read_eq hspending, ?_⟩
  rw [Output.candidate, ho.candidate_eq]

/-- Spendable outputs are listed, as the candidates their rows stand for. -/
theorem Regular.exists_list_eq_ok (h : s.Regular) (hwritten : s.Written) :
    ∃ outputs, s.list = .ok outputs ∧
      outputs.map Output.candidate = s.spendable.map Row.candidate := by
  refine exists_mapM_eq_ok fun row hrow => ?_
  obtain ⟨slot, hslot, -, rfl⟩ := mem_spendable_iff.1 hrow
  exact h.exists_read_eq_ok hwritten hslot

/-- **Stores answer as the selection policy has it**, whatever operations have led to a store. A
request from an open run gets what would be chosen from the list of the spendable outputs, and
nothing if and only if the list is empty. Cutting the request down to signed words does not change
the choice, even if an output is worth the largest of them. -/
theorem allocate_chooses (history : List Op) (run : Int) (r : Run) (ask : Ask)
    (hrun : (after history).getRun run = .ok (some r)) (hopen : r.status = .opened) :
    ∃ outputs, (after history).list = .ok outputs ∧
      (after history).allocate run ask
        = .ok (match Candidate.choose (outputs.map Output.candidate) ask with
          | none => (none, after history)
          | some c => (some c, (after history).setClaim c.id (some run))) ∧
      (Candidate.choose (outputs.map Output.candidate) ask = none ↔ outputs = []) ∧
      Candidate.choose (outputs.map Output.candidate) ask.signed
        = Candidate.choose (outputs.map Output.candidate) ask := by
  have hregular := regular_after history
  have hwritten := written_after history
  obtain ⟨outputs, hlist, hcandidates⟩ := hregular.exists_list_eq_ok hwritten
  refine ⟨outputs, hlist, ?_, ?_, ?_⟩
  · rw [hcandidates]
    exact hregular.allocate_eq hwritten (hregular.mem_of_getRun hrun hopen) ask
  · rw [Candidate.choose_eq_none_iff, List.map_eq_nil_iff]
  · rw [hcandidates]
    exact Candidate.choose_min (candidate_satoshis_le hwritten.holds_spendable)

/-- A store with two outputs worth the largest signed word, and a small one. -/
def twoLargest : List Op :=
  let txid : Txid := ⟨List.replicate 32 5, rfl⟩
  [.add ⟨txid, 0, 1000, []⟩, .add ⟨txid, 1, Word.maxSigned64, []⟩,
    .add ⟨txid, 2, Word.maxSigned64, []⟩, .begin]

/-- A request for the largest word there is: no output covers it, but two cover what it is cut down
to. -/
theorem allocate_chooses_twoLargest :
    (after twoLargest).getRun 1 = .ok (some ⟨1, .opened, none⟩) ∧
    (Ask.mk Word.max64 (some Word.max64)).signed = ⟨Word.maxSigned64, none⟩ ∧
    (after twoLargest).allocate 1 ⟨Word.max64, some Word.max64⟩
      = .ok (some ⟨2, Word.maxSigned64⟩, (after twoLargest).setClaim 2 (some 1)) ∧
    ∃ outputs, (after twoLargest).list = .ok outputs ∧
      (after twoLargest).allocate 1 ⟨Word.max64, some Word.max64⟩
        = .ok (match Candidate.choose (outputs.map Output.candidate)
            ⟨Word.max64, some Word.max64⟩ with
          | none => (none, after twoLargest)
          | some c => (some c, (after twoLargest).setClaim c.id (some 1))) ∧
      (Candidate.choose (outputs.map Output.candidate) ⟨Word.max64, some Word.max64⟩ = none ↔
        outputs = []) ∧
      Candidate.choose (outputs.map Output.candidate)
          (Ask.mk Word.max64 (some Word.max64)).signed
        = Candidate.choose (outputs.map Output.candidate) ⟨Word.max64, some Word.max64⟩ :=
  ⟨rfl, rfl, rfl,
    allocate_chooses twoLargest 1 ⟨1, .opened, none⟩ ⟨Word.max64, some Word.max64⟩ rfl rfl⟩

end Store

end CoinPurse
