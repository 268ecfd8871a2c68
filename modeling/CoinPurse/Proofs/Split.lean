import CoinPurse.Generation
import CoinPurse.Proofs.Draft
import CoinPurse.Proofs.Pool
import CoinPurse.Proofs.Turns

/-!
# How a run divides a pool

While change generation runs on a session, every candidate that was available at its start is either
claimed by the run or still available, and each of them only once (`Stage.Splits`). Every turn keeps
this up, since a claim takes one candidate from what is available, and a starved pass puts all its
claims back (`Turn.splits`).
-/

namespace CoinPurse

/-- A session never fails to answer a request. -/
theorem Holding.allocator_claim_ne_error {ask : Ask} {h h' : Holding} {e : NotHeld} :
    Holding.allocator.claim ask h ≠ (.error e, h') := by
  intro hreply
  simp [Holding.allocator] at hreply

/-- What a session answers to a request is what it has claimed. -/
theorem Holding.claim_of_allocator {ask : Ask} {h h' : Holding} {answer : Option Candidate}
    (hreply : Holding.allocator.claim ask h = (.ok answer, h')) : h.claim ask = (answer, h') := by
  rcases hclaim : h.claim ask with ⟨answer', h''⟩
  simp only [Holding.allocator, hclaim] at hreply
  obtain ⟨hanswer, rfl⟩ := Prod.mk.inj hreply
  rw [Except.ok.inj hanswer]

/-- Giving back candidates of the pool puts them, and nothing else, back with what is available. -/
theorem giveBack_available {held : List Candidate} {h h' : Holding}
    {history history' : List (Event NotHeld)} (hp : h.pool.Distinct)
    (hheld : held ⊆ h.pool.candidates)
    (hback : Progress.giveBack Holding.allocator held h history = (none, h', history')) :
    h'.pool.candidates = h.pool.candidates ∧
      (held ++ h.pool.available).Perm h'.pool.available := by
  induction held generalizing h history with
  | nil =>
    obtain ⟨rfl, -⟩ : h = h' ∧ history = history' := by simpa [Progress.giveBack] using hback
    exact ⟨rfl, .refl _⟩
  | cons c rest ih =>
    obtain ⟨hc, hrest⟩ := List.cons_subset.1 hheld
    rw [Progress.giveBack] at hback
    rcases hrelease : h.release c.id with ⟨e | ⟨⟩, h₁⟩
    · simp [Holding.allocator, hrelease] at hback
    · simp only [Holding.allocator, hrelease] at hback
      -- one candidate is back and the ids are as distinct as before, so the rest can follow
      obtain ⟨hcandidates, havailable⟩ := Holding.release_eq_ok hp hc hrelease
      have hp₁ : h₁.pool.Distinct := hp.congr hcandidates
      obtain ⟨hcandidates', havailable'⟩ := ih hp₁ (by rwa [hcandidates]) hback
      refine ⟨hcandidates'.trans hcandidates, ?_⟩
      exact List.perm_middle.symm.trans ((havailable.symm.append_left rest).trans havailable')

/-- The candidates `cs` of a pool are divided into those a run claims and those still available. -/
structure Stage.Splits (cs : List Candidate) (g : Stage Holding NotHeld) : Prop where
  /-- candidates are told apart by their ids -/
  distinct : g.run.source.pool.Distinct
  /-- the candidates are in the pool -/
  subset : cs ⊆ g.run.source.pool.candidates
  /-- each is either claimed or available, and only once -/
  perm : (g.run.draft.claimed.items ++ g.run.source.pool.available).Perm cs

variable {cs : List Candidate} {g g' : Stage Holding NotHeld} {t : Terms}

/-- A run claims no more candidates than there are. -/
theorem Stage.Splits.size_le (h : g.Splits cs) :
    g.run.draft.claimed.size + g.run.source.pool.available.length = cs.length := by
  rw [← h.perm.length_eq, List.length_append, g.run.draft.claimed.size_eq]

/-- Whatever is claimed is one of the candidates. -/
theorem Stage.Splits.claimed_subset (h : g.Splits cs) : g.run.draft.claimed.items ⊆ cs :=
  fun _ hc => h.perm.subset (List.mem_append_left _ hc)

/-- When nothing is available any more, every candidate is claimed. -/
theorem Stage.Splits.perm_of_available_eq_nil (h : g.Splits cs)
    (hempty : g.run.source.pool.available = []) : g.run.draft.claimed.items.Perm cs := by
  have hperm := h.perm
  rwa [hempty, List.append_nil] at hperm

/-- When a request finds nothing, every candidate is claimed. -/
theorem Stage.Splits.perm_of_claim_none {source : Holding} (h : g.Splits cs)
    (hreply : Holding.allocator.claim (g.run.draft.ask t) g.run.source = (.ok none, source)) :
    source = g.run.source ∧ g.run.draft.claimed.items.Perm cs := by
  obtain ⟨hempty, hsame⟩ := Holding.claim_eq_none (Holding.claim_of_allocator hreply)
  exact ⟨hsame, h.perm_of_available_eq_nil hempty⟩

/-- What is claimed was available, and there is one candidate for every claim. -/
theorem Stage.Splits.of_claim_some {c : Candidate} {source : Holding} (h : g.Splits cs)
    (hreply : Holding.allocator.claim (g.run.draft.ask t) g.run.source = (.ok (some c), source)) :
    Candidate.choose g.run.source.pool.available (g.run.draft.ask t) = some c ∧
      c ∈ g.run.source.pool.available ∧ source.pool.available ⊆ g.run.source.pool.available ∧
      g.run.draft.claimed.size + 1 ≤ cs.length := by
  obtain ⟨hchoose, -, havailable⟩ :=
    Holding.claim_eq_some h.distinct (Holding.claim_of_allocator hreply)
  have hc : c ∈ g.run.source.pool.available := havailable.symm.subset (List.mem_cons_self ..)
  refine ⟨hchoose, hc, fun x hx => havailable.symm.subset (List.mem_cons_of_mem _ hx), ?_⟩
  rw [← h.size_le]
  exact Nat.add_le_add_left (List.length_pos_of_mem hc) _

/-- Every turn keeps the candidates divided. -/
theorem Turn.splits (h : g.Splits cs) (hturn : Turn Holding.allocator t g g') : g'.Splits cs := by
  cases hturn with
  | @claim growing rounds s c source hshort hreply =>
    obtain ⟨-, hcandidates, havailable⟩ :=
      Holding.claim_eq_some h.distinct (Holding.claim_of_allocator hreply)
    constructor
    · rw [Pool.Distinct, Progress.claimed, Progress.answered, hcandidates]
      exact h.distinct
    · rw [Progress.claimed, Progress.answered, hcandidates]
      exact h.subset
    · rw [Progress.items_claimed]
      exact List.perm_middle.symm.trans ((havailable.symm.append_left _).trans h.perm)
  | @starve growing rounds s s' source hshort hchange hreply hback =>
    obtain ⟨rfl, -⟩ := h.perm_of_claim_none hreply
    obtain ⟨hgive, hdraft⟩ := Progress.giveBack_of_releaseAll hback
    obtain ⟨hcandidates, havailable⟩ :=
      giveBack_available h.distinct (fun _ hc => h.subset (h.claimed_subset hc)) hgive
    constructor
    · rw [Pool.Distinct, Progress.starve, hcandidates]
      exact h.distinct
    · rw [Progress.starve, hcandidates]
      exact h.subset
    · exact havailable.symm.trans h.perm

/-- At its start a run claims nothing, and the candidates are those available. -/
theorem splits_start (t : Terms) (cap : Nat) {h : Holding} (hp : h.pool.Distinct) :
    Stage.Splits h.pool.available ⟨true, cap, .start t h⟩ where
  distinct := hp
  subset := h.pool.available_subset
  perm := by
    rw [Progress.start, Draft.claimed_seed]
    exact .refl _

end CoinPurse
