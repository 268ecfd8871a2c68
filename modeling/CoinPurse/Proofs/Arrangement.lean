import CoinPurse.Proofs.Accord
import CoinPurse.Proofs.Backing
import CoinPurse.Proofs.Floor
import CoinPurse.Proofs.Terms

/-!
# The arrangement of a pool does not matter

A run sees what is available to it, and not in which order. A request is answered by the same
candidate however the pool lists them (`Candidate.choose_perm`), a claim takes it from either list,
and a release puts it back. So sessions on two pools answer alike as long as the same candidates are
available in both, in whatever order (`Holding.Matches`), and runs through them are the same run
(`generate_rearranged`). What other sessions hold does not matter, nor do the numbers of the
sessions.
-/

namespace CoinPurse

variable {ε : Type}

/-- One event in two runs through allocators with the same failures is the same event. -/
theorem Event.Same.eq {x y : Event ε} (h : x.Same y) : x = y := by
  cases h <;> rfl

/-- One trace in two runs through allocators with the same failures is the same trace. -/
theorem Event.eq_of_forall₂ {xs ys : List (Event ε)} (h : List.Forall₂ Event.Same xs ys) :
    xs = ys := by
  induction h with
  | nil => rfl
  | cons hxy _ ih => rw [hxy.eq, ih]

/-- One outcome of two such runs is the same outcome. -/
theorem Outcome.Same.eq {x y : Except (Failure ε) Plan} (h : Outcome.Same x y) : x = y := by
  cases h <;> rfl

namespace Holding

/-- Two sessions hold these candidates, each in a pool of its own, and the same candidates are
available to both, in whatever order. -/
structure Matches (cs : List Candidate) (h h' : Holding) : Prop where
  /-- the first pool tells its candidates apart -/
  distinct_left : h.pool.Distinct
  /-- so does the second -/
  distinct_right : h'.pool.Distinct
  /-- the same candidates are available -/
  available : h.pool.available.Perm h'.pool.available
  /-- the first session holds what is claimed -/
  backs_left : h.Backs cs
  /-- so does the second -/
  backs_right : h'.Backs cs

variable {cs : List Candidate} {h h' : Holding} {c : Candidate}

/-- Sessions that find the same candidates match before they have claimed anything. -/
theorem matches_nil (hp : h.pool.Distinct) (hp' : h'.pool.Distinct)
    (havailable : h.pool.available.Perm h'.pool.available) : Matches [] h h' where
  distinct_left := hp
  distinct_right := hp'
  available := havailable
  backs_left := h.backs_nil
  backs_right := h'.backs_nil

/-- What is chosen can be claimed. -/
theorem exists_claim {ask : Ask} (hchoose : Candidate.choose h.pool.available ask = some c) :
    ∃ next, h.claim ask = (some c, next) := by
  simp only [claim, hchoose]
  exact ⟨_, rfl⟩

/-- **A claim finds the same in both pools**, and takes it from both. -/
theorem Matches.claim (hm : Matches cs h h') (ask : Ask) : ∃ answer next next',
    allocator.claim ask h = (.ok answer, next) ∧ allocator.claim ask h' = (.ok answer, next') ∧
      Matches (answer.toList ++ cs) next next' := by
  have hsame := Candidate.choose_perm hm.available ask
  cases hchoose : Candidate.choose h.pool.available ask with
  | none =>
    rw [hchoose] at hsame
    refine ⟨none, h, h', ?_, ?_, hm⟩
    · simp only [allocator, Holding.claim, hchoose]
    · simp only [allocator, Holding.claim, ← hsame]
  | some c =>
    obtain ⟨next, hclaim⟩ := exists_claim hchoose
    obtain ⟨next', hclaim'⟩ := exists_claim (hsame.symm.trans hchoose)
    obtain ⟨-, hcandidates, htaken⟩ := claim_eq_some hm.distinct_left hclaim
    obtain ⟨-, hcandidates', htaken'⟩ := claim_eq_some hm.distinct_right hclaim'
    refine ⟨some c, next, next', ?_, ?_, ?_⟩
    · simp only [allocator, hclaim]
    · simp only [allocator, hclaim']
    · exact {
        distinct_left := hm.distinct_left.congr hcandidates
        distinct_right := hm.distinct_right.congr hcandidates'
        available := (htaken.symm.trans (hm.available.trans htaken')).cons_inv
        backs_left := hm.backs_left.claim hm.distinct_left hclaim
        backs_right := hm.backs_right.claim hm.distinct_right hclaim' }

/-- What a session holds is in its pool. -/
theorem Backs.mem_candidates (hbacks : h.Backs (c :: cs)) : c ∈ h.pool.candidates :=
  List.mem_map.2 ⟨_, hbacks.marked c (List.mem_cons_self ..), rfl⟩

/-- **A release puts the same back in both pools.** -/
theorem Matches.release (hm : Matches (c :: cs) h h') : ∃ next next',
    allocator.release c.id h = (.ok (), next) ∧ allocator.release c.id h' = (.ok (), next') ∧
      Matches cs next next' := by
  obtain ⟨next, hrelease, hbacks⟩ := hm.backs_left.release
  obtain ⟨next', hrelease', hbacks'⟩ := hm.backs_right.release
  obtain ⟨hcandidates, hback⟩ :=
    release_eq_ok hm.distinct_left hm.backs_left.mem_candidates hrelease
  obtain ⟨hcandidates', hback'⟩ :=
    release_eq_ok hm.distinct_right hm.backs_right.mem_candidates hrelease'
  exact ⟨next, next', hrelease, hrelease', {
    distinct_left := hm.distinct_left.congr hcandidates
    distinct_right := hm.distinct_right.congr hcandidates'
    available := hback.trans ((hm.available.cons c).trans hback'.symm)
    backs_left := hbacks
    backs_right := hbacks' }⟩

/-- Sessions that match answer alike. -/
theorem allocator_alike : allocator.Alike allocator Matches where
  claim ask _ _ _ hm := hm.claim ask
  release _ _ _ _ hm := hm.release

end Holding

/-- **The arrangement of a pool does not matter.** If in two pools, each with a history of its own,
the same candidates are available, in whatever order, then a run through a session on one of them
and a run through a session on the other end with the same outcome, after the same requests and
releases with the same answers; and the same candidates are left. That is so for all terms with
random values, and for every cap on the rounds. -/
theorem generate_rearranged (cs cs' : List Candidate) (history history' : List Pool.Step)
    (name name' : String) (h h' : Holding) (entropy entropy' : Nat → Float) (cap : Nat) (t : Terms)
    (hname : ((Floor.ofList cs).after history).holding? name = some h)
    (hname' : ((Floor.ofList cs').after history').holding? name' = some h')
    (havailable : h.pool.available.Perm h'.pool.available)
    (hvalues : Draws.isReplay t.randomValues = true) :
    (generate Holding.allocator entropy cap t h).outcome
        = (generate Holding.allocator entropy' cap t h').outcome ∧
      (generate Holding.allocator entropy cap t h).trace
        = (generate Holding.allocator entropy' cap t h').trace ∧
      (generate Holding.allocator entropy cap t h).drawn
        = (generate Holding.allocator entropy' cap t h').drawn ∧
      (generate Holding.allocator entropy cap t h).source.pool.available.Perm
        (generate Holding.allocator entropy' cap t h').source.pool.available := by
  have hmatches : Holding.Matches [] h h' := Holding.matches_nil
    (Floor.distinct_of_holding? hname) (Floor.distinct_of_holding? hname') havailable
  obtain ⟨hsame, held, hm⟩ := Holding.allocator_alike.generate (t := t) cap
    (Draws.ofValues_of_isReplay hvalues entropy entropy') hmatches
  exact ⟨hsame.outcome.eq, Event.eq_of_forall₂ hsame.trace, hsame.drawn, hm.available⟩

/-- A session that finds two candidates of one amount, and a smaller one. -/
def Holding.twoEqual : Holding :=
  ⟨⟨[⟨⟨1, 700⟩, none⟩, ⟨⟨2, 5000⟩, some 0⟩, ⟨⟨3, 300⟩, none⟩, ⟨⟨4, 700⟩, none⟩], 2⟩, ⟨1, []⟩⟩

/-- A session that finds the same candidates in another pool, where others are held. -/
def Holding.reordered : Holding :=
  ⟨⟨[⟨⟨4, 700⟩, none⟩, ⟨⟨3, 300⟩, none⟩, ⟨⟨9, 60⟩, some 1⟩, ⟨⟨1, 700⟩, none⟩, ⟨⟨8, 50⟩, some 1⟩],
    3⟩, ⟨2, []⟩⟩

/-- A payment that claims both candidates of one amount, in the same order in both pools. -/
theorem generate_rearranged_twoEqual :
    ((Floor.ofList [⟨1, 700⟩, ⟨2, 5000⟩, ⟨3, 300⟩, ⟨4, 700⟩]).after
      [.openSession "other", .claim "other" ⟨2000, none⟩, .openSession "run"]).holding? "run"
        = some .twoEqual ∧
    ((Floor.ofList [⟨4, 700⟩, ⟨3, 300⟩, ⟨9, 60⟩, ⟨1, 700⟩, ⟨8, 50⟩]).after
      [.openSession "old", .openSession "other", .claim "other" ⟨55, none⟩,
        .claim "other" ⟨50, none⟩, .openSession "run"]).holding? "run" = some .reordered ∧
    Holding.twoEqual.pool.available.Perm Holding.reordered.pool.available ∧
    Draws.isReplay (some [0.5]) = true ∧
    (generate Holding.allocator (fun _ => 0) 9
        { Terms.payment 100 1000 with randomValues := some [0.5] } .twoEqual).outcome
      = .ok ⟨[⟨1, 700⟩, ⟨4, 700⟩], [⟨362, 25⟩], 374, 38, 100⟩ ∧
    (generate Holding.allocator (fun _ => 0) 9
        { Terms.payment 100 1000 with randomValues := some [0.5] } .twoEqual).outcome
      = (generate Holding.allocator (fun _ => 1) 9
        { Terms.payment 100 1000 with randomValues := some [0.5] } .reordered).outcome ∧
    (generate Holding.allocator (fun _ => 0) 9
        { Terms.payment 100 1000 with randomValues := some [0.5] } .twoEqual).trace
      = (generate Holding.allocator (fun _ => 1) 9
        { Terms.payment 100 1000 with randomValues := some [0.5] } .reordered).trace := by
  have hname : ((Floor.ofList [⟨1, 700⟩, ⟨2, 5000⟩, ⟨3, 300⟩, ⟨4, 700⟩]).after
      [.openSession "other", .claim "other" ⟨2000, none⟩, .openSession "run"]).holding? "run"
        = some .twoEqual := by decide
  have hname' : ((Floor.ofList [⟨4, 700⟩, ⟨3, 300⟩, ⟨9, 60⟩, ⟨1, 700⟩, ⟨8, 50⟩]).after
      [.openSession "old", .openSession "other", .claim "other" ⟨55, none⟩,
        .claim "other" ⟨50, none⟩, .openSession "run"]).holding? "run" = some .reordered := by
    decide
  have havailable : Holding.twoEqual.pool.available.Perm Holding.reordered.pool.available := by
    decide
  obtain ⟨houtcome, htrace, -⟩ := generate_rearranged _ _ _ _ "run" "run" .twoEqual .reordered
    (fun _ => 0) (fun _ => 1) 9 { Terms.payment 100 1000 with randomValues := some [0.5] }
    hname hname' havailable rfl
  refine ⟨hname, hname', havailable, rfl, ?_, houtcome, htrace⟩
  set_option maxRecDepth 8000 in rfl

end CoinPurse
