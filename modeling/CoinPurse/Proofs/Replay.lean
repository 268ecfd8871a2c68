import CoinPurse.Proofs.Chance

/-!
# Replaying a run

A run lists the random values it has drawn. Given this list instead of the values or the entropy it
had, the run draws the same values again, one by one, and so does the same (`generate_replays`).

How many values a distribution draws depends on the values themselves. What makes the replay work is
that it is *causal* (`Draws.Causal`): it looks at the values it takes, one after another, and at no
other values of the stream. So it cannot tell two streams apart that agree in the values it takes
from the first of them. The list drawn is as long as that, and the replay does not come to its end
early.
-/

namespace CoinPurse

namespace Draws

variable {α β : Type}

/-- A procedure that takes values from a stream and depends on no others. -/
structure Causal (f : Draws → α × Draws) : Prop where
  /-- the stream stays the same -/
  stream_eq : ∀ d, (f d).2.stream = d.stream
  /-- values that were taken stay taken -/
  taken_le : ∀ d, d.taken ≤ (f d).2.taken
  /-- on a stream with the same values, as far as they are taken, it does the same -/
  eq_of_agree : ∀ d stream, (∀ k < (f d).2.taken, stream k = d.stream k) →
    f ⟨stream, d.taken⟩ = ((f d).1, ⟨stream, (f d).2.taken⟩)

namespace Causal

variable {f : Draws → α × Draws} {g : α → Draws → β × Draws}

/-- A procedure that draws nothing is causal. -/
theorem pure (x : α) : Causal fun d => (x, d) where
  stream_eq _ := rfl
  taken_le _ := Nat.le_refl _
  eq_of_agree _ _ _ := rfl

/-- What is done after a draw may depend on what was drawn. -/
theorem bind (hf : Causal f) (hg : ∀ x, Causal (g x)) : Causal fun d => g (f d).1 (f d).2 where
  stream_eq d := ((hg _).stream_eq _).trans (hf.stream_eq d)
  taken_le d := Nat.le_trans (hf.taken_le d) ((hg _).taken_le _)
  eq_of_agree d stream hagree := by
    have hfirst : f ⟨stream, d.taken⟩ = ((f d).1, ⟨stream, (f d).2.taken⟩) :=
      hf.eq_of_agree d stream fun k hk => hagree k (Nat.lt_of_lt_of_le hk ((hg _).taken_le _))
    rw [hfirst]
    refine (hg _).eq_of_agree _ stream fun k hk => ?_
    rw [hf.stream_eq]
    exact hagree k hk

/-- A number is drawn by taking one value. -/
theorem between (low high : Nat) : Causal (Draws.between low high) where
  stream_eq _ := rfl
  taken_le d := Nat.le_succ d.taken
  eq_of_agree d stream hagree := by
    have hvalue : stream d.taken = d.stream d.taken := hagree _ (Nat.lt_succ_self _)
    simp only [Draws.between, next, hvalue]

/-- **Handing out random shares is causal.** -/
theorem scatter (steps left : Nat) (amounts : List Nat) :
    Causal (Distribution.scatter steps left amounts) := by
  induction steps generalizing left amounts with
  | zero => exact .pure amounts
  | succ steps ih =>
    by_cases hleft : left = 0
    · have hdone : Distribution.scatter (steps + 1) left amounts = fun d => (amounts, d) := by
        funext d
        rw [Distribution.scatter, if_pos hleft]
      rw [hdone]
      exact .pure amounts
    · -- one share: its size is drawn, then its place, and the rest is handed out after that
      have hshare := (between 2500 5000).bind fun percent =>
        (between 0 (amounts.length - 1)).bind fun place =>
          ih (left - Distribution.share percent left)
            (amounts.modify place (· + Distribution.share percent left))
      show Causal fun d => Distribution.scatter (steps + 1) left amounts d
      simp only [Distribution.scatter, if_neg hleft]
      exact hshare

/-- Handing out a surplus is causal. -/
theorem spread (initial surplus : Nat) (amounts : List Nat) :
    Causal (Distribution.spread initial surplus amounts) := by
  rcases amounts with _ | ⟨first, _ | ⟨second, rest⟩⟩
  · exact .pure []
  · exact .pure [first + surplus]
  · exact scatter _ _ _

end Causal

/-- There are as many values drawn as were taken. -/
theorem length_drawn (d : Draws) : d.drawn.length = d.taken := by
  rw [drawn, List.length_map, List.length_range]

/-- As long as it lasts, a list of values drawn repeats the stream. -/
theorem cycle_drawn {d : Draws} {k : Nat} (hk : k < d.taken) : cycle d.drawn k = d.stream k := by
  rw [cycle, length_drawn, Nat.mod_eq_of_lt hk, drawn, List.getElem?_map,
    List.getElem?_range hk, Option.map_some, Option.getD_some]

/-- Given values are handed out over and over, and no others. -/
theorem cycle_mem {values : List Float} (hne : values ≠ []) (k : Nat) :
    cycle values k ∈ values := by
  have hlt : k % values.length < values.length := Nat.mod_lt k (List.length_pos_iff.2 hne)
  rw [cycle, List.getElem?_eq_getElem hlt, Option.getD_some]
  exact List.getElem_mem hlt

/-- Values that are given are repeated from the first on. -/
theorem ofValues_some {values : List Float} (entropy : Nat → Float) (hne : values ≠ []) :
    ofValues entropy (some values) = ⟨cycle values, 0⟩ := by
  cases values with
  | nil => exact absurd rfl hne
  | cons v vs => rfl

/-- Draws start with the first value of some stream. -/
theorem exists_ofValues (entropy : Nat → Float) (values : Option (List Float)) :
    ∃ stream, ofValues entropy values = ⟨stream, 0⟩ := by
  rcases values with _ | _ | ⟨v, vs⟩ <;> exact ⟨_, rfl⟩

/-- If values are given, it has no others. -/
theorem exists_ofValues_of_isReplay {values : Option (List Float)} (h : isReplay values = true)
    (entropy : Nat → Float) :
    ∃ stream, ofValues entropy values = ⟨stream, 0⟩ ∧ ∀ k, stream k ∈ values.getD [] := by
  rcases values with _ | _ | ⟨v, vs⟩
  · cases h
  · cases h
  · exact ⟨_, rfl, cycle_mem (List.cons_ne_nil v vs)⟩

namespace Causal

variable {f : Draws → α × Draws} (hf : Causal f) {stream stream' : Nat → Float}
include hf

/-- Of two streams that agree in the values taken, it makes the same, and draws the same. -/
theorem congr (hagree : ∀ k < (f ⟨stream, 0⟩).2.taken, stream' k = stream k) :
    (f ⟨stream', 0⟩).1 = (f ⟨stream, 0⟩).1 ∧
      (f ⟨stream', 0⟩).2.drawn = (f ⟨stream, 0⟩).2.drawn := by
  rw [hf.eq_of_agree ⟨stream, 0⟩ stream' hagree]
  refine ⟨rfl, List.map_congr_left fun k hk => ?_⟩
  rw [hf.stream_eq]
  exact hagree k (List.mem_range.1 hk)

/-- **What was drawn replays the draws.** -/
theorem replay (stream : Nat → Float) :
    (f ⟨cycle (f ⟨stream, 0⟩).2.drawn, 0⟩).1 = (f ⟨stream, 0⟩).1 ∧
      (f ⟨cycle (f ⟨stream, 0⟩).2.drawn, 0⟩).2.drawn = (f ⟨stream, 0⟩).2.drawn := by
  refine hf.congr fun k hk => ?_
  rw [cycle_drawn hk, hf.stream_eq]

/-- If nothing was drawn, the stream does not matter. -/
theorem congr_of_drawn_nil (hnone : (f ⟨stream, 0⟩).2.drawn = []) (stream' : Nat → Float) :
    (f ⟨stream', 0⟩).1 = (f ⟨stream, 0⟩).1 ∧
      (f ⟨stream', 0⟩).2.drawn = (f ⟨stream, 0⟩).2.drawn := by
  refine hf.congr fun k hk => ?_
  rw [← length_drawn, hnone] at hk
  exact absurd hk (Nat.not_lt_zero k)

/-- What was drawn comes from the stream. -/
theorem exists_of_mem_drawn {v : Float} (hv : v ∈ (f ⟨stream, 0⟩).2.drawn) :
    ∃ k, stream k = v := by
  obtain ⟨k, -, rfl⟩ := List.mem_map.1 hv
  exact ⟨k, by rw [hf.stream_eq]⟩

end Causal

end Draws

/-- Distribution is causal. -/
theorem Draft.finish_causal (t : Terms) (d : Draft) : Draws.Causal (d.finish t) :=
  .spread _ _ _

/-- Terms that pass the check pass it with other values, if these can be used. -/
theorem Terms.Accepted.withValues {t : Terms} {values : Option (List Float)} (h : t.Accepted)
    (husable : ∀ v ∈ values.getD [], usable v = true) : (t.withValues values).Accepted :=
  { h with values_usable := husable }

variable {σ ε : Type}

/-- **A run is causal.** Its outcome and the values drawn come of a causal procedure, and all else
does not depend on the draws. -/
theorem generate_causal (a : Allocator σ ε) (t : Terms) (cap : Nat) (source : σ)
    (hcheck : t.check = .ok ()) :
    ∃ (f : Draws → Except (Failure ε) Plan × Draws) (next : σ) (trace : List (Event ε)),
      Draws.Causal f ∧ ∀ entropy values stream, (t.withValues values).check = .ok () →
        Draws.ofValues entropy values = ⟨stream, 0⟩ →
        generate a entropy cap (t.withValues values) source
          = ⟨(f ⟨stream, 0⟩).1, (f ⟨stream, 0⟩).2.drawn, next, trace⟩ := by
  rcases generate_cases a t cap source hcheck with ⟨r, hnone, heq⟩ | ⟨s, -, -, heq⟩
  · refine ⟨fun d => (r.outcome, d), r.source, r.trace, .pure _, ?_⟩
    intro entropy values stream hvalues hstream
    have hempty : (⟨stream, 0⟩ : Draws).drawn = r.drawn := hnone.symm
    rw [heq entropy values hvalues, hempty]
  · have hsettle := (s.draft.finish_causal t).bind fun amounts =>
      .pure (Except.ok (s.draft.plan t amounts (s.draft.dueWith t 0 0)) : Except (Failure ε) Plan)
    refine ⟨_, s.source, s.trace.reverse, hsettle, ?_⟩
    intro entropy values stream hvalues hstream
    rw [heq entropy values hvalues, hstream]
    rfl

/-- **Recorded draws replay the run.** A run on terms that pass the check and give random values
lists the values it draws. With this list instead of the values given, a run from the same state of
the allocator is the same, and draws the same. If the list is empty, the run is the same with any
values that pass the check. -/
theorem generate_replays (a : Allocator σ ε) (entropy entropy' : Nat → Float) (cap : Nat)
    (t : Terms) (source : σ) (hcheck : t.check = .ok ())
    (hvalues : Draws.isReplay t.randomValues = true) :
    ((generate a entropy cap t source).drawn ≠ [] →
      generate a entropy' cap (t.withValues (some (generate a entropy cap t source).drawn)) source
        = generate a entropy cap t source) ∧
    ((generate a entropy cap t source).drawn = [] → ∀ values,
      (t.withValues values).check = .ok () →
      generate a entropy' cap (t.withValues values) source
        = generate a entropy cap t source) := by
  obtain ⟨stream, hstream, hmem⟩ := Draws.exists_ofValues_of_isReplay hvalues entropy
  obtain ⟨f, next, trace, hf, hrun⟩ := generate_causal a t cap source hcheck
  have haccepted := t.check_eq_ok_iff.1 hcheck
  have hfirst : generate a entropy cap t source
      = ⟨(f ⟨stream, 0⟩).1, (f ⟨stream, 0⟩).2.drawn, next, trace⟩ :=
    hrun entropy t.randomValues stream hcheck hstream
  rw [hfirst]
  constructor
  · intro hne
    have hagain : (t.withValues (some (f ⟨stream, 0⟩).2.drawn)).check = .ok () := by
      rw [Terms.check_eq_ok_iff]
      refine haccepted.withValues fun v hv => ?_
      obtain ⟨k, rfl⟩ := hf.exists_of_mem_drawn hv
      exact haccepted.values_usable _ (hmem k)
    obtain ⟨houtcome, hdrawn⟩ := hf.replay stream
    rw [hrun entropy' _ _ hagain (Draws.ofValues_some entropy' hne), houtcome, hdrawn]
  · intro hnone values hother
    obtain ⟨stream', hstream'⟩ := Draws.exists_ofValues entropy' values
    obtain ⟨houtcome, hdrawn⟩ := hf.congr_of_drawn_nil hnone stream'
    rw [hrun entropy' values stream' hother hstream', houtcome, hdrawn]

/-- A payment that draws the one value it is given twice, and a payment with a single change output,
that draws none. -/
theorem generate_replays_oneValue :
    (Terms.twoMore.withValues (some [0.5])).check = .ok () ∧
    Draws.isReplay (Terms.twoMore.withValues (some [0.5])).randomValues = true ∧
    (generate Holding.allocator (fun _ => 0) 20 (Terms.twoMore.withValues (some [0.5]))
      .ofTwo).drawn = [0.5, 0.5] ∧
    generate Holding.allocator (fun _ => 1) 20 (Terms.twoMore.withValues (some [0.5, 0.5])) .ofTwo
      = generate Holding.allocator (fun _ => 0) 20 (Terms.twoMore.withValues (some [0.5])) .ofTwo ∧
    ((Terms.payment 100 1000).withValues (some [0.5])).check = .ok () ∧
    (generate Holding.allocator (fun _ => 0) 20 ((Terms.payment 100 1000).withValues (some [0.5]))
      .ofTwo).drawn = [] ∧
    ((Terms.payment 100 1000).withValues (some [0.25])).check = .ok () ∧
    generate Holding.allocator (fun _ => 1) 20 ((Terms.payment 100 1000).withValues (some [0.25]))
        .ofTwo
      = generate Holding.allocator (fun _ => 0) 20
        ((Terms.payment 100 1000).withValues (some [0.5])) .ofTwo := by
  have hdrawn : (generate Holding.allocator (fun _ => 0) 20
      (Terms.twoMore.withValues (some [0.5])) .ofTwo).drawn = [0.5, 0.5] := by
    set_option maxRecDepth 8000 in rfl
  have hnone : (generate Holding.allocator (fun _ => 0) 20
      ((Terms.payment 100 1000).withValues (some [0.5])) .ofTwo).drawn = [] := by
    set_option maxRecDepth 8000 in rfl
  refine ⟨rfl, rfl, hdrawn, ?_, rfl, hnone, rfl, ?_⟩
  · have hreplay := (generate_replays Holding.allocator (fun _ => 0) (fun _ => 1) 20
      (Terms.twoMore.withValues (some [0.5])) .ofTwo rfl rfl).1
    rw [hdrawn] at hreplay
    exact hreplay (List.cons_ne_nil _ _)
  · exact (generate_replays Holding.allocator (fun _ => 0) (fun _ => 1) 20
      ((Terms.payment 100 1000).withValues (some [0.5])) .ofTwo rfl rfl).2 hnone _ rfl

end CoinPurse
