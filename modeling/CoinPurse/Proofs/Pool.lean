import CoinPurse.Pool
import CoinPurse.Proofs.Selection
import Mathlib.Data.List.Nodup

/-!
# What claims and releases do to a pool

A pool tells its candidates apart by their ids (`Pool.Distinct`), since a candidate with an id that
is taken is not added. So marking an id marks one entry and leaves the others alone
(`exists_split_map`). It follows that a claim takes the candidate chosen from what is available and
nothing else (`Holding.claim_eq_some`), and that a release puts exactly this candidate back
(`Holding.release_eq_ok`).
-/

namespace CoinPurse

section
variable {α : Type} {key : α → Int} {xs : List α} {x : α}

/-- Where ids are distinct, changing what has a certain id changes one member of a list and leaves
those before and after it alone. -/
theorem exists_split_map (hkeys : (xs.map key).Nodup) (hx : x ∈ xs) (change : α → α) :
    ∃ before after, xs = before ++ x :: after ∧
      xs.map (fun y => if key y == key x then change y else y) = before ++ change x :: after := by
  obtain ⟨before, after, rfl⟩ := List.append_of_mem hx
  refine ⟨before, after, rfl, ?_⟩
  rw [List.map_append, List.map_cons, List.nodup_middle, List.nodup_cons, List.mem_append,
    not_or] at hkeys
  obtain ⟨⟨hbefore, hafter⟩, -⟩ := hkeys
  have hkept : ∀ {ys : List α}, key x ∉ ys.map key →
      ys.map (fun y => if key y == key x then change y else y) = ys := by
    intro ys hnot
    rw [List.map_congr_left (g := fun y => y), List.map_id']
    intro y hy
    rw [if_neg]
    rw [beq_iff_eq]
    exact fun hid => hnot (List.mem_map.2 ⟨y, hy, hid⟩)
  rw [List.map_append, List.map_cons, hkept hbefore, hkept hafter, if_pos (beq_self_eq_true _)]

variable (p : α → Bool) (change : α → α)

/-- If the change takes the member out of a selection, the others stay in it. -/
theorem perm_filter_of_leaves (hkeys : (xs.map key).Nodup) (hx : x ∈ xs) (hbefore : p x = true)
    (hafter : p (change x) = false) : (xs.filter p).Perm
      (x :: (xs.map fun y => if key y == key x then change y else y).filter p) := by
  obtain ⟨before, after, heq, hmap⟩ := exists_split_map hkeys hx change
  rw [hmap, heq, List.filter_append, List.filter_append, List.filter_cons_of_pos hbefore,
    List.filter_cons_of_neg (by rw [hafter]; exact Bool.false_ne_true)]
  exact List.perm_middle

/-- If the change leaves the member outside a selection, the selection stays what it was. -/
theorem filter_eq_of_outside (hkeys : (xs.map key).Nodup) (hx : x ∈ xs) (hbefore : p x = false)
    (hafter : p (change x) = false) :
    (xs.map fun y => if key y == key x then change y else y).filter p = xs.filter p := by
  obtain ⟨before, after, heq, hmap⟩ := exists_split_map hkeys hx change
  rw [hmap, heq, List.filter_append, List.filter_append,
    List.filter_cons_of_neg (by rw [hafter]; exact Bool.false_ne_true),
    List.filter_cons_of_neg (by rw [hbefore]; exact Bool.false_ne_true)]

/-- If the change brings the member into a selection, it joins those that were there. -/
theorem perm_filter_of_joins (hkeys : (xs.map key).Nodup) (hx : x ∈ xs) (hbefore : p x = false)
    (hafter : p (change x) = true) :
    ((xs.map fun y => if key y == key x then change y else y).filter p).Perm
      (change x :: xs.filter p) := by
  obtain ⟨before, after, heq, hmap⟩ := exists_split_map hkeys hx change
  rw [hmap, heq, List.filter_append, List.filter_append, List.filter_cons_of_pos hafter,
    List.filter_cons_of_neg (by rw [hbefore]; exact Bool.false_ne_true)]
  exact List.perm_middle

end

namespace Pool

variable {p : Pool}

/-- All candidates of a pool, free or held. -/
def candidates (p : Pool) : List Candidate := p.entries.map (·.candidate)

/-- No two candidates of a pool have one id. -/
def Distinct (p : Pool) : Prop := (p.candidates.map (·.id)).Nodup

/-- What is available is in the pool. -/
theorem available_subset (p : Pool) : p.available ⊆ p.candidates :=
  List.map_subset _ (List.filter_subset_self _)

/-- Marks leave the candidates alone. -/
@[simp] theorem candidates_mark (id : Int) (holder : Option Nat) (p : Pool) :
    (p.mark id holder).candidates = p.candidates := by
  simp only [candidates, mark, List.map_map]
  refine List.map_congr_left fun e _ => ?_
  simp only [Function.comp_apply]
  split <;> rfl

/-- Entries of a pool are told apart by the ids of their candidates. -/
theorem Distinct.nodup_ids (hp : p.Distinct) : (p.entries.map (·.candidate.id)).Nodup := by
  rwa [Distinct, candidates, List.map_map] at hp

/-- No candidate of such a pool is available twice. -/
theorem Distinct.nodup_available (hp : p.Distinct) : p.available.Nodup :=
  List.Nodup.of_map _ ((((List.filter_sublist (l := p.entries)).map _).map _).nodup hp)

/-- Ids are distinct in every pool of the same candidates. -/
theorem Distinct.congr (hp : p.Distinct) {p' : Pool} (hsame : p'.candidates = p.candidates) :
    p'.Distinct := by
  rwa [Distinct, hsame]

/-- Holding a free candidate takes it, and it alone, from what is available. -/
theorem available_hold (hp : p.Distinct) {e : Entry} (he : e ∈ p.entries) (hfree : e.holder = none)
    (number : Nat) :
    p.available.Perm (e.candidate :: (p.mark e.candidate.id (some number)).available) := by
  have hleaves := perm_filter_of_leaves (fun e : Entry => e.holder.isNone)
    (fun e => { e with holder := some number }) hp.nodup_ids he
    (Option.isNone_iff_eq_none.2 hfree) rfl
  exact hleaves.map (·.candidate)

/-- Freeing a candidate that is held adds it, and it alone, to what is available. -/
theorem available_free (hp : p.Distinct) {e : Entry} (he : e ∈ p.entries) {number : Nat}
    (hheld : e.holder = some number) :
    (p.mark e.candidate.id none).available.Perm (e.candidate :: p.available) := by
  have hjoins := perm_filter_of_joins (fun e : Entry => e.holder.isNone)
    (fun e => { e with holder := none }) hp.nodup_ids he (by rw [hheld]; rfl) rfl
  exact hjoins.map (·.candidate)

/-- Candidates of a pool are told apart by their ids. -/
theorem Distinct.eq_of_id_eq (hp : p.Distinct) {c d : Candidate} (hc : c ∈ p.candidates)
    (hd : d ∈ p.candidates) (hid : c.id = d.id) : c = d :=
  List.inj_on_of_nodup_map hp hc hd hid

/-- A candidate whose id is taken is not added, so ids stay distinct. -/
theorem Distinct.insert (hp : p.Distinct) (c : Candidate) : (p.insert c).2.Distinct := by
  rw [Pool.insert]
  split
  · exact hp
  · rename_i hany
    simp only [Distinct, candidates, List.map_append, List.map_cons, List.map_nil]
    refine List.nodup_append'.2 ⟨hp, List.nodup_singleton _, ?_⟩
    rw [List.disjoint_singleton]
    intro hmem
    obtain ⟨x, hx, hid⟩ := List.mem_map.1 hmem
    obtain ⟨e, he, rfl⟩ := List.mem_map.1 hx
    exact hany (List.any_eq_true.2 ⟨e, he, by simpa using hid⟩)

/-- Candidates with distinct ids are all added, and all free. -/
theorem entries_ofList {cs : List Candidate} (h : (cs.map (·.id)).Nodup) :
    (ofList cs).entries = cs.map fun c => ⟨c, none⟩ := by
  -- candidates are added at the end, so the induction takes them away there
  induction cs using List.reverseRecOn with
  | nil => rfl
  | append_singleton cs c ih =>
    rw [List.map_append, List.map_singleton] at h
    obtain ⟨hcs, -, hnew⟩ := List.nodup_append'.1 h
    rw [List.disjoint_singleton] at hnew
    have hadded : (ofList (cs ++ [c])) = ((ofList cs).insert c).2 := List.foldl_concat ..
    have hfree : ¬ (ofList cs).entries.any (·.candidate.id == c.id) = true := by
      rw [ih hcs, List.any_map, List.any_eq_true]
      rintro ⟨d, hd, hid⟩
      exact hnew (List.mem_map.2 ⟨d, hd, by simpa using hid⟩)
    rw [hadded, insert, if_neg hfree, ih hcs, List.map_append, List.map_singleton]

/-- A pool made of a list has distinct ids, whatever the list. -/
theorem distinct_ofList (cs : List Candidate) : (ofList cs).Distinct := by
  suffices h : ∀ p : Pool, p.Distinct → (cs.foldl (fun p c => (p.insert c).2) p).Distinct from
    h empty List.nodup_nil
  induction cs with
  | nil => exact fun _ hp => hp
  | cons c cs ih => exact fun p hp => ih _ (hp.insert c)

end Pool

namespace Holding

variable {h h' : Holding} {ask : Ask} {c : Candidate} {id : Int}

/-- A claim that finds nothing finds nothing available, and changes nothing. -/
theorem claim_eq_none (hclaim : h.claim ask = (none, h')) : h.pool.available = [] ∧ h' = h := by
  rw [claim] at hclaim
  cases hchoose : Candidate.choose h.pool.available ask with
  | none =>
    rw [hchoose] at hclaim
    exact ⟨Candidate.choose_eq_none_iff.1 hchoose, (Prod.mk.inj hclaim).2.symm⟩
  | some d =>
    rw [hchoose] at hclaim
    cases hclaim

/-- **What a claim does.** It takes the candidate chosen from what is available. -/
theorem claim_eq_some (hp : h.pool.Distinct) (hclaim : h.claim ask = (some c, h')) :
    Candidate.choose h.pool.available ask = some c ∧ h'.pool.candidates = h.pool.candidates ∧
      h.pool.available.Perm (c :: h'.pool.available) := by
  rw [claim] at hclaim
  cases hchoose : Candidate.choose h.pool.available ask with
  | none =>
    rw [hchoose] at hclaim
    cases hclaim
  | some d =>
    rw [hchoose] at hclaim
    obtain ⟨hd, rfl⟩ := Prod.mk.inj hclaim
    obtain rfl := Option.some.inj hd
    obtain ⟨e, he, rfl⟩ := List.mem_map.1 (Candidate.choose_cases hchoose).1
    obtain ⟨he, hfree⟩ := List.mem_filter.1 he
    exact ⟨rfl, Pool.candidates_mark _ _ _,
      Pool.available_hold hp he (Option.isNone_iff_eq_none.1 hfree) _⟩

/-- **What a release does.** It puts the candidate with this id back. -/
theorem release_eq_ok (hp : h.pool.Distinct) (hc : c ∈ h.pool.candidates)
    (hrelease : h.release c.id = (.ok (), h')) :
    h'.pool.candidates = h.pool.candidates ∧
      h'.pool.available.Perm (c :: h.pool.available) := by
  rw [release] at hrelease
  split at hrelease
  · rename_i hheld
    obtain ⟨-, rfl⟩ := Prod.mk.inj hrelease
    obtain ⟨e, he, hmine⟩ := List.any_eq_true.1 (Bool.and_eq_true_iff.1 hheld).2
    obtain ⟨hid, hholder⟩ : e.candidate.id = c.id ∧ e.holder = some h.session.number := by
      simpa using hmine
    obtain rfl : e.candidate = c := hp.eq_of_id_eq (List.mem_map_of_mem he) hc hid
    exact ⟨Pool.candidates_mark _ _ _, Pool.available_free hp he hholder⟩
  · cases hrelease

/-- Claims leave the candidates of the pool alone. -/
theorem candidates_claim (ask : Ask) (h : Holding) :
    (h.claim ask).2.pool.candidates = h.pool.candidates := by
  rw [claim]
  split
  · rfl
  · exact Pool.candidates_mark _ _ _

/-- Releases leave the candidates of the pool alone. -/
theorem candidates_release (id : Int) (h : Holding) :
    (h.release id).2.pool.candidates = h.pool.candidates := by
  rw [release]
  split
  · exact Pool.candidates_mark _ _ _
  · rfl

/-- Aborting leaves the candidates of the pool alone. -/
theorem candidates_abort (h : Holding) : h.abort.2.pool.candidates = h.pool.candidates := by
  simp only [Pool.candidates, abort, List.map_map]
  refine List.map_congr_left fun e _ => ?_
  simp only [Function.comp_apply]
  split <;> rfl

/-- Finalizing takes candidates out of the pool and adds none. -/
theorem candidates_finalize (h : Holding) :
    h.finalize.2.candidates.Sublist h.pool.candidates :=
  List.filter_sublist.map _

end Holding

end CoinPurse
