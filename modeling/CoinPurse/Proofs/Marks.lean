import CoinPurse.Proofs.Backing

/-!
# Lists and marks

Every claim is put down twice: the pool marks the entry with the number of the session, and the
session lists the candidate. The two are *in step* if they name the same candidates
(`Holding.InStep`). Claims, releases, aborts and whole runs keep them in step, and they leave what
the pool marks for every other session as it is (`Holding.Spares`).
-/

namespace CoinPurse

namespace Pool

variable {p : Pool} {c : Candidate} {e : Entry} {number : Nat}

/-- The candidates marked with a session, in the order of the pool. -/
def heldBy (number : Nat) (p : Pool) : List Candidate :=
  (p.entries.filter (·.holder == some number)).map (·.candidate)

/-- A candidate is marked with a session if its entry has the mark. -/
theorem mem_heldBy_iff : c ∈ p.heldBy number ↔ ⟨c, some number⟩ ∈ p.entries := by
  simp only [heldBy, List.mem_map, List.mem_filter, beq_iff_eq]
  constructor
  · rintro ⟨⟨d, holder⟩, ⟨he, rfl⟩, rfl⟩
    exact he
  · intro he
    exact ⟨_, ⟨he, rfl⟩, rfl⟩

/-- The candidates marked with a session are in the pool. -/
theorem heldBy_sublist (number : Nat) (p : Pool) : (p.heldBy number).Sublist p.candidates :=
  List.filter_sublist.map _

/-- What is free and what is held together are the whole pool. -/
theorem available_append_allocated_perm (p : Pool) :
    (p.available ++ p.allocated).Perm p.candidates := by
  have hsome : p.entries.filter (·.holder.isSome) = p.entries.filter (!·.holder.isNone) :=
    List.filter_congr fun e _ => by cases e.holder <;> rfl
  rw [available, allocated, hsome, ← List.map_append]
  exact (List.filter_append_perm _ p.entries).map _

/-- A new candidate is free. -/
theorem heldBy_insert (c : Candidate) (number : Nat) (p : Pool) :
    (p.insert c).2.heldBy number = p.heldBy number := by
  rw [insert]
  split
  · rfl
  · simp [heldBy]

/-- Marks that neither were nor become those of a session are nothing to it. -/
theorem heldBy_mark_of_ne (hp : p.Distinct) (he : e ∈ p.entries) {holder : Option Nat}
    (hbefore : e.holder ≠ some number) (hafter : holder ≠ some number) :
    (p.mark e.candidate.id holder).heldBy number = p.heldBy number := by
  have hsame := filter_eq_of_outside (fun e : Entry => e.holder == some number)
    (fun e => { e with holder }) hp.nodup_ids he (by simpa using hbefore) (by simpa using hafter)
  exact congrArg (List.map (·.candidate)) hsame

/-- Marking a free candidate adds it to what the session holds. -/
theorem heldBy_hold (hp : p.Distinct) (he : e ∈ p.entries) (hfree : e.holder = none)
    (number : Nat) :
    ((p.mark e.candidate.id (some number)).heldBy number).Perm
      (e.candidate :: p.heldBy number) := by
  have hjoins := perm_filter_of_joins (fun e : Entry => e.holder == some number)
    (fun e => { e with holder := some number }) hp.nodup_ids he (by simp [hfree]) (by simp)
  exact hjoins.map (·.candidate)

/-- Freeing a candidate takes it from what the session holds. -/
theorem heldBy_free (hp : p.Distinct) (he : e ∈ p.entries) (hheld : e.holder = some number) :
    (p.heldBy number).Perm (e.candidate :: (p.mark e.candidate.id none).heldBy number) := by
  have hleaves := perm_filter_of_leaves (fun e : Entry => e.holder == some number)
    (fun e => { e with holder := none }) hp.nodup_ids he (by simp [hheld]) rfl
  exact hleaves.map (·.candidate)

/-- A candidate is held by one session only. -/
theorem Distinct.number_eq (hp : p.Distinct) {number' : Nat} {d : Candidate}
    (hc : c ∈ p.heldBy number) (hd : d ∈ p.heldBy number') (hid : c.id = d.id) :
    number = number' := by
  have hsame := hp.eq_of_candidate_eq (mem_heldBy_iff.1 hc) (mem_heldBy_iff.1 hd) hid
  exact Option.some.inj (congrArg Entry.holder hsame)

end Pool

namespace Holding

variable {h h' h'' : Holding}

/-- The session lists exactly what the pool marks as its own. -/
structure InStep (h : Holding) : Prop where
  /-- candidates are told apart by their ids -/
  distinct : h.pool.Distinct
  /-- the list and the marks name the same candidates -/
  held_perm : h.session.held.Perm (h.pool.heldBy h.session.number)

/-- Nothing has changed but what this one session holds. -/
structure Spares (h h' : Holding) : Prop where
  /-- it is the same session -/
  number_eq : h'.session.number = h.session.number
  /-- no session was opened -/
  nextSession_eq : h'.pool.nextSession = h.pool.nextSession
  /-- the pool has the same candidates, in the same order -/
  candidates_eq : h'.pool.candidates = h.pool.candidates
  /-- every other session holds the same as before -/
  heldBy_eq : ∀ number, number ≠ h.session.number →
    h'.pool.heldBy number = h.pool.heldBy number

theorem Spares.refl (h : Holding) : h.Spares h where
  number_eq := rfl
  nextSession_eq := rfl
  candidates_eq := rfl
  heldBy_eq _ _ := rfl

theorem Spares.trans (h₁ : h.Spares h') (h₂ : h'.Spares h'') : h.Spares h'' where
  number_eq := h₂.number_eq.trans h₁.number_eq
  nextSession_eq := h₂.nextSession_eq.trans h₁.nextSession_eq
  candidates_eq := h₂.candidates_eq.trans h₁.candidates_eq
  heldBy_eq number hother := by
    rw [h₂.heldBy_eq number (by rwa [h₁.number_eq]), h₁.heldBy_eq number hother]

/-- What the session lists is in the pool. -/
theorem InStep.held_subset (h : h'.InStep) : h'.session.held ⊆ h'.pool.candidates :=
  fun _ hc => (Pool.heldBy_sublist _ _).subset (h.held_perm.subset hc)

/-- What the session lists is told apart by ids. -/
theorem InStep.nodup_ids (h : h'.InStep) : (h'.session.held.map (·.id)).Nodup :=
  (h.held_perm.map _).nodup_iff.2 (((Pool.heldBy_sublist _ _).map _).nodup h.distinct)

/-- **Claims keep step.** The candidate claimed was free, so it joins the list and the marks. -/
theorem InStep.claim (h : h'.InStep) (ask : Ask) :
    (h'.claim ask).2.InStep ∧ h'.Spares (h'.claim ask).2 := by
  cases hchoose : Candidate.choose h'.pool.available ask with
  | none =>
    simp only [Holding.claim, hchoose]
    exact ⟨h, .refl h'⟩
  | some c =>
    simp only [Holding.claim, hchoose]
    have hfree : ⟨c, none⟩ ∈ h'.pool.entries :=
      Pool.mem_entries_of_available (Candidate.choose_cases hchoose).1
    refine ⟨⟨?_, ?_⟩, ⟨rfl, rfl, Pool.candidates_mark _ _ _, fun number hother => ?_⟩⟩
    · exact h.distinct.congr (Pool.candidates_mark _ _ _)
    · have hmarked := Pool.heldBy_hold h.distinct hfree rfl h'.session.number
      exact ((List.perm_append_singleton c _).trans (h.held_perm.cons c)).trans hmarked.symm
    · refine Pool.heldBy_mark_of_ne h.distinct hfree (Option.some_ne_none _).symm ?_
      exact fun hsame => hother (Option.some.inj hsame).symm

/-- **Releases keep step.** What is given back leaves the list and the marks. -/
theorem InStep.release (h : h'.InStep) (id : Int) :
    (h'.release id).2.InStep ∧ h'.Spares (h'.release id).2 := by
  rw [Holding.release]
  split
  · rename_i hheld
    obtain ⟨e, he, hmine⟩ := List.any_eq_true.1 (Bool.and_eq_true_iff.1 hheld).2
    obtain ⟨rfl, hholder⟩ : e.candidate.id = id ∧ e.holder = some h'.session.number := by
      simpa using hmine
    refine ⟨⟨?_, ?_⟩, ⟨rfl, rfl, Pool.candidates_mark _ _ _, fun number hother => ?_⟩⟩
    · exact h.distinct.congr (Pool.candidates_mark _ _ _)
    · have hmem : e.candidate ∈ h'.session.held := by
        refine h.held_perm.mem_iff.2 (Pool.mem_heldBy_iff.2 ?_)
        rwa [← hholder]
      obtain ⟨c, before, after, -, hc, heq, herase⟩ :=
        List.exists_of_eraseP (p := (·.id == e.candidate.id)) hmem (beq_self_eq_true _)
      -- ids are distinct, so what is erased from the list is the candidate that is freed
      obtain rfl : c = e.candidate := by
        refine h.distinct.eq_of_id_eq (h.held_subset ?_) (List.mem_map_of_mem he)
          (by simpa using hc)
        rw [heq]
        exact List.mem_append_right _ (List.mem_cons_self ..)
      have hfreed := h.held_perm.trans (Pool.heldBy_free h.distinct he hholder)
      rw [heq] at hfreed
      simp only [herase]
      exact (List.perm_middle.symm.trans hfreed).cons_inv
    · refine Pool.heldBy_mark_of_ne h.distinct he ?_ (Option.some_ne_none _).symm
      rw [hholder]
      exact fun hsame => hother (Option.some.inj hsame).symm
  · exact ⟨h, .refl h'⟩

/-- A release that fails leaves everything as it was. -/
theorem eq_of_release_error {id : Int} {e : NotHeld} (hrelease : (h.release id).1 = .error e) :
    (h.release id).2 = h := by
  rw [release] at hrelease ⊢
  split at hrelease
  · cases hrelease
  · rename_i hnot
    rw [if_neg hnot]

/-- An aborted session holds nothing. -/
theorem heldBy_abort_self (h : Holding) : h.abort.2.pool.heldBy h.session.number = [] := by
  simp only [Pool.heldBy, abort, List.map_eq_nil_iff, List.filter_eq_nil_iff, List.mem_map]
  rintro _ ⟨e, -, rfl⟩
  split
  · exact Bool.false_ne_true
  · assumption

/-- What other sessions hold stays with them. -/
theorem heldBy_abort_of_ne (h : Holding) {number : Nat} (hother : number ≠ h.session.number) :
    h.abort.2.pool.heldBy number = h.pool.heldBy number := by
  simp only [Pool.heldBy, abort, List.filter_map, List.map_map]
  rw [List.filter_congr (q := fun e => e.holder == some number)]
  · refine List.map_congr_left fun e _ => ?_
    simp only [Function.comp_apply]
    split <;> rfl
  · intro e _
    simp only [Function.comp_apply]
    split
    · rename_i hmine
      rw [beq_iff_eq.1 hmine]
      simpa using hother.symm
    · rfl

/-- **Aborts keep step.** -/
theorem InStep.abort (h : h'.InStep) : h'.abort.2.InStep ∧ h'.Spares h'.abort.2 := by
  refine ⟨⟨?_, ?_⟩, ⟨rfl, rfl, candidates_abort h', fun _ hother => heldBy_abort_of_ne h' hother⟩⟩
  · exact h.distinct.congr (candidates_abort h')
  · rw [show h'.abort.2.session.number = h'.session.number from rfl, heldBy_abort_self]
    exact .refl _

/-- An abort counts what the session lists. -/
theorem InStep.abort_eq (h : h'.InStep) : h'.abort.1 = h'.session.held.length := by
  rw [h.held_perm.length_eq, Pool.heldBy, List.length_map, ← List.countP_eq_length_filter]
  rfl

/-- **Runs keep step**, whatever comes of them. -/
theorem InStep.generate (h : h'.InStep) (entropy : Nat → Float) (cap : Nat) (t : Terms) :
    (CoinPurse.generate allocator entropy cap t h').source.InStep ∧
      h'.Spares (CoinPurse.generate allocator entropy cap t h').source := by
  have hkeeps : allocator.Keeps fun k => k.InStep ∧ h'.Spares k := by
    constructor
    · intro ask k hk
      obtain ⟨hstep, hspares⟩ := hk.1.claim ask
      exact ⟨hstep, hk.2.trans hspares⟩
    · intro id k hk
      obtain ⟨hstep, hspares⟩ := hk.1.release id
      exact ⟨hstep, hk.2.trans hspares⟩
  exact hkeeps.generate entropy cap t ⟨h, .refl h'⟩

/-- A session that is finalized takes exactly what it lists out of the pool. -/
theorem InStep.finalize_eq (h : h'.InStep) :
    h'.finalize.2.entries = h'.pool.entries.filter (·.candidate ∉ h'.session.held) := by
  refine List.filter_congr fun e he => ?_
  have hiff : e.holder = some h'.session.number ↔ e.candidate ∈ h'.session.held := by
    rw [h.held_perm.mem_iff, Pool.mem_heldBy_iff]
    constructor
    · intro hholder
      rwa [← hholder]
    · intro hmarked
      exact congrArg Entry.holder (h.distinct.eq_of_candidate_eq he hmarked rfl)
  rw [Bool.eq_iff_iff, bne_iff_ne, decide_eq_true_iff]
  exact not_congr hiff

/-- What other sessions hold stays in the pool. -/
theorem heldBy_finalize_of_ne (h : Holding) {number : Nat} (hother : number ≠ h.session.number) :
    h.finalize.2.heldBy number = h.pool.heldBy number := by
  rw [Pool.heldBy, finalize, List.filter_filter, Pool.heldBy]
  congr 1
  refine List.filter_congr fun e _ => ?_
  by_cases htheirs : e.holder = some number
  · simp [htheirs, hother]
  · simp [htheirs]

end Holding

end CoinPurse
