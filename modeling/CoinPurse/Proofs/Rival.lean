import CoinPurse.Proofs.NetCount
import CoinPurse.Proofs.Opening

/-!
# What a richer pool can pay for

A first pass with one change output claims an opening, and then the largest candidates that are
left. If it starves all the same, then every selection is short that consists of the opening and
some other candidates (`Terms.Stranded`). The opening itself is not to blame. It claims no more
candidates than any selection needs that pays for the transaction without change, and to put it in
the place of some of them changes the fee of the output by a satoshi at most
(`Terms.costFor_exchange`), as long as the number of inputs is always stated in as many bytes
(`Terms.Level`). So no selection pays for the output at all.

Hence no pool with one candidate less pays for it, nor for a first change output of its own
(`Terms.Stranded.not_affords`): the two outputs are the same unless the opening claims the
candidate in question.
-/

namespace CoinPurse

/-- Fees are rounded, but for two sizes of a given sum they come to the same up to one satoshi. -/
theorem FeeModel.exact_add_exact_le (m : FeeModel) {a b a' b' : Nat} (h : a + b = a' + b') :
    m.exact a + m.exact b ≤ m.exact a' + m.exact b' + 1 := by
  have hsum : a * m.rate + b * m.rate = a' * m.rate + b' * m.rate := by
    rw [← Nat.add_mul, h, Nat.add_mul]
  simp only [exact]
  omega

namespace Terms

variable {t : Terms} {n i j i' j' amount : Nat} {amounts : List Nat}
variable {c : Candidate} {cs cs' es fs opening later paying : List Candidate}

/-- Up to so many claimed inputs the number of inputs is stated in as many bytes as without any. -/
def Level (t : Terms) (n : Nat) : Prop :=
  Size.compact t.fixedInputs.length = Size.compact (t.fixedInputs.length + n)

instance (t : Terms) (n : Nat) : Decidable (t.Level n) := inferInstanceAs (Decidable (_ = _))

/-- For any number of claimed inputs up to the level, the number of inputs is stated in as many
bytes as without any. -/
theorem Level.compact_eq (h : t.Level n) (hi : i ≤ n) :
    Size.compact (t.fixedInputs.length + i) = Size.compact t.fixedInputs.length := by
  refine Nat.le_antisymm ?_ (Size.compact_le_compact (Nat.le_add_right _ i))
  rw [h]
  exact Size.compact_le_compact (Nat.add_le_add_left hi _)

/-- At one level the sizes of two transactions depend on the sum of their inputs only. -/
theorem Level.sizeFor_exchange (h : t.Level n) (hi : i ≤ n) (hj : j ≤ n) (hi' : i' ≤ n)
    (hj' : j' ≤ n) (hsum : i + j = i' + j') (outputs outputs' : Nat) :
    t.sizeFor i outputs + t.sizeFor j outputs'
      = t.sizeFor i' outputs + t.sizeFor j' outputs' := by
  have hbytes : i * Size.input t.unlockingScript + j * Size.input t.unlockingScript
      = i' * Size.input t.unlockingScript + j' * Size.input t.unlockingScript := by
    rw [← Nat.add_mul, hsum, Nat.add_mul]
  simp only [sizeFor, Size.transaction, Size.frame, List.length_append, List.length_map,
    List.length_replicate, List.map_append, List.map_replicate, totalOf_append, totalOf_replicate,
    h.compact_eq hi, h.compact_eq hj, h.compact_eq hi', h.compact_eq hj']
  omega

/-- **Exchange.** What a change output costs hardly depends on the inputs it comes with. -/
theorem Level.costFor_exchange (h : t.Level n) (hfits : t.Fits n 1) (hi : i ≤ n) (hj : j ≤ n)
    (hi' : i' ≤ n) (hj' : j' ≤ n) (hsum : i + j = i' + j') :
    t.costFor i 1 + t.costFor j 0 ≤ t.costFor i' 1 + t.costFor j' 0 + 1 := by
  have hfees := t.feeModel.exact_add_exact_le (h.sizeFor_exchange hi hj hi' hj' hsum 1 0)
  have hone := Nat.le_refl 1
  have hnone := Nat.zero_le 1
  simp only [costFor, (hfits.anti hi hone).dueFor_eq, (hfits.anti hi' hone).dueFor_eq,
    (hfits.anti hj hnone).dueFor_eq, (hfits.anti hj' hnone).dueFor_eq]
  omega

/-- The order of the candidates does not matter. -/
theorem surplus_perm (amounts : List Nat) (h : es.Perm fs) :
    t.surplus amounts es = t.surplus amounts fs := by
  rw [surplus, surplus, totalOf_perm (h.map _), h.length_eq]

/-- What an empty selection of outputs leaves is the margin. -/
theorem surplus_nil (t : Terms) (es : List Candidate) : t.surplus [] es = t.margin es := by
  simp [surplus, margin]

/-- With the latest outputs dropped, what is left is no less. -/
theorem surplus_le_of_suffix {kept : List Nat} (h : kept <:+ amounts)
    (hfits : t.Fits es.length amounts.length) : t.surplus amounts es ≤ t.surplus kept es := by
  induction amounts with
  | nil =>
    obtain rfl := List.suffix_nil.1 h
    exact Int.le_refl _
  | cons x amounts ih =>
    rcases List.suffix_cons_iff.1 h with rfl | h
    · exact Int.le_refl _
    · exact Int.le_trans (t.surplus_cons_le hfits)
        (ih h (hfits.anti (Nat.le_refl _) (Nat.le_succ _)))

/-- A first pass on these candidates starves with this one change output: it has claimed an opening
and then everything else. -/
structure Stranded (t : Terms) (cs opening later : List Candidate) (amount : Nat) : Prop where
  /-- the change output is from the opening -/
  starts : t.Starts cs opening amount
  /-- every candidate is claimed, either for the opening or later -/
  perm : (later ++ opening).Perm cs
  /-- the opening has no more candidates than are needed without change -/
  spare : ∀ es : List Candidate, es.Subperm cs → es.length < opening.length → t.margin es < 0
  /-- the opening and some of the others are short -/
  fewest : ∀ es : List Candidate, es.Subperm later → t.surplus [amount] (es ++ opening) < 0

/-- Candidates afford a change output if they are of this pool and pay for a transaction with it,
and a run on the pool would have it. -/
structure Affords (t : Terms) (cs paying : List Candidate) (amount : Nat) : Prop where
  /-- a run has this change output -/
  starts : ∃ opening, t.Starts cs opening amount
  /-- the candidates are in the pool -/
  subperm : paying.Subperm cs
  /-- they pay for the output -/
  pays : 0 ≤ t.surplus [amount] paying
  /-- which is worth something -/
  amount_pos : 1 ≤ amount

/-- What a selection does not share with the opening was claimed later. -/
theorem Stranded.filter_subperm (h : t.Stranded cs opening later amount) (hnodup : es.Nodup)
    (hsub : es ⊆ cs) : (es.filter (· ∉ opening)).Subperm later := by
  refine List.subperm_of_subset (hnodup.filter _) fun x hx => ?_
  obtain ⟨hx, houtside⟩ := List.mem_filter.1 hx
  have hclaimed : x ∈ later ++ opening := h.perm.symm.subset (hsub hx)
  exact (List.mem_append.1 hclaimed).resolve_right (by simpa using houtside)

/-- If a selection shares the whole opening, it is short. -/
theorem Stranded.surplus_neg (h : t.Stranded cs opening later amount) (hnodup : es.Nodup)
    (hsub : es ⊆ cs) (hshared : (es.filter (· ∈ opening)).Perm opening) :
    t.surplus [amount] es < 0 := by
  have hparts : (es.filter (· ∉ opening) ++ opening).Perm es := by
    have hsplit := List.filter_append_perm (fun x => decide (x ∈ opening)) es
    refine (List.perm_append_comm.trans (hshared.symm.append_right _)).trans ?_
    simpa using hsplit
  rw [← surplus_perm [amount] hparts]
  exact h.fewest _ (h.filter_subperm hnodup hsub)

/-- A selection that does not share the whole opening cannot pay for a change output, be it worth
one satoshi. -/
theorem Stranded.surplus_neg_of_length_lt (h : t.Stranded cs opening later amount)
    (hlevel : t.Level cs.length) (hfits : t.Fits cs.length 1) (hnodup : es.Nodup) (hsub : es ⊆ cs)
    (hless : (es.filter (· ∈ opening)).length < opening.length) {other : Nat} (hother : 1 ≤ other) :
    t.surplus [other] es < 0 := by
  have hshared := h.spare _
    (List.subperm_of_subset (hnodup.filter _) fun x hx => hsub (List.mem_filter.1 hx).1) hless
  have hrest := h.filter_subperm hnodup hsub
  have hshort := h.fewest _ hrest
  have hamount := h.starts.le_margin (List.ne_nil_of_length_pos (Nat.zero_lt_of_lt hless))
  -- the selection is what it shares with the opening and the rest
  have hsplit : (es.filter (· ∈ opening) ++ es.filter (· ∉ opening)).Perm es := by
    simpa using List.filter_append_perm (fun x => decide (x ∈ opening)) es
  rw [← surplus_perm [other] hsplit]
  generalize es.filter (· ∈ opening) = shared at hless hshared ⊢
  generalize es.filter (· ∉ opening) = rest at hrest hshort ⊢
  have hroom : rest.length + opening.length ≤ cs.length := by
    rw [← h.perm.length_eq, List.length_append]
    exact Nat.add_le_add_right hrest.length_le _
  have hcost : t.costFor (rest.length + opening.length) 1 + t.costFor shared.length 0
      ≤ t.costFor (shared.length + rest.length) 1 + t.costFor opening.length 0 + 1 :=
    hlevel.costFor_exchange hfits hroom (by omega) (by omega) (by omega) (by omega)
  simp only [margin, surplus, List.map_append, totalOf_append, List.length_append, totalOf_cons,
    totalOf_nil, List.length_singleton] at hshared hshort hamount ⊢
  omega

/-- **More candidates afford more.** If a run starves with one change output, a pool with one
candidate less cannot afford a change output. -/
theorem Stranded.not_affords (h : t.Stranded cs' opening later amount)
    (hcons : cs'.Perm (c :: cs)) (hnodup : cs'.Nodup) (hfits : t.Fits cs'.length 1)
    (hlevel : (Draft.seed t).change.size ≠ 0 ∨ t.Level cs'.length) {other : Nat} :
    ¬ t.Affords cs paying other := by
  rintro ⟨⟨opening', hstarts⟩, hsubperm, hpays, hother⟩
  obtain ⟨hnew, hcs⟩ := List.nodup_cons.1 (hcons.nodup_iff.1 hnodup)
  have hpaying : paying.Nodup := by
    obtain ⟨paying', hperm, hsub⟩ := hsubperm
    exact hperm.nodup_iff.1 (hsub.nodup hcs)
  have hsub : paying ⊆ cs' := fun x hx =>
    hcons.symm.subset (List.mem_cons_of_mem c (hsubperm.subset hx))
  have hshared : (paying.filter (· ∈ opening)).Subperm opening :=
    List.subperm_of_subset (hpaying.filter _) fun x hx => by simpa using (List.mem_filter.1 hx).2
  rcases Nat.lt_or_ge (paying.filter (· ∈ opening)).length opening.length with hless | hall
  · have hlevel : t.Level cs'.length := by
      refine hlevel.resolve_left fun hseeds => ?_
      cases h.starts with
      | seeded => exact Nat.not_lt_zero _ hless
      | opened hnone => exact hseeds hnone
    have := h.surplus_neg_of_length_lt hlevel hfits hpaying hsub hless hother
    omega
  · -- the whole opening is in the smaller pool, so it is an opening there
    have hshared := hshared.perm_of_length_le hall
    have hold : c ∉ opening := fun hc =>
      hnew (hsubperm.subset (List.mem_filter.1 (hshared.symm.subset hc)).1)
    obtain rfl := ((h.starts.perm hcons).of_cons hold).unique hstarts
    have := h.surplus_neg hpaying hsub hshared
    omega

end Terms

end CoinPurse
