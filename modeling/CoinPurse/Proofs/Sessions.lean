import CoinPurse.Proofs.Floor
import CoinPurse.Proofs.Marks

/-!
# Sessions that share a pool

Any number of sessions may use one pool, one after another and side by side, and end in any way or
not at all. At every time each of them lists exactly what the pool marks as its own, so that no
candidate is held twice; and no step of one session touches what another one holds
(`Floor.after_inStep`).

Sessions are told apart by their numbers, which are not given out twice, so that nothing can be
marked with a number not given out yet (`Floor.Regular`).
-/

namespace CoinPurse

/-- The session that a step uses or ends. -/
def Pool.Step.user : Pool.Step → Option String
  | .insert _ | .openSession _ => none
  | .claim name _ | .release name _ | .abort name | .finalize name | .generate name .. => some name

namespace Floor

variable {f : Floor} {name : String} {h h' : Holding} {x : String × Session}

/-- What every step keeps true. -/
structure Regular (f : Floor) : Prop where
  /-- candidates are told apart by their ids -/
  distinct : f.pool.Distinct
  /-- live sessions are told apart by their names -/
  names : (f.sessions.map (·.1)).Nodup
  /-- and by their numbers -/
  numbers : (f.sessions.map (·.2.number)).Nodup
  /-- their numbers have been given out -/
  number_lt : ∀ x ∈ f.sessions, x.2.number < f.pool.nextSession
  /-- each of them lists what is marked with its number -/
  held_perm : ∀ x ∈ f.sessions, x.2.held.Perm (f.pool.heldBy x.2.number)
  /-- nothing is marked with a number that has not been given out -/
  fresh : ∀ number, f.pool.nextSession ≤ number → f.pool.heldBy number = []

/-- **The kinds of steps.** A step adds a candidate, opens a session, ends one, or lets one do
something that keeps it in step with the pool. -/
inductive Move (f : Floor) : Pool.Step → Prop where
  | insert (c : Candidate) : Move f (.insert c)
  | openSession (name : String) : Move f (.openSession name)
  | finalize (name : String) : Move f (.finalize name)
  | act {s : Pool.Step} {name : String} {act : Holding → Pool.Answer × Holding}
      (huser : s.user = some name) (heq : f.step s = f.withSession name act)
      (hact : ∀ h : Holding, h.InStep → (act h).2.InStep ∧ h.Spares (act h).2) : Move f s

/-- Every step moves a floor in one of these ways. -/
theorem move (f : Floor) (s : Pool.Step) : f.Move s := by
  cases s with
  | insert c => exact .insert c
  | openSession name => exact .openSession name
  | finalize name => exact .finalize name
  | claim name ask =>
    refine .act rfl (by rw [step]) ?_
    exact fun h hh => hh.claim ask
  | release name id =>
    refine .act rfl (by rw [step]) ?_
    exact fun h hh => hh.release id
  | abort name =>
    refine .act rfl (by rw [step]) ?_
    exact fun h hh => hh.abort
  | generate name entropy rounds t =>
    refine .act rfl (by rw [step]) ?_
    exact fun h hh => hh.generate entropy rounds t

/-- A session that is seen is live. -/
theorem mem_of_holding? (hname : f.holding? name = some h) : (name, h.session) ∈ f.sessions := by
  obtain ⟨⟨n, session⟩, hfind, rfl⟩ := Option.map_eq_some_iff.1 hname
  obtain rfl : n = name := by simpa using List.find?_some hfind
  exact List.mem_of_find?_eq_some hfind

/-- When a session has done something, the pool is left as the session leaves it. -/
theorem pool_put (name : String) (h : Holding) (f : Floor) : (f.put name h).pool = h.pool := rfl

/-- When a session has done something, it is live, and so are the others. -/
theorem mem_put (hx : x ∈ (f.put name h').sessions) :
    x = (name, h'.session) ∨ x ∈ f.sessions ∧ x.1 ≠ name := by
  obtain ⟨⟨n, session⟩, hmem, rfl⟩ := List.mem_map.1 hx
  by_cases hsame : n = name
  · subst hsame
    exact .inl (if_pos (beq_self_eq_true n))
  · dsimp only
    rw [if_neg (by simpa using hsame)]
    exact .inr ⟨hmem, hsame⟩

/-- When a session has done something, the others have not changed. -/
theorem mem_put_of_ne (hx : x ∈ f.sessions) (hother : x.1 ≠ name) :
    x ∈ (f.put name h').sessions :=
  List.mem_map.2 ⟨x, hx, if_neg (by simpa using hother)⟩

/-- The other sessions do not change when a session is asked for something. -/
theorem mem_withSession_of_ne {act : Holding → Pool.Answer × Holding} (hx : x ∈ f.sessions)
    (hother : x.1 ≠ name) : x ∈ (f.withSession name act).2.sessions := by
  rw [withSession]
  cases f.holding? name with
  | none => exact hx
  | some h => exact mem_put_of_ne hx hother

namespace Regular

variable (hf : f.Regular)
include hf

/-- A live session is found by its name. -/
theorem holding?_eq (hx : x ∈ f.sessions) : f.holding? x.1 = some ⟨f.pool, x.2⟩ := by
  rw [holding?]
  cases hfind : f.sessions.find? (·.1 == x.1) with
  | none => exact absurd (beq_self_eq_true x.1) (List.find?_eq_none.1 hfind x hx)
  | some y =>
    obtain rfl : y = x := by
      refine List.inj_on_of_nodup_map hf.names (List.mem_of_find?_eq_some hfind) hx ?_
      simpa using List.find?_some hfind
    rfl

/-- A live session is in step with the pool. -/
theorem inStep (hname : f.holding? name = some h) : h.InStep := by
  have hpool := pool_of_holding? hname
  constructor
  · rw [hpool]
    exact hf.distinct
  · rw [hpool]
    exact hf.held_perm _ (mem_of_holding? hname)

/-- No other session has its number. -/
theorem number_ne (hname : f.holding? name = some h) (hx : x ∈ f.sessions) (hother : x.1 ≠ name) :
    x.2.number ≠ h.session.number := by
  intro hsame
  obtain rfl := List.inj_on_of_nodup_map hf.numbers hx (mem_of_holding? hname) hsame
  exact hother rfl

/-- A new candidate changes nothing for the sessions. -/
theorem insert (c : Candidate) : Regular { f with pool := (f.pool.insert c).2 } := by
  have hnext : (f.pool.insert c).2.nextSession = f.pool.nextSession := by
    rw [Pool.insert]
    split <;> rfl
  constructor
  case distinct => exact hf.distinct.insert c
  case names => exact hf.names
  case numbers => exact hf.numbers
  case number_lt =>
    intro x hx
    rw [hnext]
    exact hf.number_lt x hx
  case held_perm =>
    intro x hx
    rw [Pool.heldBy_insert]
    exact hf.held_perm x hx
  case fresh =>
    intro number hnumber
    rw [hnext] at hnumber
    rw [Pool.heldBy_insert]
    exact hf.fresh number hnumber

/-- A new session lists nothing, and nothing is marked with its number. -/
theorem openSession (name : String) : (f.openSession name).Regular := by
  have hsub : (f.sessions.filter (·.1 != name)).Sublist f.sessions := List.filter_sublist
  have hsessions : (f.openSession name).sessions
      = f.sessions.filter (·.1 != name) ++ [(name, ⟨f.pool.nextSession, []⟩)] := rfl
  constructor
  case distinct => exact hf.distinct
  case names =>
    rw [hsessions, List.map_append]
    refine List.nodup_append'.2 ⟨(hsub.map _).nodup hf.names, List.nodup_singleton _, ?_⟩
    simp [List.mem_filter]
  case numbers =>
    rw [hsessions, List.map_append]
    refine List.nodup_append'.2 ⟨(hsub.map _).nodup hf.numbers, List.nodup_singleton _, ?_⟩
    rw [List.map_singleton, List.disjoint_singleton]
    intro hmem
    obtain ⟨x, hx, hnumber⟩ := List.mem_map.1 hmem
    exact Nat.ne_of_lt (hf.number_lt x (hsub.subset hx)) hnumber
  case number_lt =>
    intro x hx
    rw [hsessions] at hx
    rcases List.mem_append.1 hx with hx | hx
    · exact Nat.lt_succ_of_lt (hf.number_lt x (hsub.subset hx))
    · obtain rfl := List.mem_singleton.1 hx
      exact Nat.lt_succ_self _
  case held_perm =>
    intro x hx
    rw [hsessions] at hx
    rcases List.mem_append.1 hx with hx | hx
    · exact hf.held_perm x (hsub.subset hx)
    · obtain rfl := List.mem_singleton.1 hx
      have hnone := hf.fresh f.pool.nextSession (Nat.le_refl _)
      exact hnone ▸ .refl []
  case fresh => exact fun number hnumber => hf.fresh number (Nat.le_of_succ_le hnumber)

/-- A session that does something in step with the pool keeps its name and its number. -/
theorem put (hname : f.holding? name = some h) (hstep : h'.InStep) (hspares : h.Spares h') :
    (f.put name h').Regular := by
  have hpool := pool_of_holding? hname
  have hnext : h'.pool.nextSession = f.pool.nextSession := by rw [hspares.nextSession_eq, hpool]
  have hnames : (f.put name h').sessions.map (·.1) = f.sessions.map (·.1) := by
    rw [Floor.put, List.map_map]
    refine List.map_congr_left fun x _ => ?_
    simp only [Function.comp_apply]
    split <;> rfl
  have hnumbers : (f.put name h').sessions.map (·.2.number) = f.sessions.map (·.2.number) := by
    rw [Floor.put, List.map_map]
    refine List.map_congr_left fun x hx => ?_
    simp only [Function.comp_apply]
    split
    · rename_i hsame
      have hfound := hf.holding?_eq hx
      rw [beq_iff_eq.1 hsame, hname] at hfound
      obtain rfl := Option.some.inj hfound
      exact hspares.number_eq
    · rfl
  have hlt : h.session.number < f.pool.nextSession := hf.number_lt _ (mem_of_holding? hname)
  constructor
  case distinct => exact hstep.distinct
  case names =>
    rw [hnames]
    exact hf.names
  case numbers =>
    rw [hnumbers]
    exact hf.numbers
  case number_lt =>
    intro x hx
    rw [pool_put, hnext]
    rcases mem_put hx with rfl | ⟨hx, -⟩
    · rwa [hspares.number_eq]
    · exact hf.number_lt x hx
  case held_perm =>
    intro x hx
    rcases mem_put hx with rfl | ⟨hx, hother⟩
    · exact hstep.held_perm
    · rw [pool_put,
        hspares.heldBy_eq _ (hf.number_ne hname hx hother), hpool]
      exact hf.held_perm x hx
  case fresh =>
    intro number hnumber
    rw [pool_put] at hnumber ⊢
    rw [hnext] at hnumber
    rw [hspares.heldBy_eq _ (Nat.ne_of_gt (Nat.lt_of_lt_of_le hlt hnumber)), hpool]
    exact hf.fresh number hnumber

/-- A session that ends leaves the others as they are. -/
theorem close (hname : f.holding? name = some h) : (f.close name h.finalize.2).Regular := by
  have hpool := pool_of_holding? hname
  have hsub : (f.sessions.filter (·.1 != name)).Sublist f.sessions := List.filter_sublist
  have hlt : h.session.number < f.pool.nextSession := hf.number_lt _ (mem_of_holding? hname)
  constructor
  case distinct =>
    have hcandidates := (Holding.candidates_finalize h).map (·.id)
    rw [hpool] at hcandidates
    exact hcandidates.nodup hf.distinct
  case names => exact (hsub.map _).nodup hf.names
  case numbers => exact (hsub.map _).nodup hf.numbers
  case number_lt =>
    intro x hx
    have hx := hf.number_lt x (hsub.subset hx)
    rwa [← hpool] at hx
  case held_perm =>
    intro x hx
    obtain ⟨hmem, hother⟩ := List.mem_filter.1 hx
    have hne := hf.number_ne hname hmem (by simpa using hother)
    rw [Floor.close, Holding.heldBy_finalize_of_ne h hne, hpool]
    exact hf.held_perm x hmem
  case fresh =>
    intro number hnumber
    have hnumber : f.pool.nextSession ≤ number := by
      rw [← hpool]
      exact hnumber
    rw [Floor.close, Holding.heldBy_finalize_of_ne h
      (Nat.ne_of_gt (Nat.lt_of_lt_of_le hlt hnumber)), hpool]
    exact hf.fresh number hnumber

/-- What is asked of a session keeps the floor regular if it keeps the session in step. -/
theorem withSession {act : Holding → Pool.Answer × Holding}
    (hact : ∀ h : Holding, h.InStep → (act h).2.InStep ∧ h.Spares (act h).2) :
    (f.withSession name act).2.Regular := by
  rw [Floor.withSession]
  cases hname : f.holding? name with
  | none => exact hf
  | some h =>
    obtain ⟨hstep, hspares⟩ := hact h (hf.inStep hname)
    exact hf.put hname hstep hspares

/-- **Every step keeps a floor regular.** -/
theorem step (s : Pool.Step) : (f.step s).2.Regular := by
  cases f.move s with
  | insert c => exact hf.insert c
  | openSession name => exact hf.openSession name
  | finalize name =>
    simp only [Floor.step]
    cases hname : f.holding? name with
    | none => exact hf
    | some h => exact hf.close hname
  | act huser heq hact =>
    rw [heq]
    exact hf.withSession hact

/-- A session that has done nothing leaves the floor as it was. -/
theorem put_self (hname : f.holding? name = some h) : f.put name h = f := by
  have hsame : f.sessions.map (fun x => if x.1 == name then (x.1, h.session) else x)
      = f.sessions := by
    refine (List.map_congr_left fun x hx => ?_).trans (List.map_id' _)
    split
    · rename_i hx'
      have hfound := hf.holding?_eq hx
      rw [beq_iff_eq.1 hx', hname] at hfound
      obtain rfl := Option.some.inj hfound
      rfl
    · rfl
  rw [Floor.put, pool_of_holding? hname]
  exact congrArg (Floor.mk f.pool) hsame

/-- What is marked with a number stays marked with it, if the step does not use the session that
has this number. -/
theorem heldBy_step (s : Pool.Step) {number : Nat}
    (hother : ∀ x ∈ f.sessions, s.user = some x.1 → x.2.number ≠ number) :
    (f.step s).2.pool.heldBy number = f.pool.heldBy number := by
  -- the session used, if it is live, has another number
  have hne : ∀ name h, s.user = some name → f.holding? name = some h →
      number ≠ h.session.number := by
    intro name h huser hname
    exact (hother _ (mem_of_holding? hname) huser).symm
  cases f.move s with
  | insert c => exact Pool.heldBy_insert c number f.pool
  | openSession name => rfl
  | finalize name =>
    simp only [Floor.step]
    cases hname : f.holding? name with
    | none => rfl
    | some h =>
      simp only [Floor.close]
      rw [Holding.heldBy_finalize_of_ne h (hne name h rfl hname), pool_of_holding? hname]
  | @act _ name act huser heq hact =>
    rw [heq, Floor.withSession]
    cases hname : f.holding? name with
    | none => rfl
    | some h =>
      have hspares := (hact h (hf.inStep hname)).2
      simp only [Floor.put]
      rw [hspares.heldBy_eq number (hne name h huser hname), pool_of_holding? hname]

end Regular

/-- A session that is neither used nor replaced by a step stays as it is. -/
theorem mem_step (s : Pool.Step) (hx : x ∈ f.sessions) (huser : s.user ≠ some x.1)
    (hopen : s ≠ .openSession x.1) : x ∈ (f.step s).2.sessions := by
  cases f.move s with
  | insert c => exact hx
  | openSession name =>
    refine List.mem_append_left _ (List.mem_filter.2 ⟨hx, ?_⟩)
    simpa using fun hsame => hopen (congrArg Pool.Step.openSession hsame.symm)
  | finalize name =>
    simp only [Floor.step]
    cases f.holding? name with
    | none => exact hx
    | some h =>
      refine List.mem_filter.2 ⟨hx, ?_⟩
      simpa using fun hsame => huser (congrArg some hsame.symm)
  | act huser' heq hact =>
    rw [heq]
    refine mem_withSession_of_ne hx fun hsame => huser ?_
    rw [huser', hsame]

/-- Nothing in a new pool is held. -/
theorem heldBy_ofList (cs : List Candidate) (number : Nat) :
    (Pool.ofList cs).heldBy number = [] := by
  induction cs using List.reverseRecOn with
  | nil => rfl
  | append_singleton cs c ih =>
    have hadded : Pool.ofList (cs ++ [c]) = ((Pool.ofList cs).insert c).2 := List.foldl_concat ..
    rw [hadded, Pool.heldBy_insert, ih]

/-- **Floors are regular**, whatever has happened on them. -/
theorem regular_after (cs : List Candidate) (history : List Pool.Step) :
    ((ofList cs).after history).Regular := by
  have hstart : (ofList cs).Regular := by
    constructor
    case distinct => exact Pool.distinct_ofList cs
    case names => exact List.nodup_nil
    case numbers => exact List.nodup_nil
    case number_lt => exact fun _ hx => nomatch hx
    case held_perm => exact fun _ hx => nomatch hx
    case fresh => exact fun number _ => heldBy_ofList cs number
  suffices h : ∀ f : Floor, f.Regular → (f.after history).Regular from h _ hstart
  induction history with
  | nil => exact fun _ hf => hf
  | cons s history ih => exact fun f hf => ih _ (hf.step s)

/-- Lists and marks are in step on a floor, and the next step, whichever it is, will do to them what
it should and no more. -/
structure InStep (f : Floor) : Prop where
  /-- no two candidates in the pool have one id -/
  ids_nodup : (f.pool.candidates.map (·.id)).Nodup
  /-- every live session lists exactly the candidates marked with its number -/
  held_perm : ∀ x ∈ f.sessions, x.2.held.Perm (f.pool.heldBy x.2.number)
  /-- it lists nothing twice -/
  held_nodup : ∀ x ∈ f.sessions, (x.2.held.map (·.id)).Nodup
  /-- no candidate is listed by two sessions -/
  held_once : f.sessions.Pairwise fun x y => ∀ c ∈ x.2.held, ∀ d ∈ y.2.held, c.id ≠ d.id
  /-- what is free and what is held together are the whole pool -/
  partition : (f.pool.available ++ f.pool.allocated).Perm f.pool.candidates
  /-- a session stays as it is unless a step uses it or opens another in its place -/
  sessions_stay : ∀ s, ∀ x ∈ f.sessions, s.user ≠ some x.1 → s ≠ .openSession x.1 →
    x ∈ (f.step s).2.sessions
  /-- what is marked with a number stays so unless a step uses the session with this number -/
  marks_stay : ∀ s number, (∀ x ∈ f.sessions, s.user = some x.1 → x.2.number ≠ number) →
    (f.step s).2.pool.heldBy number = f.pool.heldBy number
  /-- an abort counts what the session lists, and leaves nothing marked with its number -/
  abort_eq : ∀ x ∈ f.sessions, (f.step (.abort x.1)).1 = .aborted x.2.held.length ∧
    (f.step (.abort x.1)).2.pool.heldBy x.2.number = []
  /-- a session that is finalized takes out of the pool what it lists, and nothing else -/
  finalize_eq : ∀ x ∈ f.sessions, (f.step (.finalize x.1)).1 = .finalized x.2.held ∧
    (f.step (.finalize x.1)).2.pool.entries
      = f.pool.entries.filter (·.candidate ∉ x.2.held)
  /-- a release that fails changes nothing -/
  release_refused : ∀ name id e, (f.step (.release name id)).1 = .released (.error e) →
    (f.step (.release name id)).2 = f

/-- **Sessions do not get in each other's way.** Whatever steps sessions have taken on a pool, in
whatever order and by however many of them, lists and marks are in step. -/
theorem after_inStep (cs : List Candidate) (history : List Pool.Step) :
    ((ofList cs).after history).InStep := by
  have hf := regular_after cs history
  generalize (ofList cs).after history = f at hf
  constructor
  case ids_nodup => exact hf.distinct
  case held_perm => exact hf.held_perm
  case held_nodup => exact fun x hx => (hf.inStep (hf.holding?_eq hx)).nodup_ids
  case held_once =>
    refine (List.pairwise_map.1 hf.numbers).imp_of_mem ?_
    intro x y hx hy hne c hc d hd hid
    have hc' := (hf.held_perm x hx).subset hc
    have hd' := (hf.held_perm y hy).subset hd
    exact hne (hf.distinct.number_eq hc' hd' hid)
  case partition => exact f.pool.available_append_allocated_perm
  case sessions_stay => exact fun s x hx huser hopen => mem_step s hx huser hopen
  case marks_stay => exact fun s number hother => hf.heldBy_step s hother
  case abort_eq =>
    intro x hx
    have hname := hf.holding?_eq hx
    simp only [step, withSession, hname]
    rw [(hf.inStep hname).abort_eq]
    exact ⟨rfl, Holding.heldBy_abort_self ⟨f.pool, x.2⟩⟩
  case finalize_eq =>
    intro x hx
    have hname := hf.holding?_eq hx
    simp only [step, hname]
    exact ⟨rfl, (hf.inStep hname).finalize_eq⟩
  case release_refused =>
    intro name id e hrefused
    simp only [step, withSession] at hrefused ⊢
    cases hname : f.holding? name with
    | none => rfl
    | some h =>
      rw [hname] at hrefused
      have herror : (h.release id).1 = .error e := by
        injection hrefused
      simp only [Holding.eq_of_release_error herror]
      exact hf.put_self hname

end Floor

end CoinPurse
