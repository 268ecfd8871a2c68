import CoinPurse.Config.File
import CoinPurse.Disk.Tree.Lemmas
import CoinPurse.Proofs.Wire

/-!
# What is written is found again

Rates, plans, terms and configurations are read back from the texts that are written for them
(`Json.Survives`). A configuration that has been saved is loaded again. Saving fails only where the
tree of files does not let it: it is not possible to make a directory, or to write the file. It
does not fail where the directory of the file is there and a file can be written in it
(`Config.save_eq_ok_iff`).
-/

namespace CoinPurse

/-- A value survives if it is read back from either of its texts. -/
def Json.Survives {α : Type} (write : α → Json) (read : Json.Reader α) (a : α) : Prop :=
  ∀ text ∈ [Json.compact (write a), Json.pretty (write a)], (Json.parse? text).bind read = some a

/-- A value that carries over is read back. -/
theorem Json.CarriesOver.survives {α : Type} {write : α → Json} {read : Json.Reader α} {a : α}
    (h : Json.CarriesOver write read a) : Json.Survives write read a := by
  intro text htext
  rcases List.mem_pair.1 htext with rfl | rfl
  · exact h.compact
  · exact h.pretty

namespace FileTree

/-- A file can be written at the path: it leads to a name in a directory, and if there is something
of that name it is a file. -/
structure Writable (t : FileTree) (p : Path) : Prop where
  named : ∃ folder name, t.locate p = .ok (.named folder name) ∧ name.length ≤ longestName ∧
    t.node? (folder ++ [name]) ≠ some .folder
  endsOpen : p.endsOpen = false

/-- Any bytes can be written where a file can be. -/
theorem Writable.exists_write {t : FileTree} {p : Path} (h : t.Writable p) (bytes : Bytes) :
    ∃ next, t.write p bytes = .ok next := by
  obtain ⟨folder, name, hlocate, hname, hnode⟩ := h.named
  refine ⟨t.put (folder ++ [name]) (.file bytes), ?_⟩
  rw [write, hlocate]
  simp only [h.endsOpen, find, Nat.not_lt.2 hname, Bool.false_eq_true, if_false]

/-- Bytes are written only where a file can be. -/
theorem writable_of_write {t next : FileTree} {p : Path} {bytes : Bytes}
    (h : t.write p bytes = .ok next) : t.Writable p := by
  rw [write] at h
  split at h
  · cases h
  · cases h
  · rename_i folder name hlocate
    split at h
    · cases h
    · rename_i hopen
      refine ⟨⟨folder, name, hlocate, ?_⟩, by simpa using hopen⟩
      by_cases hname : longestName < name.length
      · simp [find, hname] at h
      · refine ⟨Nat.le_of_not_lt hname, fun hnode => ?_⟩
        simp [find, hname, hnode] at h

/-- Where there is a directory the path leads to it, or to its name in another one. -/
theorem locate_of_isFolder {t : FileTree} {p : Path} (h : t.isFolder p = true) :
    (∃ steps, t.locate p = .ok (.reached steps)) ∨
      ∃ folder name, t.locate p = .ok (.named folder name) ∧
        t.find folder name = .ok (some .folder) := by
  have hnode : (t.nodeAt p).toOption = some .folder := of_decide_eq_true h
  rw [nodeAt] at hnode
  split at hnode
  · cases hnode
  · exact .inl ⟨_, ‹_›⟩
  · rename_i folder name hlocate
    refine .inr ⟨folder, name, hlocate, ?_⟩
    split at hnode
    · cases hnode
    · cases hnode
    · assumption
    · split at hnode <;> cases hnode

/-- A directory that is there is not made again. -/
theorem makeDirectory_of_isFolder {t : FileTree} {p : Path} (h : t.isFolder p = true) :
    t.makeDirectory p = .error .alreadyExists := by
  rcases locate_of_isFolder h with ⟨steps, hlocate⟩ | ⟨folder, name, hlocate, hfind⟩
  · rw [makeDirectory, hlocate]
  · rw [makeDirectory, hlocate]
    simp only [hfind]

/-- For a directory that is there nothing is done. -/
theorem makeDirectories_of_isFolder {t : FileTree} {p : Path} (h : t.isFolder p = true) :
    disk.makeDirectories p t = (.ok (), t) := by
  have hensure : ensureDirectory p t = (.ok (), t) := by
    rw [ensureDirectory, makeDirectory_of_isFolder h]
    simp [h]
  change makeDirectories (p.bytes.length + 1) p t = (.ok (), t)
  rw [makeDirectories]
  split
  · rfl
  · simp only [hensure]

end FileTree

namespace Config

variable {c : Config} {text : String} {path : Path} {tree : FileTree}

/-- Of two actions on a tree the second sees what the first gave and left. -/
theorem bind_apply {α β : Type} (first : StateM FileTree α) (second : α → StateM FileTree β)
    (tree : FileTree) : (first >>= second) tree = second (first tree).1 (first tree).2 := rfl

/-- Writing a file changes the tree if it succeeds. -/
theorem disk_write (path : Path) (bytes : Bytes) (tree : FileTree) :
    FileTree.disk.write path bytes tree = match tree.write path bytes with
      | .error fault => (.error fault, tree)
      | .ok next => (.ok (), next) := by
  change FileTree.attempt _ tree = _
  rw [FileTree.attempt]
  split <;> simp [*]

/-- The directory of a file is made unless the path names none. -/
def prepare (path : Path) (tree : FileTree) : Except FileFault Unit × FileTree :=
  if path.parent.bytes.isEmpty then (.ok (), tree)
  else FileTree.disk.makeDirectories path.parent tree

/-- Saving makes the directory of the file and then writes it. -/
theorem save_eq (htext : c.toText? = some text) (path : Path) (tree : FileTree) :
    save FileTree.disk c path tree = match prepare path tree with
      | (.error fault, made) => (.error (.file fault), made)
      | (.ok (), made) => match made.write path (Bytes.ofText text) with
        | .error fault => (.error (.file fault), made)
        | .ok next => (.ok (), next) := by
  simp only [save, prepare, Disk.writeText, htext]
  split
  · rw [pure_bind]
    dsimp only
    rw [bind_apply, disk_write]
    split <;> rfl
  · rw [bind_apply]
    obtain ⟨prepared, made⟩ := FileTree.disk.makeDirectories path.parent tree
    cases prepared with
    | error fault => rfl
    | ok _ =>
      dsimp only
      rw [bind_apply, disk_write]
      split <;> rfl

/-- If the directory is there, or the path names none, nothing has to be made. -/
theorem prepare_of_present (h : path.parent.bytes = [] ∨ tree.isFolder path.parent = true) :
    prepare path tree = (.ok (), tree) := by
  rw [prepare]
  split
  · rfl
  · rename_i hsome
    refine FileTree.makeDirectories_of_isFolder (h.resolve_left fun hnone => hsome ?_)
    rw [hnone]
    rfl

/-- **Saving succeeds** exactly if the directory of the file is there or can be made, and a file can
be written in it. -/
theorem save_eq_ok_iff (htext : c.toText? = some text) (path : Path) (tree : FileTree) :
    (save FileTree.disk c path tree).1 = .ok () ↔
      (prepare path tree).1 = .ok () ∧ (prepare path tree).2.Writable path := by
  rw [save_eq htext]
  obtain ⟨prepared, made⟩ := prepare path tree
  cases prepared with
  | error fault => simp
  | ok _ =>
    dsimp only
    constructor
    · intro h
      cases hwrite : made.write path (Bytes.ofText text) with
      | error fault => simp [hwrite] at h
      | ok next => exact ⟨rfl, FileTree.writable_of_write hwrite⟩
    · rintro ⟨-, hwritable⟩
      obtain ⟨next, hwrite⟩ := hwritable.exists_write (Bytes.ofText text)
      rw [hwrite]

/-- A configuration is loaded from a file that holds a text of it. -/
theorem load_of_read (hread : tree.read path = .ok (Bytes.ofText text))
    (hparse : ofText? text = some c) : load FileTree.disk path tree = (.ok c, tree) := by
  have hfile : FileTree.disk.readText path tree = (.ok text, tree) := by
    have hbytes : FileTree.disk.read path tree = (.ok (Bytes.ofText text), tree) :=
      congrArg (·, tree) hread
    rw [Disk.readText, bind_apply, hbytes]
    dsimp only
    rw [Bytes.text?_ofText]
    rfl
  rw [load, bind_apply, hfile]
  dsimp only
  rw [hparse]
  rfl

/-- **A configuration that has been saved is loaded again.** -/
theorem load_save (htext : c.toText? = some text) (hparse : ofText? text = some c)
    (hsaved : (save FileTree.disk c path tree).1 = .ok ()) :
    load FileTree.disk path (save FileTree.disk c path tree).2 =
      (.ok c, (save FileTree.disk c path tree).2) := by
  refine load_of_read ?_ hparse
  rw [save_eq htext] at hsaved ⊢
  cases hprepare : prepare path tree with
  | mk prepared made =>
    rw [hprepare] at hsaved
    cases prepared with
    | error fault => cases hsaved
    | ok _ =>
      dsimp only at hsaved ⊢
      cases hwrite : made.write path (Bytes.ofText text) with
      | error fault =>
        rw [hwrite] at hsaved
        cases hsaved
      | ok next => exact FileTree.read_of_write hwrite

end Config

/-- **What is written is found again.** Rates, plans, terms without random values and configurations
whose path is text are read back from the texts written for them, whatever numbers of their fields'
sizes they hold. Saving a configuration succeeds wherever a file can be written in a directory that
is there or can be made, and then it is loaded again as it was saved. No directory has to be made
where one is there. -/
theorem written_found_again :
    (∀ m : FeeModel, m.InRange → Json.Survives FeeModel.toJson FeeModel.ofJson? m) ∧
      (∀ p : Plan, p.InRange → Json.Survives Plan.toJson Plan.ofJson? p) ∧
      (∀ t : Terms, t.InRange → t.randomValues = none →
        Json.Survives Terms.toJson Terms.ofJson? t) ∧
      ∀ c : Config, c.InRange → (∃ text, c.databasePath.text? = some text) →
        (∃ j, c.toJson? = some j ∧ Json.Survives (fun _ => j) Config.ofJson? c) ∧
          ∀ path tree,
            ((Config.save FileTree.disk c path tree).1 = .ok () ↔
              (Config.prepare path tree).1 = .ok () ∧
                (Config.prepare path tree).2.Writable path) ∧
            (path.parent.bytes = [] ∨ tree.isFolder path.parent = true →
              Config.prepare path tree = (.ok (), tree)) ∧
            ((Config.save FileTree.disk c path tree).1 = .ok () →
              Config.load FileTree.disk path (Config.save FileTree.disk c path tree).2 =
                (.ok c, (Config.save FileTree.disk c path tree).2)) := by
  refine ⟨fun m hm => (FeeModel.carriesOver hm).survives,
    fun p hp => (Plan.carriesOver hp).survives,
    fun t ht hvalues => (Terms.carriesOver ht hvalues).survives, ?_⟩
  rintro c hrange ⟨text, hpath⟩
  have hcarries := Config.carriesOver hrange hpath
  have htext : c.toText? = some (Json.pretty (c.toJsonWith text)) := by
    rw [Config.toText?, Config.toJson?_eq hpath, Option.map_some]
  refine ⟨⟨c.toJsonWith text, Config.toJson?_eq hpath, hcarries.survives⟩, fun path tree => ?_⟩
  exact ⟨Config.save_eq_ok_iff htext path tree, Config.prepare_of_present,
    Config.load_save htext hcarries.pretty⟩

/-- A configuration with the largest words, and with quotes, a backslash and control characters in
its path. -/
def Config.atLimits : Config where
  databasePath := Path.ofText "a \"b\"\\c\n\x01\x1f é"
  feeModel := ⟨Word.max64⟩
  basket := ⟨Word.max32, Word.max64, 0, Word.max64⟩
  quiet := true

/-- Terms with the least net count, or with none. -/
def Terms.atLimits (counted : Bool) : Terms where
  feeModel := ⟨0⟩
  fixedInputs := [⟨Word.max64, 107⟩, ⟨0, 0⟩]
  fixedOutputs := []
  initialSatoshis := 1
  firstSatoshis := Word.max64
  lockingScript := 25
  unlockingScript := 107
  netCount := if counted then some Word.minSigned64 else none
  randomValues := none
  quiet := false

/-- The largest words and the least signed ones are found again, and a configuration that has been
saved in a directory that was not there. -/
theorem written_found_again_extremes :
    Json.Survives FeeModel.toJson FeeModel.ofJson? ⟨Word.max64⟩ ∧
      Json.Survives Plan.toJson Plan.ofJson?
        ⟨[⟨Word.minSigned64, Word.max64⟩, ⟨Word.maxSigned64, 0⟩], [⟨1, 25⟩], 0, 1, Word.max64⟩ ∧
      (∀ counted, Json.Survives Terms.toJson Terms.ofJson? (.atLimits counted)) ∧
      ∃ saved : FileTree,
        Config.save FileTree.disk .atLimits ⟨[99, 47, 119]⟩ (.ofHome ⟨[47, 104]⟩) =
            (.ok (), saved) ∧
          Config.load FileTree.disk ⟨[99, 47, 119]⟩ saved = (.ok .atLimits, saved) := by
  obtain ⟨hrates, hplans, hterms, hconfigs⟩ := written_found_again
  refine ⟨hrates _ (Nat.le_refl _), hplans _ ?_, fun counted => hterms _ ?_ rfl, ?_⟩
  · constructor
    case inputs =>
      simp only [List.forall_mem_cons, List.not_mem_nil, false_implies, implies_true, and_true]
      exact ⟨⟨by decide, by decide, by decide⟩, ⟨by decide, by decide, by decide⟩⟩
    case outputs =>
      simp only [List.forall_mem_cons, List.not_mem_nil, false_implies, implies_true, and_true]
      exact ⟨by decide, by decide⟩
    all_goals decide
  · constructor
    case feeModel => exact Nat.zero_le _
    case fixedInputs =>
      simp only [Terms.atLimits, List.forall_mem_cons, List.not_mem_nil, false_implies,
        implies_true, and_true]
      exact ⟨⟨by decide, by decide⟩, ⟨by decide, by decide⟩⟩
    case fixedOutputs => simp [Terms.atLimits]
    case netCount => cases counted <;> simp [Terms.atLimits, Word.minSigned64, Word.maxSigned64]
    all_goals simp [Terms.atLimits, Word.max64]
  · obtain ⟨-, hfiles⟩ := hconfigs .atLimits
      ⟨Nat.le_refl _, by decide, by decide, by decide, by decide⟩ ⟨_, Bytes.text?_ofText _⟩
    obtain ⟨hsaved, -, hloaded⟩ := hfiles ⟨[99, 47, 119]⟩ (.ofHome ⟨[47, 104]⟩)
    have hok := hsaved.2 ⟨rfl, ⟨_, _, rfl, by decide, by decide⟩, rfl⟩
    exact ⟨_, Prod.ext hok rfl, hloaded hok⟩

end CoinPurse
