import CoinPurse.Disk.Tree

/-!
# Reading what was written

Putting something in a tree leaves everything else where it was. So a path that leads somewhere
still leads there afterwards, unless a directory was replaced, and a file that was written is read
as it was written (`read_of_write`). -/

namespace CoinPurse.FileTree

/-- What was put somewhere is there. -/
theorem node?_put_self {steps : List Bytes} (h : steps ≠ []) (node : Node) (t : FileTree) :
    (t.put steps node).node? steps = some node := by
  simp [node?, put, h]

/-- What was put somewhere changes nothing elsewhere. -/
theorem node?_put_of_ne {steps other : List Bytes} (h : other ≠ steps) (node : Node)
    (t : FileTree) : (t.put steps node).node? other = t.node? other := by
  have h' : (steps == other) = false := by simpa using fun e => h e.symm
  unfold node? put
  split
  · rfl
  · simp only [List.find?_cons, h', List.find?_filter]
    congr 2
    funext x
    by_cases hx : x.1 = other <;> simp [hx, h]

/-- A step that can be taken still can when something that is no directory has been replaced. -/
theorem enter_put {t : FileTree} {place folder next : List Bytes} {step : Bytes} {node : Node}
    (hp : t.node? place ≠ some .folder) (h : t.enter folder step = .ok next) :
    (t.put place node).enter folder step = .ok next := by
  unfold enter find at *
  by_cases h1 : step = Path.here
  · simpa [h1] using h
  by_cases h2 : step = Path.above
  · simpa [h1, h2] using h
  simp only [h1, h2, if_false] at *
  by_cases h3 : longestName < step.length
  · simp [h3] at h
  simp only [h3, if_false] at *
  have hne : folder ++ [step] ≠ place := by
    rintro rfl
    split at h <;> simp_all
  rw [node?_put_of_ne hne]
  exact h

/-- Several steps that can be taken still can when something that is no directory has been
replaced. -/
theorem foldlM_enter_put {t : FileTree} {place : List Bytes} {node : Node}
    (hp : t.node? place ≠ some .folder) (steps : List Bytes) {folder next : List Bytes}
    (h : steps.foldlM t.enter folder = .ok next) :
    steps.foldlM (t.put place node).enter folder = .ok next := by
  induction steps generalizing folder with
  | nil => exact h
  | cons step rest ih =>
    rw [List.foldlM_cons] at h ⊢
    cases hs : t.enter folder step with
    | error fault => rw [hs] at h; cases h
    | ok reached =>
      rw [hs] at h
      rw [enter_put hp hs]
      exact ih h

/-- A path leads where it led when something that is no directory has been replaced. -/
theorem locate_put {t : FileTree} {p : Path} {spot : Spot} {place : List Bytes} {node : Node}
    (hp : t.node? place ≠ some .folder) (h : t.locate p = .ok spot) :
    (t.put place node).locate p = .ok spot := by
  unfold locate at *
  split at h
  · cases h
  split at h
  · cases h
  split at h
  · cases h
  rename_i h1 h2 h3
  rw [if_neg h1, if_neg h2, if_neg h3]
  cases hw : p.steps.dropLast.foldlM t.enter (if p.isAbsolute then [] else t.home) with
  | error fault => rw [hw] at h; cases h
  | ok folder =>
    rw [hw] at h
    have moved : p.steps.dropLast.foldlM (t.put place node).enter
        (if p.isAbsolute then [] else t.home) = .ok folder := foldlM_enter_put hp _ hw
    simp only [show (t.put place node).home = t.home from rfl, moved]
    exact h

/-- What was written to a file is read from it. -/
theorem read_of_write {p : Path} {bytes : Bytes} {t next : FileTree}
    (h : t.write p bytes = .ok next) : next.read p = .ok bytes := by
  unfold write at h
  split at h
  · cases h
  · cases h
  · rename_i folder name hl
    split at h
    · cases h
    rename_i he
    unfold find at h
    by_cases hn : longestName < name.length
    · simp [hn] at h
    simp only [hn, if_false] at h
    split at h
    · cases h
    · cases h
    · rename_i node hnode hx
      have hp : t.node? (folder ++ [name]) ≠ some .folder := by
        intro hf; simp_all
      cases h
      simp [read, nodeAt, locate_put hp hl, find, hn, node?_put_self, he]

end CoinPurse.FileTree
