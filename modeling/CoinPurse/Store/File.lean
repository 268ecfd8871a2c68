import CoinPurse.Disk.Basic
import CoinPurse.Store.Address
import CoinPurse.Store.Snapshot

/-!
# Files of stores

A store is opened by its address, used, and closed again; here it is opened, and changes to it are
written back. A file that is missing or empty is made ready first, which makes it an empty store.
One that holds something else is refused.

Three more files may stand beside that of a store. A *journal* is there while the file is being
changed. One that is found beside a store is what is left of a change that came to nothing: it is
removed, unless it begins with a zero byte, which says that the change came to an end. A *log*
collects changes, and an *index* to it is there while somebody reads it; both go when the log has
been taken in. A file with a single byte or none is *blank*: nothing can be left of it, so journal
and log are removed without a look. -/

namespace CoinPurse.Store

/-- Which operations an open store takes. -/
inductive Standing where
  /-- all of them -/
  | free
  /-- those that turn out to change nothing -/
  | readOnly
  /-- those that cannot change anything -/
  | locked
  deriving DecidableEq, Repr

/-- A store that has been opened. -/
structure Opened where
  /-- what is in it -/
  store : Store
  /-- which operations it takes -/
  standing : Standing
  /-- the file that changes are written to, if there is one -/
  file : Option Path
  /-- whether there is a journal while they are written -/
  usesJournal : Bool
  deriving DecidableEq, Repr

/-- Whether an open store takes an operation that may change it, and would to this. -/
def Opened.takes (o : Opened) (next : Store) : Bool :=
  match o.standing with
  | .free => true
  | .readOnly => next = o.store
  | .locked => false

/-- A file beside that of a store, which has the same name with something after it. -/
def beside (file : Path) (ending : String) : Path := ⟨file.bytes ++ Bytes.ofText ending⟩

/-- The journal of a store. -/
def journalOf (file : Path) : Path := beside file "-journal"

/-- The log of a store. -/
def logOf (file : Path) : Path := beside file "-wal"

/-- The index to the log of a store. -/
def indexOf (file : Path) : Path := beside file "-shm"

/-- Whether a file is too short to hold anything. -/
def isBlank (bytes : Bytes) : Bool := bytes.length ≤ 1

/-- How many bytes the path of a file may have that is looked at on the way. -/
def longestPrefix : Nat := 511

/-- How many bytes the path of a store may have. Those of the files beside it are longer. -/
def longestFile : Nat := 504

/-- How many bytes a log begins with before there can be a change in it. -/
def logHeader : Nat := 32

/-- What has become of the log of a store. -/
inductive LogState where
  /-- there was none -/
  | absent
  /-- it has been taken in -/
  | taken
  /-- it had to stay -/
  | kept
  deriving DecidableEq, Repr

/-- Work that may fail to open a store. -/
abbrev Opening (m : Type → Type) := ExceptT Fault m

section
variable {m : Type → Type} [Monad m] (disk : Disk m)

/-- Whether a directory is found at the path. -/
def isFolder (path : Path) : Opening m Bool := do
  match ← disk.read path with
  | .error .isADirectory => return true
  | _ => return false

/-- Follows steps from the root by their names alone: a step to the directory above takes back the
step before it, wherever that may have led. Still every place on the way has to be one that can be
looked at. -/
def follow : List Bytes → List Bytes → Opening m (List Bytes)
  | place, [] => return place
  | place, step :: rest => do
    if step = Path.here then follow place rest
    else if step = Path.above then follow place.dropLast rest
    else
      let next := place ++ [step]
      if longestPrefix < (Path.fromRoot next).bytes.length then throw (.unreachable .cannotOpen)
      match ← disk.read (.fromRoot next) with
      | .ok _ | .error .isADirectory | .error .notFound => follow next rest
      | .error _ => throw (.unreachable .cannotOpen)

/-- The path of a file from the root. -/
def resolve (path : Path) : Opening m Path := do
  let home ← disk.home
  let start := if path.isAbsolute then [] else home.steps
  let file := Path.fromRoot (← follow disk start path.steps)
  if longestFile < file.bytes.length then throw (.unreachable .cannotOpen)
  return file

/-- The bytes of the file, which is made if it may be. -/
def reach (a : Address) (file : Path) : Opening m Bytes := do
  if let some model := a.model then
    unless ← disk.present model do throw (.unreachable .inputOutput)
  match ← disk.read file with
  | .ok bytes => return bytes
  | .error .isADirectory =>
    throw (.unreachable (if a.mode = .read then .inputOutput else .cannotOpen))
  | .error .notFound =>
    unless a.mode = .create do throw (.unreachable .cannotOpen)
    match ← disk.write file [] with
    | .ok () => return []
    | .error _ => throw (.unreachable .cannotOpen)
  | .error _ => throw (.unreachable .cannotOpen)

/-- Deals with a journal that is found. -/
def settleJournal (file : Path) (mayWrite blank : Bool) : Opening m Unit := do
  match ← disk.read (journalOf file) with
  | .error .isADirectory => unless blank do throw (.unprepared .inputOutput)
  | .error _ | .ok [] => return ()
  | .ok (first :: _) =>
    if mayWrite then
      if blank || first != 0 then let _ ← disk.remove (journalOf file)
    else if !blank && first != 0 then throw (.unprepared .readOnly)

/-- Deals with a log that is found. It stays if the file may not be changed, or if a directory is in
the place of its index; a log long enough to be read cannot do without one. -/
def settleLog (file : Path) (mayWrite blank : Bool) : Opening m LogState := do
  match ← disk.read (logOf file) with
  | .error .isADirectory =>
    throw (.unprepared (if blank then .inputOutput else .cannotOpen))
  | .error _ | .ok [] => return .absent
  | .ok log =>
    if blank then
      let _ ← disk.remove (logOf file)
      return .absent
    else if ← isFolder disk (indexOf file) then
      if logHeader ≤ log.length then throw (.unprepared .noIndex)
      return .kept
    else if !mayWrite then
      let _ ← disk.write (indexOf file) [mark]
      return .kept
    else
      let _ ← disk.remove (logOf file)
      let _ ← disk.remove (indexOf file)
      return .taken

/-- Makes a blank file an empty store. -/
def prepare (file : Path) (mayWrite : Bool) : Opening m Unit := do
  unless mayWrite do throw (.unprepared .readOnly)
  match ← disk.write (journalOf file) [mark] with
  | .error _ => throw (.unprepared .cannotOpen)
  | .ok () =>
    let _ ← disk.write file empty.encode
    let _ ← disk.remove (journalOf file)

/-- Opens the store in a file. -/
def openFile (a : Address) : Opening m Opened := do
  let file ← resolve disk a.path
  let bytes ← reach disk a file
  let blank := isBlank bytes
  let mut log := LogState.absent
  unless a.frozen do
    settleJournal disk file a.isWritable blank
    log ← settleLog disk file a.isWritable blank
  if blank then
    prepare disk file a.isWritable
    return ⟨.empty, .free, some file, true⟩
  else
    match decode? bytes with
    | none => throw (.unprepared .notAStore)
    | some store =>
      let standing : Standing :=
        if !a.isWritable then .readOnly else if log = .kept then .locked else .free
      return ⟨store, standing, some file, log = .absent⟩

/-- Opens the store at an address. -/
def openAt (a : Address) : Opening m Opened :=
  if a.kept then openFile disk a
  else if a.isWritable then return ⟨.empty, .free, none, false⟩
  else throw (.unprepared .readOnly)

/-- Opens the store at an address given as text. -/
def openText (address : String) : m (Except Fault Opened) :=
  match Address.ofText address with
  | .error fault => return .error fault
  | .ok a => (openAt disk a).run

/-- Writes changes of an open store back to its file. -/
def Opened.save (o : Opened) (next : Store) : m Unit := do
  if let some file := o.file then
    if next ≠ o.store then
      let _ ← disk.write file next.encode
      if o.usesJournal then let _ ← disk.remove (journalOf file)

end

end CoinPurse.Store
