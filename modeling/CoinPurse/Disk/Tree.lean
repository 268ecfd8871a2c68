import CoinPurse.Disk.Basic

/-!
# Trees of files

A `FileTree` is a file system as a plain value: what there is by the steps that lead to it from the
root, and the directory in which one works. It is a disk.

A path is followed step by step, and every step but the last has to lead to a directory. The last
one may lead nowhere yet. A path may have at most 4095 bytes and a name 255. -/

namespace CoinPurse

/-- What can be in a directory. -/
inductive Node where
  /-- a directory -/
  | folder
  /-- a file -/
  | file (bytes : Bytes)
  deriving DecidableEq, Repr

/-- Directories and files, and the directory in which one works. -/
structure FileTree where
  /-- what there is below the root, by the steps that lead to it -/
  entries : List (List Bytes × Node)
  /-- the steps that lead to the directory in which one works -/
  home : List Bytes
  deriving DecidableEq, Repr

/-- Where a path leads. -/
inductive Spot where
  /-- to a directory that exists -/
  | reached (steps : List Bytes)
  /-- to a name in a directory that exists -/
  | named (folder : List Bytes) (name : Bytes)
  deriving DecidableEq, Repr

namespace FileTree

/-- How many bytes a name may have. -/
def longestName : Nat := 255

/-- How many bytes a path may have. -/
def longestPath : Nat := 4095

/-- What is reached by these steps from the root. -/
def node? (t : FileTree) (steps : List Bytes) : Option Node :=
  if steps = [] then some .folder else (t.entries.find? (·.1 == steps)).map (·.2)

/-- The tree with something put where these steps lead, in place of what was there. -/
def put (steps : List Bytes) (node : Node) (t : FileTree) : FileTree :=
  { t with entries := (steps, node) :: t.entries.filter (·.1 != steps) }

/-- The tree with nothing where these steps lead. -/
def clear (steps : List Bytes) (t : FileTree) : FileTree :=
  { t with entries := t.entries.filter (·.1 != steps) }

/-- A tree with one directory, in which one works, and those that it lies in. -/
def ofHome (home : Path) : FileTree :=
  let steps := home.steps
  { entries := (List.range steps.length).map fun n => (steps.take (n + 1), .folder)
    home := steps }

/-- What has this name in a directory. -/
def find (t : FileTree) (folder : List Bytes) (name : Bytes) : Except FileFault (Option Node) :=
  if longestName < name.length then .error .nameTooLong else .ok (t.node? (folder ++ [name]))

/-- A step from one directory to another. -/
def enter (t : FileTree) (folder : List Bytes) (step : Bytes) : Except FileFault (List Bytes) :=
  if step = Path.here then .ok folder
  else if step = Path.above then .ok folder.dropLast
  else match t.find folder step with
  | .error fault => .error fault
  | .ok none => .error .notFound
  | .ok (some (.file _)) => .error .notADirectory
  | .ok (some .folder) => .ok (folder ++ [step])

/-- Where a path leads. -/
def locate (t : FileTree) (p : Path) : Except FileFault Spot :=
  if p.bytes.contains 0 then .error .zeroByte
  else if longestPath < p.bytes.length then .error .nameTooLong
  else if p.bytes = [] then .error .notFound
  else
    match p.steps.dropLast.foldlM t.enter (if p.isAbsolute then [] else t.home) with
    | .error fault => .error fault
    | .ok folder =>
      match p.steps.getLast? with
      | none => .ok (.reached folder)
      | some step =>
        if step = Path.here then .ok (.reached folder)
        else if step = Path.above then .ok (.reached folder.dropLast)
        else .ok (.named folder step)

/-- What there is at a path; a file is not at a path that ends as that of a directory. -/
def nodeAt (t : FileTree) (p : Path) : Except FileFault Node :=
  match t.locate p with
  | .error fault => .error fault
  | .ok (.reached _) => .ok .folder
  | .ok (.named folder name) =>
    match t.find folder name with
    | .error fault => .error fault
    | .ok none => .error .notFound
    | .ok (some .folder) => .ok .folder
    | .ok (some (.file bytes)) => if p.endsOpen then .error .notADirectory else .ok (.file bytes)

/-- Whether there is something at the path. -/
def present (t : FileTree) (p : Path) : Bool := (t.nodeAt p).toOption.isSome

/-- Whether there is a directory at the path. -/
def isFolder (t : FileTree) (p : Path) : Bool := (t.nodeAt p).toOption = some .folder

/-- The bytes of a file. -/
def read (p : Path) (t : FileTree) : Except FileFault Bytes :=
  match t.nodeAt p with
  | .error fault => .error fault
  | .ok .folder => .error .isADirectory
  | .ok (.file bytes) => .ok bytes

/-- Writes the bytes of a file. -/
def write (p : Path) (bytes : Bytes) (t : FileTree) : Except FileFault FileTree :=
  match t.locate p with
  | .error fault => .error fault
  | .ok (.reached _) => .error .isADirectory
  | .ok (.named folder name) =>
    if p.endsOpen then .error .isADirectory
    else match t.find folder name with
    | .error fault => .error fault
    | .ok (some .folder) => .error .isADirectory
    | .ok _ => .ok (t.put (folder ++ [name]) (.file bytes))

/-- Removes a file. -/
def remove (p : Path) (t : FileTree) : Except FileFault FileTree :=
  match t.nodeAt p, t.locate p with
  | .error fault, _ => .error fault
  | .ok (.file _), .ok (.named folder name) => .ok (t.clear (folder ++ [name]))
  | .ok _, _ => .error .isADirectory

/-- Makes one directory. -/
def makeDirectory (p : Path) (t : FileTree) : Except FileFault FileTree :=
  match t.locate p with
  | .error fault => .error fault
  | .ok (.reached _) => .error .alreadyExists
  | .ok (.named folder name) =>
    match t.find folder name with
    | .error fault => .error fault
    | .ok (some _) => .error .alreadyExists
    | .ok none => .ok (t.put (folder ++ [name]) .folder)

/-- An action that may change the tree, and leaves it alone if it fails. -/
def attempt (act : FileTree → Except FileFault FileTree) :
    StateM FileTree (Except FileFault Unit) := fun t => match act t with
  | .ok next => (.ok (), next)
  | .error fault => (.error fault, t)

/-- Makes one directory, unless it exists. -/
def ensureDirectory (p : Path) : StateM FileTree (Except FileFault Unit) :=
  fun t => match t.makeDirectory p with
  | .ok next => (.ok (), next)
  | .error fault => (if t.isFolder p then .ok () else .error fault, t)

/-- Makes the directory at a path unless it exists, and first, if need be, the one it lies in. What
was made stays even if the rest fails. The number bounds how many directories have to be made. -/
def makeDirectories : Nat → Path → StateM FileTree (Except FileFault Unit)
  | 0, _ => fun t => (.ok (), t)
  | n + 1, p => fun t =>
    if p.bytes = [] then (.ok (), t)
    else match ensureDirectory p t with
    | (.error .notFound, t) =>
      match makeDirectories n p.parent t with
      | (.error fault, t) => (.error fault, t)
      | (.ok (), t) => ensureDirectory p t
    | (made, t) => (made, t)

/-- A tree of files as a disk. -/
def disk : Disk (StateM FileTree) where
  home := fun t => (.fromRoot t.home, t)
  present p := fun t => (t.present p, t)
  read p := fun t => (t.read p, t)
  write p bytes := attempt (write p bytes)
  remove p := attempt (remove p)
  makeDirectories p := makeDirectories (p.bytes.length + 1) p

end FileTree

end CoinPurse
