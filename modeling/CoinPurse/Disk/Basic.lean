import CoinPurse.Bytes.Path

/-!
# Disks

A wallet keeps its configuration in one file and its store in another. A *disk* is what it needs
of a file system, as a record of actions in some monad. The same code then runs on real files, and
on a tree of files that is a plain value. -/

namespace CoinPurse

/-- Why a file could not be used. -/
inductive FileFault where
  /-- there is no such file or directory -/
  | notFound
  /-- there is something of that name -/
  | alreadyExists
  /-- a part of the path is no directory -/
  | notADirectory
  /-- the path is that of a directory -/
  | isADirectory
  /-- the path, or a part of it, is too long -/
  | nameTooLong
  /-- there is a zero byte in the path -/
  | zeroByte
  /-- the file does not hold text -/
  | notText
  /-- another reason, in the words of the system -/
  | other (text : String)
  deriving DecidableEq, Repr

/-- The sentence that reports the fault. -/
def FileFault.message : FileFault → String
  | notFound => "No such file or directory (os error 2)"
  | alreadyExists => "File exists (os error 17)"
  | notADirectory => "Not a directory (os error 20)"
  | isADirectory => "Is a directory (os error 21)"
  | nameTooLong => "File name too long (os error 36)"
  | zeroByte => "file name contained an unexpected NUL byte"
  | notText => "stream did not contain valid UTF-8"
  | other text => text

/-- What a wallet needs of a file system. -/
structure Disk (m : Type → Type) where
  /-- the path of the directory from which relative paths start -/
  home : m Path
  /-- whether there is something at the path -/
  present : Path → m Bool
  /-- the bytes of a file -/
  read : Path → m (Except FileFault Bytes)
  /-- writes the bytes of a file, which need not exist -/
  write : Path → Bytes → m (Except FileFault Unit)
  /-- removes a file -/
  remove : Path → m (Except FileFault Unit)
  /-- makes a directory, and those it lies in -/
  makeDirectories : Path → m (Except FileFault Unit)

namespace Disk

variable {m : Type → Type} [Monad m] (disk : Disk m)

/-- The text of a file. -/
def readText (path : Path) : m (Except FileFault String) := do
  match ← disk.read path with
  | .error fault => return .error fault
  | .ok bytes =>
    match Bytes.text? bytes with
    | some text => return .ok text
    | none => return .error .notText

/-- Writes the text of a file, which need not exist. -/
def writeText (path : Path) (text : String) : m (Except FileFault Unit) :=
  disk.write path (Bytes.ofText text)

end Disk

namespace Path

/-- The byte between the parts of a path. -/
def separator : UInt8 := 47

/-- The parts of a path; there is an empty one wherever two separators meet. -/
def parts (p : Path) : List Bytes := p.bytes.splitOn separator

/-- The part that stands for the directory itself. -/
def here : Bytes := [46]

/-- The part that stands for the directory above. -/
def above : Bytes := [46, 46]

/-- The steps that a path takes: its parts, without empty ones. -/
def steps (p : Path) : List Bytes := p.parts.filter (· != [])

/-- Whether the path starts at the root. -/
def isAbsolute (p : Path) : Bool := p.bytes.head? = some separator

/-- Whether the path ends as that of a directory. -/
def endsOpen (p : Path) : Bool := p.bytes.getLast? = some separator

/-- The path with these parts. -/
def ofParts (parts : List Bytes) : Path := ⟨[separator].intercalate parts⟩

/-- The path that takes these steps from the root. -/
def fromRoot (steps : List Bytes) : Path :=
  if steps = [] then ⟨[separator]⟩ else ofParts ([] :: steps)

/-- The path of the directory a path lies in. Empty parts do not count, nor does the directory
itself except in front. -/
def parent (p : Path) : Path :=
  match p.parts with
  | [] => ⟨[]⟩
  | [] :: rest => fromRoot (rest.filter fun c => c != [] && c != here).dropLast
  | first :: rest => ofParts ((first :: rest.filter fun c => c != [] && c != here).dropLast)

end Path

end CoinPurse
