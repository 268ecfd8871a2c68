import CoinPurse.CommandLine.Session
import CoinPurse.Entropy

/-!
# The program

Runs a command line on the files of the system. The value a command ends with goes to the standard
output, its journal to the standard error.
-/

namespace CoinPurse

/-- The fault that an error of the system amounts to. -/
def FileFault.ofError : IO.Error → FileFault
  | .noFileOrDirectory .. => notFound
  | .alreadyExists .. => alreadyExists
  | .inappropriateType _ 20 _ => notADirectory
  | .inappropriateType _ 21 _ => isADirectory
  | .invalidArgument _ 36 _ => nameTooLong
  | e => other (toString e)

/-- An action on the file at a path, whose error is a fault. A path that is not text names no file
here, and a zero byte would cut it short. -/
def withFile {α : Type} (path : Path) (act : String → IO α) : IO (Except FileFault α) := do
  if path.bytes.contains 0 then return .error .zeroByte
  match path.text? with
  | none => return .error .notFound
  | some name =>
    match ← (act name).toBaseIO with
    | .ok a => return .ok a
    | .error e => return .error (.ofError e)

/-- The disk of the system. -/
def systemDisk : Disk IO where
  home := do return .ofText (← IO.currentDir).toString
  present p := do
    return (← withFile p fun name => IO.FS.Handle.mk name .read).toOption.isSome
  read p := withFile p fun name => do return (← IO.FS.readBinFile name).data.toList
  write p bytes := withFile p fun name => IO.FS.writeBinFile name ⟨bytes.toArray⟩
  remove p := withFile p fun name => IO.FS.removeFile name
  makeDirectories p := withFile p fun name => IO.FS.createDirAll name

/-- Runs a command line, and tells how it ended. -/
def runProgram (args : List String) : IO UInt32 := do
  let seed ← IO.rand 0 Word.max64
  let ending ← CommandLine.run systemDisk (Entropy.stream (UInt64.ofNat seed)) args
  if ending.code = 2 then IO.eprintln CommandLine.usage
  for line in ending.lines do IO.eprintln line.render
  match ending.printout with
  | some printout => IO.println printout.text
  | none => pure ()
  return UInt32.ofNat ending.code

end CoinPurse

/-- Runs the command line that the program was called with. -/
def main (args : List String) : IO UInt32 := CoinPurse.runProgram args
