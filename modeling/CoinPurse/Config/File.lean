import CoinPurse.Disk.Basic
import CoinPurse.Journal
import CoinPurse.Json.Reader
import CoinPurse.Json.Writer
import CoinPurse.Wire.Config

/-!
# Configuration files

A configuration is kept in a file, in data notation over several lines. A file that is missing
counts as the standard configuration; one that is there has to make sense. Saving makes the
directories the file lies in. -/

namespace CoinPurse

/-- Why a configuration could not be loaded or saved. -/
inductive ConfigFileFault where
  /-- the file could not be used -/
  | file (fault : FileFault)
  /-- the text is no configuration, or the configuration has no text -/
  | malformed
  deriving DecidableEq, Repr

namespace Config

/-- The configuration written in a text. -/
def ofText? (text : String) : Option Config := (Json.parse? text).bind ofJson?

/-- The text of a configuration. -/
def toText? (c : Config) : Option String := c.toJson?.map Json.pretty

section
variable {m : Type → Type} [Monad m] (disk : Disk m)

/-- Loads a configuration. -/
def load (path : Path) : m (Except ConfigFileFault Config) := do
  match ← disk.readText path with
  | .error fault => return .error (.file fault)
  | .ok text =>
    match ofText? text with
    | some c => return .ok c
    | none => return .error .malformed

/-- Loads a configuration, or takes the standard one if there is no file. -/
def loadOrStandard (path : Path) : m (Except ConfigFileFault Config × List Line) := do
  if ← disk.present path then return (← load disk path, [])
  else return (.ok standard, [⟨.debug, s!"no config at {path.display}, using defaults"⟩])

/-- Saves a configuration. -/
def save (c : Config) (path : Path) : m (Except ConfigFileFault Unit) := do
  let made ←
    if path.parent.bytes.isEmpty then pure (.ok ()) else disk.makeDirectories path.parent
  match made with
  | .error fault => return .error (.file fault)
  | .ok () =>
    match c.toText? with
    | none => return .error .malformed
    | some text =>
      match ← disk.writeText path text with
      | .error fault => return .error (.file fault)
      | .ok () => return .ok ()

end

end Config

end CoinPurse
