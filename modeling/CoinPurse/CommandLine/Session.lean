import CoinPurse.CommandLine.Arguments
import CoinPurse.Config.File
import CoinPurse.Store.File
import CoinPurse.Wire.Wallet

/-!
# Carrying out a command

A command is carried out on a disk. It loads the configuration, opens the store, does its work,
and writes the store back. It ends with an exit code, a value to print and lines for the journal;
an error ends it with code 1 and a line of its own, and a command line that was not understood
with code 2.

The order of the steps shows when two things are wrong at once: configuration, then store, then the
arguments of the command from left to right, and last whether the store takes the operation.
-/

namespace CoinPurse

/-- What is wrong with a configuration or an argument. -/
inductive SetupFault where
  /-- there is a configuration file already -/
  | fileExists (path : Path)
  /-- the path of the store is not text -/
  | pathNotText (path : Path)
  /-- a transaction id is not hexadecimal -/
  | txidDigits (fault : Hex.Fault)
  /-- a transaction id has the wrong length -/
  | txidLength (bytes : Nat)
  /-- a script is not hexadecimal -/
  | scriptDigits (fault : Hex.Fault)
  deriving DecidableEq, Repr

/-- What the sentence about the fault says. -/
def SetupFault.message : SetupFault → String
  | fileExists path => s!"{path.display} already exists, pass --force to overwrite"
  | pathNotText path => s!"database path is not valid UTF-8: {path.display}"
  | txidDigits fault => s!"invalid txid hex: {fault.message}"
  | txidLength bytes => s!"txid must be 32 bytes, got {bytes}"
  | scriptDigits fault => s!"invalid script hex: {fault.message}"

/-- Why a command failed. -/
inductive CommandFault where
  /-- the wallet failed -/
  | wallet (fault : WalletFault)
  /-- the configuration or an argument is wrong -/
  | setup (fault : SetupFault)
  /-- a file could not be used -/
  | file (fault : FileFault)
  /-- a text is not in data notation, or does not say what it should -/
  | malformed

namespace CommandFault

/-- The sentence that reports the fault. -/
def message : CommandFault → String
  | wallet fault => fault.message
  | setup fault => s!"config error: {fault.message}"
  | file fault => s!"io error: {fault.message}"
  | malformed => "json error"

/-- A fault of the store. -/
def ofStore (fault : Store.Fault) : CommandFault := .wallet (.access (.store fault))

/-- A fault of a configuration file. -/
def ofConfigFile : ConfigFileFault → CommandFault
  | .file fault => .file fault
  | .malformed => .malformed

end CommandFault

/-- Where the pool is stored, as text. -/
def Config.databaseText (c : Config) : Except SetupFault String :=
  match c.databaseText? with
  | some text => .ok text
  | none => .error (.pathNotText c.databasePath)

/-- A value to be printed, in one line or in several. -/
structure Printout where
  /-- the value -/
  value : Json
  /-- whether it takes several lines -/
  spacious : Bool

/-- The text to be printed. -/
def Printout.text (p : Printout) : String := if p.spacious then p.value.pretty else p.value.compact

/-- How a command ended. -/
structure Ending where
  /-- the exit code -/
  code : Nat
  /-- what is printed -/
  printout : Option Printout
  /-- the lines of the journal that are shown -/
  lines : List Line

namespace CommandLine

/-- The work of a command: its lines so far, then its value or what stopped it. -/
abbrev Work (m : Type → Type) := ExceptT CommandFault (StateT (List Line) m)

section
variable {m : Type → Type} [Monad m]

/-- An action of the disk. -/
def lift {α : Type} (act : m α) : Work m α := ExceptT.lift (StateT.lift act)

/-- Notes lines in the journal. -/
def note (lines : List Line) : Work m Unit := ExceptT.lift (modify (· ++ lines))

/-- A value, or what stops the command. -/
def orStop {ε α : Type} (fault : ε → CommandFault) (result : Except ε α) : Work m α :=
  match result with
  | .ok a => pure a
  | .error e => throw (fault e)

/-- An open wallet, and its store as it was opened. -/
structure Opened where
  /-- the wallet -/
  wallet : Wallet
  /-- its store as it was opened -/
  origin : Store.Opened

/-- Opens the wallet of a configuration. -/
def openConfig (disk : Disk m) (config : Config) : Work m Opened := do
  let address ← orStop .setup config.databaseText
  let origin ← orStop .ofStore (← lift (Store.openText disk address))
  return ⟨.ofStore config origin.store, origin⟩

/-- Opens the wallet of a configuration file. -/
def openFile (disk : Disk m) (path : Path) : Work m Opened := do
  let (loaded, lines) ← lift (Config.loadOrStandard disk path)
  note lines
  openConfig disk (← orStop .ofConfigFile loaded)

/-- Keeps what a wallet did: its lines in the journal, its store on the disk. What the store does
not take is not done at all. -/
def keep {α : Type} (disk : Disk m) (o : Opened) (reply : Reply α Wallet) : Work m α := do
  let next := reply.state.vault.store
  unless o.origin.takes next do throw (.ofStore (.refused .readOnly))
  note reply.lines
  lift (o.origin.save disk next)
  return reply.result

/-- Carries out an operation of the store. -/
def perform (disk : Disk m) (o : Opened) (op : Store.Op) : Work m Store.Receipt := do
  orStop (fun fault => .wallet (.access fault)) (← keep disk o (o.wallet.perform op))

/-- The transaction id given as an argument. -/
def txidOf (text : String) : Except SetupFault Txid :=
  match Hex.decode text with
  | .error fault => .error (.txidDigits fault)
  | .ok bytes =>
    match Txid.ofBytes? bytes with
    | some txid => .ok txid
    | none => .error (.txidLength bytes.length)

/-- The request given as an argument, or in the file it names after an at sign. -/
def requestOf (disk : Disk m) (arg : String) : Work m Request := do
  let text ← match arg.toList with
    | '@' :: path => do
      orStop .file (← lift (disk.readText (.ofText (String.ofList path))))
    | _ => pure arg
  match (Json.parse? text).bind Request.ofJson? with
  | some r => return r
  | none => throw .malformed

/-- Writes a configuration file and makes its store. -/
def setUp (disk : Disk m) (path : Path) (database : Option Path) (force : Bool) :
    Work m (Option Printout) := do
  if (← lift (disk.present path)) && !force then throw (.setup (.fileExists path))
  let config := { Config.standard with
    databasePath := database.getD Config.standard.databasePath }
  orStop .ofConfigFile (← lift (config.save disk path))
  let _ ← openConfig disk config
  note [⟨.info, s!"wrote {path.display}"⟩]
  return none

/-- Adds a change output. -/
def addChange (disk : Disk m) (path : Path) (txid : String) (vout satoshis : Nat)
    (script : String) : Work m (Option Printout) := do
  let o ← openFile disk path
  let txid ← orStop .setup (txidOf txid)
  let script ← orStop (fun fault => .setup (.scriptDigits fault)) (Hex.decode script)
  let output : Store.NewOutput := ⟨txid, vout, satoshis, script⟩
  orStop .ofStore output.check
  match ← perform disk o (.add output) with
  | .added id => return some ⟨.obj [("outputId", .int id)], false⟩
  | _ => return none

/-- Funds a request. -/
def fund (disk : Disk m) (entropy : Nat → Float) (path : Path) (request : String) :
    Work m (Option Printout) := do
  let o ← openFile disk path
  let request ← requestOf disk request
  let funded ← orStop .wallet (← keep disk o (o.wallet.fund entropy request))
  return some ⟨funded.toJson, true⟩

/-- Aborts a run. -/
def abort (disk : Disk m) (path : Path) (run : Int) : Work m (Option Printout) := do
  let o ← openFile disk path
  match ← perform disk o (.abort run) with
  | .aborted released =>
    return some ⟨.obj [("released", .ofNat released), ("runId", .int run)], false⟩
  | _ => return none

/-- Shows what can be spent. -/
def balance (disk : Disk m) (path : Path) : Work m (Option Printout) := do
  let o ← openFile disk path
  let balance ← orStop (fun fault => .wallet (.access fault)) o.wallet.balance
  return some ⟨balance.toJson, true⟩

/-- Carries out a command. -/
def execute (disk : Disk m) (entropy : Nat → Float) (call : Invocation) :
    Work m (Option Printout) :=
  match call.command with
  | .init database force => setUp disk call.config database force
  | .addChange txid vout satoshis script => addChange disk call.config txid vout satoshis script
  | .fund request => fund disk entropy call.config request
  | .abort run => abort disk call.config run
  | .balance => balance disk call.config

/-- Carries out a command line. -/
def run (disk : Disk m) (entropy : Nat → Float) (args : List String) : m Ending := do
  match read args with
  | none => return ⟨2, none, []⟩
  | some call =>
    let (result, lines) ← ((execute disk entropy call).run).run []
    let shown := lines.filter Line.isProminent
    match result with
    | .ok printout => return ⟨0, printout, shown⟩
    | .error fault => return ⟨1, none, shown ++ [⟨.error, fault.message⟩]⟩

end

end CommandLine

end CoinPurse
