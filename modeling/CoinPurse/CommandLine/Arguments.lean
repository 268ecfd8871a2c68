import CoinPurse.Bytes.Path
import CoinPurse.Config
import CoinPurse.Word

/-!
# Command lines

A command line is an option for the configuration file, the name of a command, and the options of
that command. An option is written `--name value` or `--name=value`; one without a value just
`--name`. An option stands at most once, a value that begins with a dash has to follow an equals
sign, and nothing else may stand on the line. A command line that breaks a rule is not understood;
no reason is given. -/

namespace CoinPurse

/-- What a user may ask for. -/
inductive Command where
  /-- write a configuration file, and make its store -/
  | init (database : Option Path) (force : Bool)
  /-- add a change output to the store -/
  | addChange (txid : String) (vout satoshis : Nat) (script : String)
  /-- fund a request, given as text or as the file it is in -/
  | fund (request : String)
  /-- abort a run -/
  | abort (run : Int)
  /-- show what can be spent -/
  | balance
  deriving DecidableEq, Repr

/-- A command and the configuration file it is about. -/
structure Invocation where
  /-- the configuration file -/
  config : Path
  /-- the command -/
  command : Command
  deriving DecidableEq, Repr

namespace CommandLine

/-- What a command line looks like. -/
def usage : String :=
  "usage: coin-purse [--config <file>] <command>\n"
    ++ "  init [--database <file>] [--force]\n"
    ++ "  add-change --txid <hex> --vout <index> --satoshis <amount> --script <hex>\n"
    ++ "  fund --request <json or @file>\n"
    ++ "  abort --run <id>\n"
    ++ "  balance"

/-- The options of a command: their names, and whether a value goes with them. -/
abbrev Switches := List (String × Bool)

/-- The options that stand on a line, with their values. -/
abbrev Given := List (String × Option String)

/-- Whether an argument begins with a dash and goes on. -/
def isDashed (arg : String) : Bool :=
  match arg.toList with
  | '-' :: _ :: _ => true
  | _ => false

/-- The name of an option, and the value that follows an equals sign. -/
def option? (arg : String) : Option (String × Option String) :=
  match arg.toList with
  | '-' :: '-' :: c :: body =>
    let name := String.ofList ((c :: body).takeWhile (· != '='))
    match (c :: body).dropWhile (· != '=') with
    | [] => some (name, none)
    | _ :: value => some (name, some (String.ofList value))
  | _ => none

/-- Reads options up to the first argument that is none, and gives what is left. The option that
waits for its value comes first, then the options already read. -/
def readOptions (switches : Switches) :
    Option String → Given → List String → Option (Given × List String)
  | none, given, [] => some (given, [])
  | some _, _, [] => none
  | some name, given, arg :: rest =>
    if isDashed arg then none else readOptions switches none ((name, some arg) :: given) rest
  | none, given, arg :: rest =>
    match option? arg with
    | none => if isDashed arg && arg != "--" then none else some (given, arg :: rest)
    | some (name, value) =>
      if given.any (·.1 == name) then none
      else match switches.lookup name, value with
      | none, _ => none
      | some true, some value => readOptions switches none ((name, some value) :: given) rest
      | some true, none => readOptions switches (some name) given rest
      | some false, none => readOptions switches none ((name, none) :: given) rest
      | some false, some _ => none

/-- The options of a command whose line holds nothing else. -/
def readAll (switches : Switches) (args : List String) : Option Given := do
  let (given, rest) ← readOptions switches none [] args
  if rest = [] || rest = ["--"] then some given else none

/-- The value of an option. -/
def value? (given : Given) (name : String) : Option String := (given.lookup name).join

/-- A path; it is not empty. -/
def path? (text : String) : Option Path := if text.isEmpty then none else some (.ofText text)

/-- The number written with decimal digits. -/
def digits? (cs : List Char) : Option Nat :=
  if cs.isEmpty || !cs.all Char.isDigit then none
  else some (cs.foldl (fun n c => 10 * n + (c.toNat - 48)) 0)

/-- A natural number up to a limit; it may have a plus sign. -/
def natural? (limit : Nat) (text : String) : Option Nat :=
  let number := match text.toList with
    | '+' :: cs => digits? cs
    | cs => digits? cs
  number.filter (· ≤ limit)

/-- A signed 64-bit word; it may have a sign. -/
def signed? (text : String) : Option Int :=
  let number : Option Int := match text.toList with
    | '+' :: cs => (digits? cs).map Int.ofNat
    | '-' :: cs => (digits? cs).map fun n => -(n : Int)
    | cs => (digits? cs).map Int.ofNat
  number.filter fun n => Word.minSigned64 ≤ n && n ≤ (Word.maxSigned64 : Int)

/-- An output index. -/
def vout? (text : String) : Option Nat :=
  ((signed? text).filter fun n => 0 ≤ n && n ≤ (Word.max32 : Int)).map Int.toNat

/-- Reads the options of `init`. -/
def readInit (args : List String) : Option Command := do
  let given ← readAll [("database", true), ("force", false)] args
  let force := given.any (·.1 == "force")
  match value? given "database" with
  | none => some (.init none force)
  | some text => return .init (some (← path? text)) force

/-- Reads the options of `add-change`. -/
def readAddChange (args : List String) : Option Command := do
  let given ← readAll [("txid", true), ("vout", true), ("satoshis", true), ("script", true)] args
  let txid ← value? given "txid"
  let vout ← (value? given "vout").bind vout?
  let satoshis ← (value? given "satoshis").bind (natural? Word.max64)
  let script ← value? given "script"
  return .addChange txid vout satoshis script

/-- Reads the options of `fund`. -/
def readFund (args : List String) : Option Command := do
  let given ← readAll [("request", true)] args
  return .fund (← value? given "request")

/-- Reads the options of `abort`. -/
def readAbort (args : List String) : Option Command := do
  let given ← readAll [("run", true)] args
  return .abort (← (value? given "run").bind signed?)

/-- Reads the options of `balance`, which has none. -/
def readBalance (args : List String) : Option Command := do
  let _ ← readAll [] args
  return .balance

/-- Reads a command by its name. -/
def readCommand (name : String) (args : List String) : Option Command :=
  match name with
  | "init" => readInit args
  | "add-change" => readAddChange args
  | "fund" => readFund args
  | "abort" => readAbort args
  | "balance" => readBalance args
  | _ => none

/-- Reads a command line. -/
def read (args : List String) : Option Invocation := do
  let (given, rest) ← readOptions [("config", true)] none [] args
  match rest with
  | [] => none
  | name :: args =>
    let config ← path? ((value? given "config").getD Config.defaultFile)
    return ⟨config, ← readCommand name args⟩

end CommandLine

end CoinPurse
