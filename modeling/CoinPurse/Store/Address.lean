import CoinPurse.Bytes.Number
import CoinPurse.Bytes.Path
import CoinPurse.Store.Fault

/-!
# Addresses of stores

An *address* says where a store is kept. Most addresses are the path of a file and nothing else;
the file may be changed, and is made if it is missing. An address that begins with `file:` can say
more than that:

    file://localhost/path?name=value&name=value#anything

The host may be left out, together with the slashes in front of it or without them. Options come
after a question mark, and what comes after a hash sign does not count. In the path and in the
options a percent sign with two hexadecimal digits stands for a byte; a zero byte written that way
ends the part it is in. A beginning `sqlite://` counts as `file:`.

Some stores are kept nowhere. They begin empty and are gone when they are closed: those without a
path, those whose path is `:memory:`, and those that ask for it by an option. -/

namespace CoinPurse.Store

/-- What may be done with the file of a store. -/
inductive Mode where
  /-- it may be read -/
  | read
  /-- it may be read and changed -/
  | write
  /-- it may be read and changed, and made if it is missing -/
  | create
  /-- there is no file -/
  | passing
  deriving DecidableEq, Repr

namespace Mode

/-- The mode that an option asks for. -/
def named? (name : Bytes) : Option Mode :=
  if name = Bytes.ofText "ro" then some read
  else if name = Bytes.ofText "rw" then some write
  else if name = Bytes.ofText "rwc" then some create
  else if name = Bytes.ofText "memory" then some passing
  else none

/-- How much a mode permits. -/
def rank : Mode → Nat
  | read => 0
  | write => 1
  | create => 2
  | passing => 3

/-- Whether one may ask for a mode where another was asked for before. One may not ask for more, but
always for a store without a file. -/
def permits (current asked : Mode) : Bool := asked = passing || asked.rank ≤ current.rank

end Mode

/-- Where a store is kept. -/
structure Address where
  /-- the path of its file -/
  path : Path
  /-- what may be done with the file -/
  mode : Mode
  /-- whether it is kept in a file at all -/
  kept : Bool
  /-- whether nobody is going to change the file -/
  frozen : Bool
  /-- a file whose permissions the file of the store would get -/
  model : Option Path
  deriving DecidableEq, Repr

namespace Address

/-- An option with its value. -/
abbrev Setting := Bytes × Bytes

/-- The bytes up to the first one of this kind. -/
def upTo (c : Char) (bytes : Bytes) : Bytes := bytes.takeWhile (· != c.toUInt8)

/-- The bytes after the first one of this kind. -/
def beyond (c : Char) (bytes : Bytes) : Bytes := (bytes.dropWhile (· != c.toUInt8)).drop 1

/-- Bytes that a percent sign stands for are put in; a zero byte among them ends it all. -/
def unescape : Bytes → Bytes
  | 37 :: high :: low :: rest =>
    match Hex.digitValue high, Hex.digitValue low with
    | some h, some l =>
      if 16 * h + l = 0 then [] else UInt8.ofNat (16 * h + l) :: unescape rest
    | _, _ => 37 :: unescape (high :: low :: rest)
  | b :: rest => b :: unescape rest
  | [] => []

/-- The options in a text; those without a name are left out. -/
def settings (text : Bytes) : List Setting :=
  ((text.splitOn (Char.toUInt8 '&')).map fun item =>
    (unescape (upTo '=' item), unescape (beyond '=' item))).filter (·.1 != [])

/-- The mode after one more option. -/
def nextMode (mode : Mode) (s : Setting) : Except Trouble Mode :=
  if s.1 = Bytes.ofText "mode" then
    match Mode.named? s.2 with
    | none => .error .badAddress
    | some asked => if mode.permits asked then .ok asked else .error .denied
  else if s.1 = Bytes.ofText "cache" then
    if s.2 = Bytes.ofText "shared" || s.2 = Bytes.ofText "private" then .ok mode
    else .error .badAddress
  else .ok mode

/-- The systems that keep a store in a file. -/
def fileSystems : List Bytes :=
  ["unix", "unix-none", "unix-dotfile", "unix-excl"].map Bytes.ofText

/-- The system that keeps a store nowhere. -/
def memorySystem : Bytes := Bytes.ofText "memdb"

/-- Whether the store is kept in a file, by the last option that names a system. -/
def isInFile (options : List Setting) : Except Trouble Bool :=
  match options.reverse.lookup (Bytes.ofText "vfs") with
  | none => .ok true
  | some system =>
    if fileSystems.contains system then .ok true
    else if system = memorySystem then .ok false
    else .error .badAddress

/-- The number of a switch: what its value begins with, in decimal, or in hexadecimal after `0x`. A
number of more than 31 bits counts as zero. -/
def switchNumber (value : Bytes) : Nat :=
  let n := match value with
    | 48 :: x :: digit :: rest =>
      if (x = 88 || x = 120) && (Hex.digitValue digit).isSome then
        Bytes.digitsFrom 16 Hex.digitValue 0 (digit :: rest)
      else Bytes.leadingNatural value
    | _ => Bytes.leadingNatural value
  if n ≤ Word.maxSigned32 then n else 0

/-- The lower-case form of a letter; other bytes stay as they are. -/
def lowerCase (b : UInt8) : UInt8 := if 65 ≤ b && b ≤ 90 then b + 32 else b

/-- Whether a switch is on. A number counts by its lowest byte. -/
def isOn (value : Bytes) : Bool :=
  if (value.head?.bind Bytes.decimal?).isSome then switchNumber value % 256 != 0
  else (["on", "yes", "true"].map Bytes.ofText).contains (value.map lowerCase)

/-- The path that stands for a store without a file. -/
def memoryPath : Bytes := Bytes.ofText ":memory:"

/-- The address with this path and these options. -/
def ofParts (path : Bytes) (options : List Setting) : Except Trouble Address := do
  let mode ← options.foldlM nextMode .create
  let inFile ← isInFile options
  let named := mode != .passing && path != [] && path != memoryPath
  return {
    path := ⟨path⟩
    mode
    kept := inFile && named
    frozen := named && ((options.lookup (Bytes.ofText "immutable")).map isOn).getD false
    model := (options.lookup (Bytes.ofText "modeof")).map Path.mk }

/-- What follows the host, if there is none or it is this one. -/
def afterHost? : Bytes → Option Bytes
  | 47 :: 47 :: rest =>
    let host := upTo '/' rest
    if host = [] || host = Bytes.ofText "localhost" then some (rest.drop host.length) else none
  | bytes => some bytes

/-- Reads what follows the beginning of an address with options. -/
def readLong (bytes : Bytes) : Except Trouble Address :=
  match afterHost? bytes with
  | none => .error .badAddress
  | some rest =>
    let rest := upTo '#' rest
    ofParts (unescape (upTo '?' rest)) (settings (beyond '?' rest))

/-- The bytes of an address, with the shorter of its two possible beginnings. -/
def shorten (bytes : Bytes) : Bytes :=
  match (Bytes.ofText "sqlite://").isPrefixOf? bytes with
  | some rest => Bytes.ofText "file:" ++ rest
  | none => bytes

/-- Reads an address. -/
def ofText (text : String) : Except Fault Address :=
  let bytes := shorten (Bytes.ofText text)
  if bytes.contains 0 then .error (.zeroInAddress (bytes.idxOf 0))
  else
    let read := match (Bytes.ofText "file:").isPrefixOf? bytes with
      | some rest => readLong rest
      | none => ofParts bytes []
    read.mapError .unreachable

/-- Whether the store can be changed once it is open. -/
def isWritable (a : Address) : Bool := a.mode != .read && !a.frozen

end Address

end CoinPurse.Store
