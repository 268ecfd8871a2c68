import CoinPurse.Json.Reader
import CoinPurse.Json.Record
import CoinPurse.Json.Writer
import CoinPurse.Store.Basic

/-!
# Stores as bytes

A store is written with the columns that its rows have here (`Row`, `RunRow`), which are all but the
times, and with the claims on its outputs. It is put in data notation over several lines, and read
back as it was written. A cell with a number is written as that number, one with bytes in
hexadecimal, and one with nothing as nothing. What goes into a file has a byte in front that no text
contains, so that a text is never taken for a store. -/

namespace CoinPurse.Store

/-- Reads a string of bytes. -/
def readBytes (j : Json) : Option Bytes := (Json.text j).bind fun s => (Hex.decode s).toOption

/-- A string of bytes. -/
def writeBytes (bytes : Bytes) : Json := .str (Hex.encode bytes)

namespace Cell

/-- Reads a cell. -/
def ofJson? : Json → Option Cell
  | .null => some .null
  | .int n => some (.int n)
  | j => (readBytes j).map .bytes

/-- A cell. -/
def toJson : Cell → Json
  | .null => .null
  | .int n => .int n
  | .bytes b => writeBytes b

end Cell

namespace Slot

/-- Reads an output with the claim on it. -/
def ofJson? (j : Json) : Option Slot := do
  let f ← Json.record ["id", "txid", "vout", "satoshis", "script", "spent", "spendingTxid",
    "claim"] j
  let row : Row := {
    id := ← f.need "id" Json.signed64
    txid := ← f.need "txid" Cell.ofJson?
    vout := ← f.need "vout" Cell.ofJson?
    satoshis := ← f.need "satoshis" Cell.ofJson?
    script := ← f.need "script" readBytes
    spent := ← f.need "spent" Cell.ofJson?
    spendingTxid := ← f.need "spendingTxid" Cell.ofJson? }
  return ⟨row, ← f.need "claim" (Json.option Json.signed64)⟩

/-- An output with the claim on it. -/
def toJson (s : Slot) : Json :=
  .obj [("id", .int s.row.id), ("txid", s.row.txid.toJson), ("vout", s.row.vout.toJson),
    ("satoshis", s.row.satoshis.toJson), ("script", writeBytes s.row.script),
    ("spent", s.row.spent.toJson), ("spendingTxid", s.row.spendingTxid.toJson),
    ("claim", (s.claim.map Json.int).getD .null)]

end Slot

namespace RunRow

/-- Reads a run. -/
def ofJson? (j : Json) : Option RunRow := do
  let f ← Json.record ["id", "status", "spendingTxid"] j
  return {
    id := ← f.need "id" Json.signed64
    status := ← f.need "status" Cell.ofJson?
    spendingTxid := ← f.need "spendingTxid" Cell.ofJson? }

/-- A run. -/
def toJson (r : RunRow) : Json :=
  .obj [("id", .int r.id), ("status", r.status.toJson), ("spendingTxid", r.spendingTxid.toJson)]

end RunRow

/-- Reads a store. -/
def ofText? (text : String) : Option Store := do
  let f ← Json.record ["outputs", "runs"] (← Json.parse? text)
  return ⟨← f.need "outputs" (Json.list Slot.ofJson?), ← f.need "runs" (Json.list RunRow.ofJson?)⟩

/-- A store as text. -/
def toText (s : Store) : String :=
  Json.pretty (.obj [("outputs", .arr (s.slots.map Slot.toJson)),
    ("runs", .arr (s.runs.map RunRow.toJson))])

/-- The byte in front of a store. -/
def mark : UInt8 := 0xFF

/-- Reads the store in a file. -/
def decode? : Bytes → Option Store
  | first :: rest => if first = mark then (Bytes.text? rest).bind ofText? else none
  | [] => none

/-- What the file of a store holds. -/
def encode (s : Store) : Bytes := mark :: Bytes.ofText s.toText

/-- A file is read by reading the text in it. -/
theorem decode?_encode (s : Store) : decode? s.encode = ofText? s.toText := by
  simp [decode?, encode, Bytes.text?_ofText]

end CoinPurse.Store
