import CoinPurse.Transaction
import CoinPurse.Word

/-!
# Sizes and bytes

The size that is computed from the lengths of the scripts alone is the number of bytes of every
transaction with such scripts (`Transaction.length_bytes`), whatever else it says.

The bytes do tell all that a transaction says: where its numbers fit their fields and the lengths a
word, it is read back from them (`Transaction.read?_bytes`). A length that is not small is announced
by a marker, and no small length looks like one (`Transaction.readCompact_compact`).

Sizes are added up without any limit here. In words the sums give the same, as long as the size
itself fits a word (`Size.transaction64_eq`).
-/

namespace CoinPurse

/-! ## In words -/

namespace Size

/-- Bytes of the compact form of a length that is a word. -/
def compact64 (n : UInt64) : UInt64 :=
  if n ≤ 0xfc then 1 else if n ≤ 0xffff then 3 else if n ≤ 0xffffffff then 5 else 9

/-- Bytes of an input, in words. -/
def input64 (script : UInt64) : UInt64 := 40 + compact64 script + script

/-- Bytes of an output, in words. -/
def output64 (script : UInt64) : UInt64 := compact64 script + script + 8

/-- How many sizes there are and what they add up to, in words. -/
def sum64 (size : UInt64 → UInt64) (scripts : List UInt64) : UInt64 × UInt64 :=
  scripts.foldl (fun (count, sum) script => (count + 1, sum + size script)) (0, 0)

/-- Bytes of a transaction, in words. Sums beyond the largest word wrap around. -/
def transaction64 (unlocking locking : List UInt64) : UInt64 :=
  let (inputCount, inputs) := sum64 input64 unlocking
  let (outputCount, outputs) := sum64 output64 locking
  8 + compact64 inputCount + inputs + compact64 outputCount + outputs

section
variable {n : Nat}

/-- For a word the compact form is as long as for the number. -/
theorem compact64_ofNat (h : n ≤ Word.max64) :
    compact64 (UInt64.ofNat n) = UInt64.ofNat (compact n) := by
  have hword : (UInt64.ofNat n).toNat = n := UInt64.toNat_ofNat_of_lt' (Nat.lt_succ_of_le h)
  simp only [compact64, compact, UInt64.le_iff_toNat_le, hword, apply_ite UInt64.ofNat]
  rfl

/-- For a word an input is as long as for the number. -/
theorem input64_ofNat (h : n ≤ Word.max64) :
    input64 (UInt64.ofNat n) = UInt64.ofNat (input n) := by
  rw [input64, compact64_ofNat h, input, UInt64.ofNat_add, UInt64.ofNat_add]
  rfl

/-- For a word an output is as long as for the number. -/
theorem output64_ofNat (h : n ≤ Word.max64) :
    output64 (UInt64.ofNat n) = UInt64.ofNat (output n) := by
  rw [output64, compact64_ofNat h, output, Nat.add_assoc, Nat.add_comm, UInt64.ofNat_add,
    UInt64.ofNat_add]
  rfl

end

/-- Sums in words are the words of the sums. -/
theorem sum64_ofNat {size64 : UInt64 → UInt64} {size : Nat → Nat} {scripts : List Nat}
    (hsize : ∀ n ∈ scripts, size64 (UInt64.ofNat n) = UInt64.ofNat (size n)) :
    sum64 size64 (scripts.map UInt64.ofNat) =
      (UInt64.ofNat scripts.length, UInt64.ofNat (totalOf (scripts.map size))) := by
  -- the sums so far have to be carried along
  have hfold : ∀ count sum : UInt64, (scripts.map UInt64.ofNat).foldl
      (fun (count, sum) script => (count + 1, sum + size64 script)) (count, sum) =
      (count + UInt64.ofNat scripts.length, sum + UInt64.ofNat (totalOf (scripts.map size))) := by
    induction scripts with
    | nil => simp
    | cons n rest ih =>
      obtain ⟨hn, hrest⟩ := List.forall_mem_cons.1 hsize
      intro count sum
      rw [List.map_cons, List.foldl_cons, ih hrest, hn]
      simp [UInt64.ofNat_add, UInt64.add_assoc, UInt64.add_comm 1]
  simpa [sum64] using hfold 0 0

/-- Every script takes some bytes, so there are no more scripts than bytes. -/
theorem length_le_totalOf {size : Nat → Nat} (hsize : ∀ n, n < size n) (scripts : List Nat) :
    scripts.length ≤ totalOf (scripts.map size) := by
  induction scripts with
  | nil => simp
  | cons n rest ih =>
    have hn := hsize n
    simp only [List.length_cons, List.map_cons, totalOf_cons]
    omega

/-- Every script takes at least its length, so none is longer than all of them take. -/
theorem le_totalOf_map {size : Nat → Nat} (hsize : ∀ n, n < size n) {scripts : List Nat} {n : Nat}
    (hn : n ∈ scripts) : n ≤ totalOf (scripts.map size) :=
  Nat.le_trans (Nat.le_of_lt (hsize n)) (le_totalOf_of_mem (List.mem_map_of_mem hn))

/-- An input is longer than its script. -/
theorem lt_input (n : Nat) : n < input n := by
  simp only [input]
  omega

/-- An output is longer than its script. -/
theorem lt_output (n : Nat) : n < output n := by
  simp only [output]
  omega

section
variable {unlocking locking : List Nat}

/-- All that is counted of a transaction fits a word, if its size does. -/
theorem totalOf_le_of_transaction_le {bound : Nat} (h : transaction unlocking locking ≤ bound) :
    totalOf (unlocking.map input) ≤ bound ∧ totalOf (locking.map output) ≤ bound := by
  simp only [transaction, frame] at h
  omega

/-- **No sum wraps around**, unless the size of the transaction does not fit a word. -/
theorem transaction64_eq (h : transaction unlocking locking ≤ Word.max64) :
    (transaction64 (unlocking.map UInt64.ofNat) (locking.map UInt64.ofNat)).toNat =
      transaction unlocking locking := by
  obtain ⟨hinputs, houtputs⟩ := totalOf_le_of_transaction_le h
  have hunlocking := length_le_totalOf lt_input unlocking
  have hlocking := length_le_totalOf lt_output locking
  have hsums : transaction64 (unlocking.map UInt64.ofNat) (locking.map UInt64.ofNat) =
      UInt64.ofNat (transaction unlocking locking) := by
    rw [transaction64,
      sum64_ofNat fun n hn => input64_ofNat (Nat.le_trans (le_totalOf_map lt_input hn) hinputs),
      sum64_ofNat fun n hn => output64_ofNat (Nat.le_trans (le_totalOf_map lt_output hn) houtputs)]
    simp only [transaction, frame, UInt64.ofNat_add]
    rw [compact64_ofNat (Nat.le_trans hunlocking hinputs),
      compact64_ofNat (Nat.le_trans hlocking houtputs)]
    rfl
  rw [hsums]
  exact UInt64.toNat_ofNat_of_lt' (Nat.lt_succ_of_le h)

end

end Size

namespace Transaction

/-- The lengths of the unlocking scripts. -/
def unlocking (t : Transaction) : List Nat := t.inputs.map (·.script.length)

/-- The lengths of the locking scripts. -/
def locking (t : Transaction) : List Nat := t.outputs.map (·.script.length)

/-! ## How many bytes there are -/

/-- A script takes its length and the compact form of it. -/
theorem length_scriptBytes (script : Bytes) :
    (scriptBytes script).length = Size.compact script.length + script.length := by
  rw [scriptBytes, List.length_append, length_compact]

/-- An input has as many bytes as are counted for its script. -/
theorem Input.length_bytes (i : Input) : i.bytes.length = Size.input i.script.length := by
  simp only [Input.bytes, List.length_append, length_scriptBytes, length_littleEndian,
    i.txid.length_eq, Size.input]
  omega

/-- An output has as many bytes as are counted for its script. -/
theorem Output.length_bytes (o : Output) : o.bytes.length = Size.output o.script.length := by
  simp only [Output.bytes, List.length_append, length_scriptBytes, length_littleEndian,
    Size.output]
  omega

/-- What is written one after the other takes the bytes of each. -/
theorem length_flatMap_eq {α : Type} {write : α → Bytes} {script : α → Bytes} {size : Nat → Nat}
    (hwrite : ∀ a, (write a).length = size (script a).length) (as : List α) :
    (as.flatMap write).length = totalOf ((as.map fun a => (script a).length).map size) := by
  induction as with
  | nil => rfl
  | cons a rest ih => simp [ih, hwrite]

/-- **The size is the number of bytes.** -/
theorem length_bytes (t : Transaction) :
    t.bytes.length = Size.transaction t.unlocking t.locking := by
  simp only [bytes, List.length_append, length_littleEndian, length_compact,
    length_flatMap_eq Input.length_bytes, length_flatMap_eq Output.length_bytes,
    Size.transaction, Size.frame, unlocking, locking, List.length_map]
  omega

/-! ## Reading them back -/

/-- Reads a number of bytes from the front, and gives them with the rest. -/
def readBytes (n : Nat) (bytes : Bytes) : Option (Bytes × Bytes) :=
  if n ≤ bytes.length then some (bytes.take n, bytes.drop n) else none

/-- Reads a number in so many bytes, the lowest first. -/
def readLittleEndian : Nat → Bytes → Option (Nat × Bytes)
  | 0, bytes => some (0, bytes)
  | _ + 1, [] => none
  | width + 1, b :: rest =>
    (readLittleEndian width rest).map fun (n, rest) => (b.toNat + 256 * n, rest)

/-- Reads a length in compact form. -/
def readCompact : Bytes → Option (Nat × Bytes)
  | [] => none
  | marker :: rest =>
    if marker = 0xfd then readLittleEndian 2 rest
    else if marker = 0xfe then readLittleEndian 4 rest
    else if marker = 0xff then readLittleEndian 8 rest
    else some (marker.toNat, rest)

/-- Reads a script with its length in front. -/
def readScript (bytes : Bytes) : Option (Bytes × Bytes) := do
  let (length, rest) ← readCompact bytes
  readBytes length rest

/-- Reads an input. -/
def Input.read? (bytes : Bytes) : Option (Input × Bytes) := do
  let (id, rest) ← readBytes 32 bytes
  let txid ← Txid.ofBytes? id
  let (vout, rest) ← readLittleEndian 4 rest
  let (script, rest) ← readScript rest
  let (sequence, rest) ← readLittleEndian 4 rest
  some (⟨txid, vout, script, sequence⟩, rest)

/-- Reads an output. -/
def Output.read? (bytes : Bytes) : Option (Output × Bytes) := do
  let (satoshis, rest) ← readLittleEndian 8 bytes
  let (script, rest) ← readScript rest
  some (⟨satoshis, script⟩, rest)

/-- Reads a number of things of a kind, one after the other. -/
def readMany {α : Type} (read : Bytes → Option (α × Bytes)) : Nat → Bytes → Option (List α × Bytes)
  | 0, bytes => some ([], bytes)
  | count + 1, bytes => do
    let (a, rest) ← read bytes
    let (as, rest) ← readMany read count rest
    some (a :: as, rest)

/-- Reads a transaction, with nothing after it. -/
def read? (bytes : Bytes) : Option Transaction := do
  let (version, rest) ← readLittleEndian 4 bytes
  let (inputCount, rest) ← readCompact rest
  let (inputs, rest) ← readMany Input.read? inputCount rest
  let (outputCount, rest) ← readCompact rest
  let (outputs, rest) ← readMany Output.read? outputCount rest
  let (lockTime, rest) ← readLittleEndian 4 rest
  if rest = [] then some ⟨version, inputs, outputs, lockTime⟩ else none

/-- An input whose numbers fit their fields. -/
structure Input.Fits (i : Input) : Prop where
  vout : i.vout ≤ Word.max32
  sequence : i.sequence ≤ Word.max32

/-- A transaction whose numbers fit their fields. -/
structure Fits (t : Transaction) : Prop where
  version : t.version ≤ Word.max32
  inputs : ∀ i ∈ t.inputs, i.Fits
  outputs : ∀ o ∈ t.outputs, o.satoshis ≤ Word.max64
  lockTime : t.lockTime ≤ Word.max32

/-- The bytes at the front are read as they are. -/
theorem readBytes_append {n : Nat} {bytes : Bytes} (h : bytes.length = n) (rest : Bytes) :
    readBytes n (bytes ++ rest) = some (bytes, rest) := by
  subst h
  simp [readBytes]

/-- A number is read back from as many bytes as it needs. -/
theorem readLittleEndian_littleEndian (width : Nat) {n : Nat} (h : n < Nat.pow 256 width)
    (rest : Bytes) :
    readLittleEndian width (littleEndian width n ++ rest) = some (n, rest) := by
  induction width generalizing n with
  | zero =>
    obtain rfl : n = 0 := Nat.lt_one_iff.1 h
    rfl
  | succ width ih =>
    have hhigh : n / 256 < Nat.pow 256 width := Nat.div_lt_of_lt_mul (by rwa [Nat.mul_comm])
    have hdigits := Nat.mod_add_div n 256
    simp [littleEndian, readLittleEndian, ih hhigh, hdigits]

/-- **A length is read back**, whichever of the four forms it takes. -/
theorem readCompact_compact {n : Nat} (h : n ≤ Word.max64) (rest : Bytes) :
    readCompact (compact n ++ rest) = some (n, rest) := by
  rw [compact]
  split
  · rename_i hsmall
    -- a small length is none of the markers
    have hbyte : (UInt8.ofNat n).toNat = n :=
      UInt8.toNat_ofNat_of_lt' (Nat.lt_of_le_of_lt hsmall (by decide))
    have hmarker : ∀ marker : UInt8, 0xfc < marker.toNat → UInt8.ofNat n ≠ marker := by
      rintro marker hmarker rfl
      omega
    simp [littleEndian, readCompact, hmarker, hbyte]
  · split
    · rename_i hword
      exact readLittleEndian_littleEndian 2 (Nat.lt_succ_of_le hword) rest
    · split
      · rename_i hword
        exact readLittleEndian_littleEndian 4 (Nat.lt_succ_of_le hword) rest
      · exact readLittleEndian_littleEndian 8 (Nat.lt_succ_of_le h) rest

/-- A script is read back. -/
theorem readScript_scriptBytes {script : Bytes} (h : script.length ≤ Word.max64) (rest : Bytes) :
    readScript (scriptBytes script ++ rest) = some (script, rest) := by
  simp [readScript, scriptBytes, readCompact_compact h, readBytes_append]

/-- An input is read back. -/
theorem Input.read?_bytes {i : Input} (h : i.Fits) (hscript : i.script.length ≤ Word.max64)
    (rest : Bytes) : Input.read? (i.bytes ++ rest) = some (i, rest) := by
  have hvout := readLittleEndian_littleEndian 4 (Nat.lt_succ_of_le h.vout)
  have hsequence := readLittleEndian_littleEndian 4 (Nat.lt_succ_of_le h.sequence)
  simp [Input.read?, Input.bytes, readBytes_append i.txid.length_eq, Txid.ofBytes?_bytes, hvout,
    readScript_scriptBytes hscript, hsequence]

/-- An output is read back. -/
theorem Output.read?_bytes {o : Output} (h : o.satoshis ≤ Word.max64)
    (hscript : o.script.length ≤ Word.max64) (rest : Bytes) :
    Output.read? (o.bytes ++ rest) = some (o, rest) := by
  have hsatoshis := readLittleEndian_littleEndian 8 (Nat.lt_succ_of_le h)
  simp [Output.read?, Output.bytes, hsatoshis, readScript_scriptBytes hscript]

/-- Several things of a kind are read back, if each of them is. -/
theorem readMany_flatMap {α : Type} {read : Bytes → Option (α × Bytes)} {write : α → Bytes}
    {as : List α} (hread : ∀ a ∈ as, ∀ rest, read (write a ++ rest) = some (a, rest))
    (rest : Bytes) : readMany read as.length (as.flatMap write ++ rest) = some (as, rest) := by
  induction as with
  | nil => rfl
  | cons a others ih =>
    obtain ⟨ha, hothers⟩ := List.forall_mem_cons.1 hread
    simp [readMany, ha, ih hothers]

/-- **A transaction is read back from its bytes.** -/
theorem read?_bytes {t : Transaction} (h : t.Fits)
    (hsize : Size.transaction t.unlocking t.locking ≤ Word.max64) : read? t.bytes = some t := by
  obtain ⟨hunlocking, hlocking⟩ := Size.totalOf_le_of_transaction_le hsize
  have hinputs := readMany_flatMap fun i (hi : i ∈ t.inputs) => Input.read?_bytes (h.inputs i hi)
    (Nat.le_trans (Size.le_totalOf_map Size.lt_input (List.mem_map.2 ⟨i, hi, rfl⟩)) hunlocking)
  have houtputs := readMany_flatMap fun o (ho : o ∈ t.outputs) => Output.read?_bytes
    (h.outputs o ho)
    (Nat.le_trans (Size.le_totalOf_map Size.lt_output (List.mem_map.2 ⟨o, ho, rfl⟩)) hlocking)
  have hinputCount : t.inputs.length ≤ Word.max64 := by
    have hlength := Size.length_le_totalOf Size.lt_input t.unlocking
    rw [unlocking, List.length_map] at hlength
    exact Nat.le_trans hlength hunlocking
  have houtputCount : t.outputs.length ≤ Word.max64 := by
    have hlength := Size.length_le_totalOf Size.lt_output t.locking
    rw [locking, List.length_map] at hlength
    exact Nat.le_trans hlength hlocking
  have hversion := readLittleEndian_littleEndian 4 (Nat.lt_succ_of_le h.version)
  have hlockTime := readLittleEndian_littleEndian 4 (Nat.lt_succ_of_le h.lockTime) []
  rw [List.append_nil] at hlockTime
  simp [read?, bytes, hversion, readCompact_compact hinputCount, hinputs,
    readCompact_compact houtputCount, houtputs, hlockTime]

/-! ## With given scripts -/

/-- An input with an unlocking script of this length, all zeros. -/
def Input.blank (script : Nat) : Input :=
  ⟨⟨List.replicate 32 0, List.length_replicate⟩, 0, List.replicate script 0, 0⟩

/-- An output with a locking script of this length, all zeros. -/
def Output.blank (script : Nat) : Output := ⟨0, List.replicate script 0⟩

/-- A transaction with scripts of these lengths. -/
def blank (unlocking locking : List Nat) : Transaction :=
  ⟨1, unlocking.map Input.blank, locking.map Output.blank, 0⟩

/-- The numbers of a transaction with blank scripts fit their fields. -/
theorem blank_fits (unlocking locking : List Nat) : (blank unlocking locking).Fits := by
  constructor
  case version => exact Nat.succ_le_succ (Nat.zero_le _)
  case inputs =>
    intro i hi
    obtain ⟨n, -, rfl⟩ := List.mem_map.1 hi
    exact ⟨Nat.zero_le _, Nat.zero_le _⟩
  case outputs =>
    intro o ho
    obtain ⟨n, -, rfl⟩ := List.mem_map.1 ho
    exact Nat.zero_le _
  case lockTime => exact Nat.zero_le _

/-- The scripts of a transaction with blank scripts have the lengths asked for. -/
theorem scripts_blank (unlocking locking : List Nat) :
    (blank unlocking locking).unlocking = unlocking ∧
      (blank unlocking locking).locking = locking := by
  simp [blank, Transaction.unlocking, Transaction.locking, Input.blank, Output.blank,
    Function.comp_def]

/-- **Sizes are numbers of bytes.** Whatever lengths the scripts have, there are transactions with
such scripts, and each of them has as many bytes as are counted from the lengths alone. If that
number fits a word, sums in words give it, too, and the transaction is read back from its bytes. The
compact form of a length takes one, three, five or nine of them. -/
theorem size_serialization (unlocking locking : List Nat) :
    (∃ t : Transaction, t.Fits ∧ t.unlocking = unlocking ∧ t.locking = locking) ∧
      (∀ t : Transaction, t.unlocking = unlocking → t.locking = locking →
        t.bytes.length = Size.transaction unlocking locking ∧
          (t.bytes.length ≤ Word.max64 →
            (Size.transaction64 (unlocking.map UInt64.ofNat) (locking.map UInt64.ofNat)).toNat =
              t.bytes.length ∧ (t.Fits → read? t.bytes = some t))) ∧
      ∀ n, (compact n).length =
        if n < 253 then 1 else if n < 65536 then 3 else if n < 4294967296 then 5 else 9 := by
  refine ⟨⟨blank unlocking locking, blank_fits _ _, scripts_blank _ _⟩, ?_, ?_⟩
  · rintro t rfl rfl
    refine ⟨t.length_bytes, fun hsize => ?_⟩
    rw [t.length_bytes] at hsize ⊢
    exact ⟨Size.transaction64_eq hsize, fun hfits => read?_bytes hfits hsize⟩
  · intro n
    rw [length_compact, Size.compact]
    simp only [Nat.lt_succ_iff]

/-- With 253 inputs, and with scripts of 253 and of 65536 bytes, longer forms are needed. -/
theorem size_serialization_longForms :
    ∃ t : Transaction, t.unlocking = List.replicate 253 107 ∧ t.locking = [253, 65536] ∧
      t.bytes.length =
        4 + 3 + 253 * (36 + 1 + 107 + 4) + 1 + (8 + 3 + 253) + (8 + 5 + 65536) + 4 ∧
      (Size.transaction64 (List.replicate 253 107) [253, 65536]).toNat = t.bytes.length ∧
      read? t.bytes = some t := by
  obtain ⟨⟨t, hfits, hunlocking, hlocking⟩, hall, -⟩ :=
    size_serialization (List.replicate 253 107) [253, 65536]
  obtain ⟨hlength, hwords⟩ := hall t hunlocking hlocking
  rw [Size.transaction, List.map_replicate, totalOf_replicate, List.length_replicate] at hlength
  obtain ⟨hsum, hread⟩ := hwords (hlength ▸ by decide)
  rw [List.map_replicate] at hsum
  exact ⟨t, hunlocking, hlocking, hlength, hsum, hread hfits⟩

end Transaction

end CoinPurse
