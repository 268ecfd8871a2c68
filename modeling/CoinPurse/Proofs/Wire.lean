import CoinPurse.Proofs.Json.Layout
import CoinPurse.Wire.Config
import CoinPurse.Wire.Plan
import Mathlib.Data.List.Nodup

/-!
# Records are read back

A value *carries over* if it is plain data when it is written and is read back from that
(`Json.CarriesOver`). So do lists if all their items do, and optional values. A record carries over
if its numbers fit their fields: it is written with each of its fields once, an optional one that is
absent excepted, and the reader finds every field by its name.
-/

namespace CoinPurse

namespace Json

/-- A value carries over if it is plain data when it is written, and is read back from that. -/
structure CarriesOver {α : Type} (write : α → Json) (read : Reader α) (a : α) : Prop where
  plain : (write a).Plain
  read_write : read (write a) = some a

section
variable {α : Type} {write : α → Json} {read : Reader α}

/-- **A value that carries over is read back from a text** that was written without any space. -/
theorem CarriesOver.compact {a : α} (h : CarriesOver write read a) :
    (parse? (Json.compact (write a))).bind read = some a := by
  rw [parse?_compact h.plain, Option.bind_some, h.read_write]

/-- A value that carries over is read back from a text that was written over several lines. -/
theorem CarriesOver.pretty {a : α} (h : CarriesOver write read a) :
    (parse? (Json.pretty (write a))).bind read = some a := by
  rw [parse?_pretty h.plain, Option.bind_some, h.read_write]

/-- A list carries over if its items do. -/
theorem CarriesOver.list {as : List α} (h : ∀ a ∈ as, CarriesOver write read a) :
    CarriesOver (fun as => arr (as.map write)) (Json.list read) as := by
  constructor
  · refine .arr ?_
    simp only [List.forall_mem_map]
    exact fun a ha => (h a ha).plain
  · rw [Json.list, List.mapM_map]
    induction as with
    | nil => rfl
    | cons a rest ih =>
      obtain ⟨ha, hrest⟩ := List.forall_mem_cons.1 h
      simp [ha.read_write, ih hrest]

end

/-- A natural number is read back if it is within the limit. -/
theorem natUpTo_ofNat {limit n : Nat} (h : n ≤ limit) : natUpTo limit (ofNat n) = some n := by
  simp [natUpTo, ofNat, h]

/-- A word is read back from its number. -/
theorem word64_ofNat {n : Nat} (h : n ≤ Word.max64) : word64 (ofNat n) = some n := natUpTo_ofNat h

/-- A short word is read back from its number. -/
theorem word32_ofNat {n : Nat} (h : n ≤ Word.max32) : word32 (ofNat n) = some n := natUpTo_ofNat h

/-- A signed word is read back from its number. -/
theorem signed64_int {n : Int} (hmin : Word.minSigned64 ≤ n) (hmax : n ≤ (Word.maxSigned64 : Int)) :
    signed64 (int n) = some n := by
  simp [signed64, hmin, hmax]

/-- A natural number is plain. -/
theorem plain_ofNat (n : Nat) : (ofNat n).Plain := .int n

/-- The field with this name. -/
def field (fields : List (String × Json)) : Fields := fun n => (fields.find? (·.1 == n)).map (·.2)

section
variable {α : Type} {name other : String} (read : Reader α) (missing : α) (j : Json)
  (fields : List (String × Json))

/-- A field that has to be present is read where its name stands. -/
@[simp] theorem need_field_self : (field ((name, j) :: fields)).need name read = read j := by
  simp [Fields.need, field]

/-- A field that has to be present is looked for behind every other name. -/
@[simp] theorem need_field_of_ne (h : name ≠ other) :
    (field ((name, j) :: fields)).need other read = (field fields).need other read := by
  simp [Fields.need, field, h]

/-- A field that may be missing is read where its name stands. -/
@[simp] theorem orElse_field_self :
    (field ((name, j) :: fields)).orElse name read missing = read j := by
  simp [Fields.orElse, field]

/-- A field that may be missing is looked for behind every other name. -/
@[simp] theorem orElse_field_of_ne (h : name ≠ other) :
    (field ((name, j) :: fields)).orElse other read missing =
      (field fields).orElse other read missing := by
  simp [Fields.orElse, field, h]

/-- A field that may be missing is missing if its name does not stand anywhere. -/
@[simp] theorem orElse_field_nil : (field []).orElse name read missing = some missing := rfl

end

/-- **A record is read from an object** in which no name occurs twice. -/
theorem record_obj {names : List String} {fields : List (String × Json)}
    (h : (fields.map (·.1)).Nodup) : record names (obj fields) = some (field fields) := by
  have honce : ∀ n, (fields.filter (·.1 == n)).length ≤ 1 := by
    intro n
    have hcount := List.nodup_iff_count_le_one.1 h n
    rwa [List.count, List.countP_map, List.countP_eq_length_filter] at hcount
  simp only [record, honce, decide_true, List.all_eq_true, implies_true, if_true]
  rfl

/-- **A record of two words carries over.** -/
theorem CarriesOver.words {α : Type} {write : α → Json} {read : Reader α} (make : Nat → Nat → α)
    {first second : String} (hnames : first ≠ second)
    (hwrite : ∀ a b, write (make a b) = obj [(first, ofNat a), (second, ofNat b)])
    (hread : ∀ j, read j = (record [first, second] j).bind fun f =>
      (f.need first word64).bind fun a => (f.need second word64).bind fun b => some (make a b))
    {a b : Nat} (ha : a ≤ Word.max64) (hb : b ≤ Word.max64) :
    CarriesOver write read (make a b) := by
  constructor
  · rw [hwrite]
    refine .obj ?_
    simp [plain_ofNat]
  · rw [hread, hwrite, record_obj (by simp [hnames])]
    simp [hnames, word64_ofNat ha, word64_ofNat hb]

end Json

/-! ## Rates -/

namespace FeeModel

/-- A rate that is a word. -/
def InRange (m : FeeModel) : Prop := m.rate ≤ Word.max64

/-- A rate carries over. -/
theorem carriesOver {m : FeeModel} (h : m.InRange) : Json.CarriesOver toJson ofJson? m := by
  constructor
  · refine .obj ?_
    simp [Json.Plain.str, Json.plain_ofNat]
  · rw [ofJson?, toJson, Json.record_obj (by simp)]
    simp [readUnit, Json.word64_ofNat h]

end FeeModel

/-! ## Terms -/

namespace FixedInput

/-- An input whose numbers are words. -/
structure InRange (i : FixedInput) : Prop where
  satoshis : i.satoshis ≤ Word.max64
  unlockingScript : i.unlockingScript ≤ Word.max64

/-- A fixed input carries over. -/
theorem carriesOver {i : FixedInput} (h : i.InRange) : Json.CarriesOver toJson ofJson? i :=
  .words mk (by decide) (fun _ _ => rfl) (fun _ => rfl) h.satoshis h.unlockingScript

end FixedInput

namespace FixedOutput

/-- An output whose numbers are words. -/
structure InRange (o : FixedOutput) : Prop where
  satoshis : o.satoshis ≤ Word.max64
  lockingScript : o.lockingScript ≤ Word.max64

/-- A fixed output carries over. -/
theorem carriesOver {o : FixedOutput} (h : o.InRange) : Json.CarriesOver toJson ofJson? o :=
  .words mk (by decide) (fun _ _ => rfl) (fun _ => rfl) h.satoshis h.lockingScript

end FixedOutput

namespace Terms

/-- Terms whose numbers fit their fields. -/
structure InRange (t : Terms) : Prop where
  feeModel : t.feeModel.InRange
  fixedInputs : ∀ i ∈ t.fixedInputs, i.InRange
  fixedOutputs : ∀ o ∈ t.fixedOutputs, o.InRange
  initialSatoshis : t.initialSatoshis ≤ Word.max64
  firstSatoshis : t.firstSatoshis ≤ Word.max64
  lockingScript : t.lockingScript ≤ Word.max64
  unlockingScript : t.unlockingScript ≤ Word.max64
  netCount : ∀ n ∈ t.netCount, Word.minSigned64 ≤ n ∧ n ≤ (Word.maxSigned64 : Int)

/-- **Terms carry over**, if they name no random values. -/
theorem carriesOver {t : Terms} (h : t.InRange) (hvalues : t.randomValues = none) :
    Json.CarriesOver toJson ofJson? t := by
  obtain ⟨feeModel, fixedInputs, fixedOutputs, initialSatoshis, firstSatoshis, lockingScript,
    unlockingScript, netCount, randomValues, quiet⟩ := t
  obtain rfl : randomValues = none := hvalues
  have hfeeModel : Json.CarriesOver _ _ feeModel := FeeModel.carriesOver h.feeModel
  have hinputs : Json.CarriesOver _ _ fixedInputs :=
    .list fun i hi => FixedInput.carriesOver (h.fixedInputs i hi)
  have houtputs : Json.CarriesOver _ _ fixedOutputs :=
    .list fun o ho => FixedOutput.carriesOver (h.fixedOutputs o ho)
  have hcount : ∀ n ∈ netCount, Json.signed64 (.int n) = some n := fun n hn =>
    Json.signed64_int (h.netCount n hn).1 (h.netCount n hn).2
  constructor
  · refine .obj ?_
    cases netCount <;> simp [Json.optionalField, hfeeModel.plain, hinputs.plain, houtputs.plain,
      Json.plain_ofNat, Json.Plain.int, Json.Plain.bool]
  · -- the names are distinct, whether the net count is among them or not
    rw [ofJson?, toJson, Json.record_obj (by cases netCount <;> simp [Json.optionalField])]
    cases netCount <;> simp [Json.optionalField, hfeeModel.read_write, hinputs.read_write,
      houtputs.read_write, Json.word64_ofNat h.initialSatoshis, Json.word64_ofNat h.firstSatoshis,
      Json.word64_ofNat h.lockingScript, Json.word64_ofNat h.unlockingScript, Json.option, hcount,
      Json.flag]

end Terms

/-! ## Plans -/

namespace Candidate

/-- A candidate whose numbers fit their fields. -/
structure InRange (c : Candidate) : Prop where
  id_ge : Word.minSigned64 ≤ c.id
  id_le : c.id ≤ (Word.maxSigned64 : Int)
  satoshis : c.satoshis ≤ Word.max64

/-- A claimed input carries over. -/
theorem carriesOver {c : Candidate} (h : c.InRange) : Json.CarriesOver toJson ofJson? c := by
  constructor
  · refine .obj ?_
    simp [Json.Plain.int, Json.plain_ofNat]
  · rw [ofJson?, toJson, Json.record_obj (by simp)]
    simp [Json.signed64_int h.id_ge h.id_le, Json.word64_ofNat h.satoshis]

end Candidate

namespace ChangeOutput

/-- An output whose numbers are words. -/
structure InRange (o : ChangeOutput) : Prop where
  satoshis : o.satoshis ≤ Word.max64
  lockingScript : o.lockingScript ≤ Word.max64

/-- A change output carries over. -/
theorem carriesOver {o : ChangeOutput} (h : o.InRange) : Json.CarriesOver toJson ofJson? o :=
  .words mk (by decide) (fun _ _ => rfl) (fun _ => rfl) h.satoshis h.lockingScript

end ChangeOutput

namespace Plan

/-- A plan whose numbers fit their fields. -/
structure InRange (p : Plan) : Prop where
  inputs : ∀ c ∈ p.inputs, c.InRange
  outputs : ∀ o ∈ p.outputs, o.InRange
  size : p.size ≤ Word.max64
  fee : p.fee ≤ Word.max64
  rate : p.rate ≤ Word.max64

/-- **A plan carries over.** -/
theorem carriesOver {p : Plan} (h : p.InRange) : Json.CarriesOver toJson ofJson? p := by
  have hinputs := Json.CarriesOver.list fun c hc => Candidate.carriesOver (h.inputs c hc)
  have houtputs := Json.CarriesOver.list fun o ho => ChangeOutput.carriesOver (h.outputs o ho)
  constructor
  · refine .obj ?_
    simp [hinputs.plain, houtputs.plain, Json.plain_ofNat]
  · rw [ofJson?, toJson, Json.record_obj (by simp)]
    simp [hinputs.read_write, houtputs.read_write, Json.word64_ofNat h.size,
      Json.word64_ofNat h.fee, Json.word64_ofNat h.rate]

end Plan

/-! ## Configurations -/

namespace Basket

/-- A basket whose numbers fit their fields. -/
structure InRange (b : Basket) : Prop where
  desiredCount : b.desiredCount ≤ Word.max32
  minimumSatoshis : b.minimumSatoshis ≤ Word.max64
  lockingScript : b.lockingScript ≤ Word.max64
  unlockingScript : b.unlockingScript ≤ Word.max64

/-- A basket carries over. -/
theorem carriesOver {b : Basket} (h : b.InRange) : Json.CarriesOver toJson ofJson? b := by
  constructor
  · refine .obj ?_
    simp [Json.plain_ofNat]
  · rw [ofJson?, toJson, Json.record_obj (by simp)]
    simp [Json.word32_ofNat h.desiredCount, Json.word64_ofNat h.minimumSatoshis,
      Json.word64_ofNat h.lockingScript, Json.word64_ofNat h.unlockingScript]

end Basket

/-- The text of a path is that of no other. -/
theorem Path.ofText_of_text? {p : Path} {text : String} (h : p.text? = some text) :
    Path.ofText text = p := by
  obtain ⟨bytes⟩ := p
  rw [Path.text?, Bytes.text?, String.fromUTF8?] at h
  split at h
  · obtain rfl := Option.some.inj h
    rfl
  · cases h

namespace Config

/-- A configuration whose numbers fit their fields. -/
structure InRange (c : Config) : Prop where
  feeModel : c.feeModel.InRange
  basket : c.basket.InRange

/-- A configuration with its fields, the path as this text. -/
def toJsonWith (text : String) (c : Config) : Json :=
  .obj [("databasePath", .str text), ("feeModel", c.feeModel.toJson),
    ("changeBasket", c.basket.toJson), ("noLogging", .bool c.quiet)]

/-- A configuration whose path is text is written with this text. -/
theorem toJson?_eq {c : Config} {text : String} (h : c.databasePath.text? = some text) :
    c.toJson? = some (c.toJsonWith text) := by
  rw [toJson?, h]
  rfl

/-- **A configuration carries over**, if its path is text. -/
theorem carriesOver {c : Config} (h : c.InRange) {text : String}
    (htext : c.databasePath.text? = some text) :
    Json.CarriesOver (toJsonWith text) ofJson? c := by
  have hfeeModel := FeeModel.carriesOver h.feeModel
  have hbasket := Basket.carriesOver h.basket
  constructor
  · refine .obj ?_
    simp [hfeeModel.plain, hbasket.plain, Json.Plain.str, Json.Plain.bool]
  · rw [ofJson?, toJsonWith, Json.record_obj (by simp)]
    simp [hfeeModel.read_write, hbasket.read_write, Path.ofJson?, Json.text,
      Path.ofText_of_text? htext, Json.flag]

end Config

end CoinPurse
