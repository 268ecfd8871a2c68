import CoinPurse.Proofs.Json.Tokens

/-!
# What is written is read back

The two writers differ in their blanks only. A `Layout` says which blanks stand at the start of a
line and after a colon, and `spell` gives the characters of a value in any layout. Without any
blanks that is what `compact` writes (`toList_compact`), and with two spaces to a level it is what
`pretty` writes (`toList_pretty`).

A value is read back in any layout (`Plain.readBack`), provided that it is `Plain`: a literal with
a point is rounded when it becomes a float, and something garbled has no text. Every character takes
up to two steps of reading, so the steps allowed are enough (`parse?_spell`).
-/

namespace CoinPurse.Json

/-- Characters that are blanks. -/
def Blank (cs : List Char) : Prop := ∀ c ∈ cs, isBlank c = true

/-- Where blanks are put. -/
structure Layout where
  /-- at the start of a line, so many levels deep -/
  line : Nat → List Char
  /-- between a colon and a value -/
  gap : List Char
  line_blank : ∀ depth, Blank (line depth)
  gap_blank : Blank gap

namespace Layout

/-- No blanks at all. -/
def tight : Layout where
  line _ := []
  gap := []
  line_blank _ := by simp [Blank]
  gap_blank := by simp [Blank]

@[simp] theorem tight_line (depth : Nat) : tight.line depth = [] := rfl
@[simp] theorem tight_gap : tight.gap = [] := rfl

/-- Two spaces to a level, and a space after a colon. -/
def indented : Layout where
  line depth := '\n' :: List.replicate (2 * depth) ' '
  gap := [' ']
  line_blank depth := by
    intro c hc
    rcases List.mem_cons.1 hc with rfl | hc
    · rfl
    · rw [(List.mem_replicate.1 hc).2]
      rfl
  gap_blank := by simp [Blank, isBlank]

@[simp] theorem indented_gap : indented.gap = [' '] := rfl

end Layout

/-- A text between quotes. -/
def quote (text : String) : List Char := '"' :: text.toList.flatMap escape ++ ['"']

section
variable (l : Layout)

mutual

/-- The characters of a value. -/
def spell (depth : Nat) : Json → List Char
  | arr [] => ['[', ']']
  | arr (j :: rest) =>
    '[' :: l.line (depth + 1) ++ spellItems depth (j :: rest) ++ l.line depth ++ [']']
  | obj [] => ['\x7b', '\x7d']
  | obj (f :: rest) =>
    '\x7b' :: l.line (depth + 1) ++ spellFields depth (f :: rest) ++ l.line depth ++ ['\x7d']
  | null => ['n', 'u', 'l', 'l']
  | bool true => ['t', 'r', 'u', 'e']
  | bool false => ['f', 'a', 'l', 's', 'e']
  | int n => (toString n).toList
  | decimal literal => literal.text.toList
  | str text => quote text
  | garbled => ['n', 'u', 'l', 'l']

/-- The characters of the items of a list, up to its end. -/
def spellItems (depth : Nat) : List Json → List Char
  | [] => []
  | [j] => spell (depth + 1) j
  | j :: rest => spell (depth + 1) j ++ ',' :: l.line (depth + 1) ++ spellItems depth rest

/-- The characters of the fields of an object, up to its end. -/
def spellFields (depth : Nat) : List (String × Json) → List Char
  | [] => []
  | [(name, j)] => quote name ++ ':' :: l.gap ++ spell (depth + 1) j
  | (name, j) :: rest =>
    quote name ++ ':' :: l.gap ++ spell (depth + 1) j ++ ',' :: l.line (depth + 1)
      ++ spellFields depth rest

end

/-- An item that is not the last ends with a comma. -/
theorem spellItems_cons_cons (depth : Nat) (j next : Json) (rest : List Json) :
    spellItems l depth (j :: next :: rest) =
      spell l (depth + 1) j ++ ',' :: l.line (depth + 1) ++ spellItems l depth (next :: rest) := by
  rw [spellItems]
  simp

/-- A field that is not the last ends with a comma. -/
theorem spellFields_cons_cons (depth : Nat) (name : String) (j : Json) (next : String × Json)
    (rest : List (String × Json)) :
    spellFields l depth ((name, j) :: next :: rest) =
      quote name ++ ':' :: l.gap ++ spell l (depth + 1) j ++ ',' :: l.line (depth + 1)
        ++ spellFields l depth (next :: rest) := by
  rw [spellFields]
  simp

end

/-- A value without literals that have a point or an exponent, and without anything garbled. -/
inductive Plain : Json → Prop
  | null : Plain null
  | bool (b : Bool) : Plain (bool b)
  | int (n : Int) : Plain (int n)
  | str (text : String) : Plain (str text)
  | arr {items : List Json} (hitems : ∀ j ∈ items, Plain j) : Plain (arr items)
  | obj {fields : List (String × Json)} (hfields : ∀ f ∈ fields, Plain f.2) : Plain (obj fields)

/-! ## What is written -/

section
variable {out : String}

/-- Characters are appended. -/
@[simp] theorem toList_pushAll (cs : List Char) : (pushAll out cs).toList = out.toList ++ cs := by
  rw [pushAll]
  induction cs generalizing out with
  | nil => simp
  | cons c cs ih => simp [ih]

/-- A text is appended between quotes. -/
@[simp] theorem toList_writeText (text : String) :
    (writeText out text).toList = out.toList ++ quote text := by
  have hchars : ∀ (cs : List Char) (out : String),
      (cs.foldl (fun out c => pushAll out (escape c)) out).toList =
        out.toList ++ cs.flatMap escape := by
    intro cs
    induction cs with
    | nil => simp
    | cons c cs ih => simp [ih]
  simp [writeText, hchars, quote]

/-- A new line is appended. -/
@[simp] theorem toList_newline (depth : Nat) :
    (newline out depth).toList = out.toList ++ Layout.indented.line depth := by
  rw [newline, toList_pushAll]
  rfl

variable {j : Json} {items : List Json} {fields : List (String × Json)}

/-- Items are appended one after the other if each of them is. -/
theorem toList_writeItems
    (hitems : ∀ j ∈ items, ∀ out depth,
      (writeCompact out j).toList = out.toList ++ spell .tight depth j) (depth : Nat) :
    (writeItems out items).toList = out.toList ++ spellItems .tight depth items ++ [']'] := by
  induction items generalizing out with
  | nil => simp [writeItems, spellItems]
  | cons j rest ih =>
    obtain ⟨hj, hrest⟩ := List.forall_mem_cons.1 hitems
    cases rest with
    | nil => simp [writeItems, spellItems, hj _ (depth + 1)]
    | cons next others =>
      rw [writeItems, ih hrest, spellItems_cons_cons]
      · simp [hj _ (depth + 1)]
      · simp

/-- Fields are appended one after the other if the value of each of them is. -/
theorem toList_writeFields
    (hfields : ∀ f ∈ fields, ∀ out depth,
      (writeCompact out f.2).toList = out.toList ++ spell .tight depth f.2) (depth : Nat) :
    (writeFields out fields).toList =
      out.toList ++ spellFields .tight depth fields ++ ['\x7d'] := by
  induction fields generalizing out with
  | nil => simp [writeFields, spellFields]
  | cons f rest ih =>
    obtain ⟨name, j⟩ := f
    obtain ⟨hj, hrest⟩ := List.forall_mem_cons.1 hfields
    cases rest with
    | nil => simp [writeFields, spellFields, hj _ (depth + 1)]
    | cons next others =>
      rw [writeFields, ih hrest, spellFields_cons_cons]
      · simp [hj _ (depth + 1)]
      · simp

/-- **What is written without blanks.** -/
theorem toList_writeCompact (h : Plain j) (out : String) (depth : Nat) :
    (writeCompact out j).toList = out.toList ++ spell .tight depth j := by
  induction h generalizing out depth with
  | null => simp [writeCompact, writeAtom, spell]
  | bool b => cases b <;> simp [writeCompact, writeAtom, spell]
  | int n => simp [writeCompact, writeAtom, spell]
  | str text => simp [writeCompact, writeAtom, spell]
  | @arr items _ ih =>
    rw [writeCompact, toList_writeItems ih depth]
    cases items with
    | nil => simp [spell, spellItems]
    | cons j rest => simp [spell]
  | @obj fields _ ih =>
    rw [writeCompact, toList_writeFields ih depth]
    cases fields with
    | nil => simp [spell, spellFields]
    | cons f rest => simp [spell]

/-- Items are appended line by line if each of them is. -/
theorem toList_writePrettyItems {depth : Nat}
    (hitems : ∀ j ∈ items, ∀ out depth,
      (writePretty out depth j).toList = out.toList ++ spell .indented depth j) :
    (writePrettyItems out depth items).toList = out.toList ++ spellItems .indented depth items := by
  induction items generalizing out with
  | nil => simp [writePrettyItems, spellItems]
  | cons j rest ih =>
    obtain ⟨hj, hrest⟩ := List.forall_mem_cons.1 hitems
    cases rest with
    | nil => simp [writePrettyItems, spellItems, hj]
    | cons next others =>
      rw [writePrettyItems, ih hrest, spellItems_cons_cons]
      · simp [hj]
      · simp

/-- Fields are appended line by line if the value of each of them is. -/
theorem toList_writePrettyFields {depth : Nat}
    (hfields : ∀ f ∈ fields, ∀ out depth,
      (writePretty out depth f.2).toList = out.toList ++ spell .indented depth f.2) :
    (writePrettyFields out depth fields).toList =
      out.toList ++ spellFields .indented depth fields := by
  induction fields generalizing out with
  | nil => simp [writePrettyFields, spellFields]
  | cons f rest ih =>
    obtain ⟨name, j⟩ := f
    obtain ⟨hj, hrest⟩ := List.forall_mem_cons.1 hfields
    cases rest with
    | nil => simp [writePrettyFields, spellFields, hj]
    | cons next others =>
      rw [writePrettyFields, ih hrest, spellFields_cons_cons]
      · simp [hj]
      · simp

/-- **What is written over several lines.** -/
theorem toList_writePretty (h : Plain j) (out : String) (depth : Nat) :
    (writePretty out depth j).toList = out.toList ++ spell .indented depth j := by
  induction h generalizing out depth with
  | null => simp [writePretty, writeAtom, spell]
  | bool b => cases b <;> simp [writePretty, writeAtom, spell]
  | int n => simp [writePretty, writeAtom, spell]
  | str text => simp [writePretty, writeAtom, spell]
  | @arr items _ ih =>
    cases items with
    | nil => simp [writePretty, spell]
    | cons j rest => simp [writePretty, spell, toList_writePrettyItems ih]
  | @obj fields _ ih =>
    cases fields with
    | nil => simp [writePretty, spell]
    | cons f rest => simp [writePretty, spell, toList_writePrettyFields ih]

/-- A value without any space. -/
theorem toList_compact (h : Plain j) : (compact j).toList = spell .tight 0 j := by
  rw [compact, toList_writeCompact h]
  rfl

/-- A value over several lines. -/
theorem toList_pretty (h : Plain j) : (pretty j).toList = spell .indented 0 j := by
  rw [pretty, toList_writePretty h]
  rfl

end

/-! ## What is read -/

section
variable {before rest : List Char}

/-- A character that is not blank is not skipped. -/
theorem skipBlanks_cons {c : Char} (hc : isBlank c = false) :
    skipBlanks (c :: rest) = c :: rest := by
  simp [skipBlanks, hc]

/-- Blanks in front are skipped. -/
theorem skipBlanks_append (h : Blank before) : skipBlanks (before ++ rest) = skipBlanks rest :=
  List.dropWhile_append_of_pos h

/-- Blanks in front make no difference to a value. -/
theorem readValue_append (h : Blank before) (steps : Nat) :
    readValue steps (before ++ rest) = readValue steps rest := by
  cases steps with
  | zero => rw [readValue, readValue]
  | succ steps => rw [readValue, readValue, skipBlanks_append h]

/-- Blanks in front make no difference to the items of a list. -/
theorem readItems_append (h : Blank before) (steps : Nat) (acc : List Json) :
    readItems steps acc (before ++ rest) = readItems steps acc rest := by
  cases steps with
  | zero => rw [readItems, readItems]
  | succ steps => rw [readItems, readItems, readValue_append h]

/-- Blanks in front make no difference to the fields of an object. -/
theorem readFields_append (h : Blank before) (steps : Nat) (acc : List (String × Json))
    (sound : Bool) :
    readFields steps acc sound (before ++ rest) = readFields steps acc sound rest := by
  cases steps with
  | zero => rw [readFields, readFields]
  | succ steps => rw [readFields, readFields, skipBlanks_append h]

/-- No number goes on with a blank. -/
theorem stops_append (h : Blank before) (hrest : Stops rest) : Stops (before ++ rest) := by
  cases before with
  | nil => exact hrest
  | cons b before =>
    have hb := h b List.mem_cons_self
    simp only [isBlank, Bool.or_eq_true, decide_eq_true_eq] at hb
    rintro c hc
    obtain rfl := Option.some.inj hc
    rcases hb with ((rfl | rfl) | rfl) | rfl <;> decide

/-- No number goes on with the end of a list. -/
theorem stops_bracket : Stops (']' :: rest) := by simp [Stops]

/-- No number goes on with the end of an object. -/
theorem stops_brace : Stops ('\x7d' :: rest) := by simp [Stops]

/-- No number goes on with a comma. -/
theorem stops_comma : Stops (',' :: rest) := by simp [Stops]

end

/-- In this layout the value is read back wherever it stands. -/
def ReadBack (l : Layout) (j : Json) : Prop :=
  ∀ depth steps rest, Stops rest → 2 * (spell l depth j).length ≤ steps →
    readValue steps (spell l depth j ++ rest) = some (j, rest)

section
variable {l : Layout} {depth steps : Nat} {rest : List Char}

/-- A number is read where a value begins with one of its characters. -/
theorem readValue_of_numeralHead {c : Char} (hc : c ∈ numeralHeads) (cs : List Char) :
    readValue (steps + 1) (c :: cs) = readNumber (c :: cs) := by
  simp only [numeralHeads, List.mem_cons, List.not_mem_nil, or_false] at hc
  rcases hc with rfl | rfl | rfl | rfl | rfl | rfl | rfl | rfl | rfl | rfl | rfl <;> rfl

/-- No character that a number begins with is blank or ends a list. -/
theorem numeralHeads_not_blank : ∀ c ∈ numeralHeads, isBlank c = false ∧ c ≠ ']' := by
  simp [numeralHeads, isBlank]

/-- A value begins neither with a blank nor with the end of a list. -/
theorem Plain.spell_head {j : Json} (h : Plain j) (l : Layout) (depth : Nat) :
    ∃ c cs, spell l depth j = c :: cs ∧ isBlank c = false ∧ c ≠ ']' := by
  cases h with
  | null => exact ⟨'n', _, by rw [spell], by decide, by decide⟩
  | bool b =>
    cases b with
    | true => exact ⟨'t', _, by rw [spell], by decide, by decide⟩
    | false => exact ⟨'f', _, by rw [spell], by decide, by decide⟩
  | int n =>
    obtain ⟨c, cs, htext, hc⟩ := toString_head n
    exact ⟨c, cs, by rw [spell, htext], numeralHeads_not_blank c hc⟩
  | str text => exact ⟨'"', _, by rw [spell]; rfl, by decide, by decide⟩
  | @arr items _ =>
    cases items with
    | nil => exact ⟨'[', _, by rw [spell], by decide, by decide⟩
    | cons j rest => exact ⟨'[', _, by rw [spell]; rfl, by decide, by decide⟩
  | @obj fields _ =>
    cases fields with
    | nil => exact ⟨'\x7b', _, by rw [spell], by decide, by decide⟩
    | cons f rest => exact ⟨'\x7b', _, by rw [spell]; rfl, by decide, by decide⟩

/-- A value has a character, so there is a step to be taken. -/
theorem Plain.readBack_of_succ {j : Json} (h : Plain j)
    (hread : ∀ depth steps rest, Stops rest → 2 * (spell l depth j).length ≤ steps + 1 →
      readValue (steps + 1) (spell l depth j ++ rest) = some (j, rest)) : ReadBack l j := by
  intro depth steps rest hrest hsteps
  cases steps with
  | succ steps => exact hread depth steps rest hrest hsteps
  | zero =>
    obtain ⟨c, cs, hspell, -⟩ := h.spell_head l depth
    simp [hspell] at hsteps

/-- An integer is read as a value. -/
theorem readBack_int (n : Int) : ReadBack l (int n) := by
  refine (Plain.int n).readBack_of_succ fun depth steps rest hrest _ => ?_
  obtain ⟨c, cs, htext, hc⟩ := toString_head n
  rw [spell, ← readNumber_toString n hrest, htext]
  exact readValue_of_numeralHead hc _

/-- A quoted text is read up to its closing quote. -/
theorem readText_quote (text : String) (rest : List Char) :
    ∃ cs, quote text ++ rest = '"' :: cs ∧ readText .start cs = some (some text, rest) :=
  ⟨text.toList.flatMap escape ++ '"' :: rest, by simp [quote], readText_escape text rest⟩

/-- A text is read as a value. -/
theorem readBack_str (text : String) : ReadBack l (str text) := by
  refine (Plain.str text).readBack_of_succ fun depth steps rest _ _ => ?_
  obtain ⟨cs, hquote, htext⟩ := readText_quote text rest
  have hskip : skipBlanks ('"' :: cs) = '"' :: cs := skipBlanks_cons (by decide)
  simp only [spell, hquote, readValue, hskip, htext]

section
variable {cs more next : List Char} {j : Json} {items : List Json}
  {fields : List (String × Json)}

/-- After the last item comes the end of the list. -/
theorem readItems_last (hread : readValue steps cs = some (j, more))
    (hend : skipBlanks more = ']' :: next) :
    readItems (steps + 1) items cs = some (arr (j :: items).reverse, next) := by
  rw [readItems, hread]
  simp only [hend]

/-- After every other comes a comma, and the next item. -/
theorem readItems_more (hread : readValue steps cs = some (j, more))
    (hcomma : skipBlanks more = ',' :: next) :
    readItems (steps + 1) items cs = readItems steps (j :: items) next := by
  rw [readItems, hread]
  simp only [hcomma]

/-- After the last field comes the end of the object. -/
theorem readFields_last (name : String) (hread : readValue steps cs = some (j, more))
    (hend : skipBlanks more = '\x7d' :: next) :
    readFields (steps + 1) fields true (quote name ++ ':' :: cs) =
      some (obj ((name, j) :: fields).reverse, next) := by
  obtain ⟨ds, hquote, htext⟩ := readText_quote name (':' :: cs)
  rw [hquote, readFields, skipBlanks_cons (by decide)]
  simp only [htext, skipBlanks_cons (c := ':') (by decide), hread, hend]
  rfl

/-- After every other comes a comma, and the next field. -/
theorem readFields_more (name : String) (hread : readValue steps cs = some (j, more))
    (hcomma : skipBlanks more = ',' :: next) :
    readFields (steps + 1) fields true (quote name ++ ':' :: cs) =
      readFields steps ((name, j) :: fields) true next := by
  obtain ⟨ds, hquote, htext⟩ := readText_quote name (':' :: cs)
  rw [hquote, readFields, skipBlanks_cons (by decide)]
  simp only [htext, skipBlanks_cons (c := ':') (by decide), hread, hcomma]
  rfl

end

/-- Items that are read back one by one are read back as a list. -/
theorem readItems_spellItems {items : List Json} (hitems : ∀ j ∈ items, ReadBack l j)
    (hne : items ≠ []) (acc : List Json)
    (hsteps : 2 * (spellItems l depth items).length + 1 ≤ steps) :
    readItems steps acc (spellItems l depth items ++ (l.line depth ++ ']' :: rest)) =
      some (arr (acc.reverse ++ items), rest) := by
  -- the step beyond two for each character is taken for the first item; the comma before every
  -- other item pays for the step taken there
  induction items generalizing acc steps with
  | nil => exact absurd rfl hne
  | cons j others ih =>
    obtain ⟨hj, hothers⟩ := List.forall_mem_cons.1 hitems
    obtain ⟨steps, rfl⟩ : ∃ k, steps = k + 1 := ⟨steps - 1, by omega⟩
    cases others with
    | nil =>
      rw [spellItems] at hsteps ⊢
      rw [readItems_last (hj _ _ _ (stops_append (l.line_blank depth) stops_bracket) (by omega))
        ((skipBlanks_append (l.line_blank depth)).trans (skipBlanks_cons (by decide)))]
      simp
    | cons next others =>
      rw [spellItems_cons_cons] at hsteps ⊢
      simp only [List.length_append, List.length_cons] at hsteps
      simp only [List.append_assoc, List.cons_append]
      rw [readItems_more (hj _ _ _ stops_comma (by omega)) (skipBlanks_cons (by decide)),
        readItems_append (l.line_blank (depth + 1)),
        ih hothers (List.cons_ne_nil _ _) (j :: acc) (by omega)]
      simp

/-- Fields that are read back one by one are read back as an object. -/
theorem readFields_spellFields {fields : List (String × Json)}
    (hfields : ∀ f ∈ fields, ReadBack l f.2) (hne : fields ≠ []) (acc : List (String × Json))
    (hsteps : 2 * (spellFields l depth fields).length + 1 ≤ steps) :
    readFields steps acc true (spellFields l depth fields ++ (l.line depth ++ '\x7d' :: rest)) =
      some (obj (acc.reverse ++ fields), rest) := by
  induction fields generalizing acc steps with
  | nil => exact absurd rfl hne
  | cons f others ih =>
    obtain ⟨name, j⟩ := f
    obtain ⟨hj, hothers⟩ := List.forall_mem_cons.1 hfields
    obtain ⟨steps, rfl⟩ : ∃ k, steps = k + 1 := ⟨steps - 1, by omega⟩
    cases others with
    | nil =>
      rw [spellFields] at hsteps ⊢
      simp only [List.length_append, List.length_cons] at hsteps
      simp only [List.append_assoc, List.cons_append]
      rw [readFields_last name ((readValue_append l.gap_blank steps).trans (hj (depth + 1) _ _
          (stops_append (l.line_blank depth) stops_brace) (by dsimp only; omega)))
        ((skipBlanks_append (l.line_blank depth)).trans (skipBlanks_cons (by decide)))]
      simp
    | cons next others =>
      rw [spellFields_cons_cons] at hsteps ⊢
      simp only [List.length_append, List.length_cons] at hsteps
      simp only [List.append_assoc, List.cons_append]
      rw [readFields_more name ((readValue_append l.gap_blank steps).trans (hj (depth + 1) _ _
          stops_comma (by dsimp only; omega))) (skipBlanks_cons (by decide)),
        readFields_append (l.line_blank (depth + 1)),
        ih hothers (List.cons_ne_nil _ _) ((name, j) :: acc) (by omega)]
      simp

/-- Items begin neither with a blank nor with the end of the list. -/
theorem Plain.spellItems_head {j : Json} (h : Plain j) (others : List Json) (l : Layout)
    (depth : Nat) :
    ∃ c cs, spellItems l depth (j :: others) = c :: cs ∧ isBlank c = false ∧ c ≠ ']' := by
  obtain ⟨c, cs, hspell, hc⟩ := h.spell_head l (depth + 1)
  cases others with
  | nil => exact ⟨c, cs, by rw [spellItems, hspell], hc⟩
  | cons next others => exact ⟨c, _, by rw [spellItems_cons_cons, hspell]; rfl, hc⟩

/-- Fields begin with a quote. -/
theorem spellFields_head (f : String × Json) (others : List (String × Json)) (l : Layout)
    (depth : Nat) : ∃ cs, spellFields l depth (f :: others) = '"' :: cs := by
  obtain ⟨name, j⟩ := f
  cases others with
  | nil => exact ⟨_, by rw [spellFields]; rfl⟩
  | cons next others => exact ⟨_, by rw [spellFields_cons_cons]; rfl⟩

/-- A list that does not end at once is read item by item. -/
theorem readValue_bracket {cs ds : List Char} {c : Char} (hcs : skipBlanks cs = c :: ds)
    (hc : c ≠ ']') : readValue (steps + 1) ('[' :: cs) = readItems steps [] (c :: ds) := by
  rw [readValue, skipBlanks_cons (by decide)]
  simp [hcs, hc]

/-- An object that has a field is read field by field. -/
theorem readValue_brace {cs ds : List Char} (hcs : skipBlanks cs = '"' :: ds) :
    readValue (steps + 1) ('\x7b' :: cs) = readFields steps [] true ('"' :: ds) := by
  rw [readValue, skipBlanks_cons (by decide)]
  simp [hcs]

/-- **A value is read back** in any layout. -/
theorem Plain.readBack {j : Json} (h : Plain j) (l : Layout) : ReadBack l j := by
  induction h with
  | null =>
    refine Plain.null.readBack_of_succ fun depth steps rest _ _ => ?_
    rw [spell]
    rfl
  | bool b =>
    refine (Plain.bool b).readBack_of_succ fun depth steps rest _ _ => ?_
    cases b <;> rw [spell] <;> rfl
  | int n => exact readBack_int n
  | str text => exact readBack_str text
  | @arr items hitems ih =>
    refine (Plain.arr hitems).readBack_of_succ fun depth steps rest _ hsteps => ?_
    cases items with
    | nil =>
      rw [spell]
      rfl
    | cons j others =>
      rw [spell] at hsteps ⊢
      simp only [List.length_append, List.length_cons] at hsteps
      simp only [List.append_assoc, List.cons_append, List.nil_append]
      -- the blanks before the first item are skipped to see whether the list ends at once
      have hread : readItems steps [] (spellItems l depth (j :: others)
          ++ (l.line depth ++ ']' :: rest)) = some (Json.arr (j :: others), rest) :=
        readItems_spellItems ih (List.cons_ne_nil _ _) [] (by omega)
      obtain ⟨c, cs, hspell, hblank, hc⟩ :=
        (hitems j List.mem_cons_self).spellItems_head others l depth
      rw [hspell, List.cons_append] at hread ⊢
      rw [readValue_bracket ((skipBlanks_append (l.line_blank (depth + 1))).trans
        (skipBlanks_cons hblank)) hc]
      exact hread
  | @obj fields hfields ih =>
    refine (Plain.obj hfields).readBack_of_succ fun depth steps rest _ hsteps => ?_
    cases fields with
    | nil =>
      rw [spell]
      rfl
    | cons f others =>
      rw [spell] at hsteps ⊢
      simp only [List.length_append, List.length_cons] at hsteps
      simp only [List.append_assoc, List.cons_append, List.nil_append]
      have hread : readFields steps [] true (spellFields l depth (f :: others)
          ++ (l.line depth ++ '\x7d' :: rest)) = some (Json.obj (f :: others), rest) :=
        readFields_spellFields ih (List.cons_ne_nil _ _) [] (by omega)
      obtain ⟨cs, hspell⟩ := spellFields_head f others l depth
      rw [hspell, List.cons_append] at hread ⊢
      rw [readValue_brace ((skipBlanks_append (l.line_blank (depth + 1))).trans
        (skipBlanks_cons (by decide)))]
      exact hread

/-- **A text that spells a value in some layout is read as that value.** -/
theorem parse?_spell {j : Json} (h : Plain j) {text : String} (htext : text.toList = spell l 0 j) :
    parse? text = some j := by
  have hread := h.readBack l 0 (2 * text.toList.length + 2) [] stops_nil (by rw [htext]; omega)
  rw [List.append_nil, ← htext] at hread
  simp [parse?, hread, skipBlanks]

/-- A value without any space is read back. -/
theorem parse?_compact {j : Json} (h : Plain j) : parse? (compact j) = some j :=
  parse?_spell h (toList_compact h)

/-- A value over several lines is read back. -/
theorem parse?_pretty {j : Json} (h : Plain j) : parse? (pretty j) = some j :=
  parse?_spell h (toList_pretty h)

end

end CoinPurse.Json
