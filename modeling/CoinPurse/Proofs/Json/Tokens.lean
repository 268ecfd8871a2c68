import CoinPurse.Json.Reader
import CoinPurse.Json.Writer

/-!
# Numbers and texts are read back

An integer is written with a minus sign, if it takes one, and its digits, without any zero in front.
It is read back from that (`readNumber_toString`), provided that what follows does not go on with
the number (`Stops`). A text is read back from its quoted form, whatever follows
(`readText_escape`): every character that may not stand in a text is escaped, and every escape that
is written stands for its character (`readText_escape_append`).
-/

namespace CoinPurse.Json

/-! ## Numbers -/

/-- What follows a number does not go on with it. -/
def Stops (rest : List Char) : Prop :=
  ∀ c ∈ rest.head?, c.isDigit = false ∧ c ≠ '.' ∧ c ≠ 'e' ∧ c ≠ 'E'

/-- Where nothing follows, no number goes on. -/
theorem stops_nil : Stops [] := by simp [Stops]

section
variable {rest : List Char}

/-- The digits end where the number does. -/
theorem Stops.takeWhile_isDigit (h : Stops rest) : rest.takeWhile Char.isDigit = [] := by
  cases rest with
  | nil => rfl
  | cons c rest => simp [(h c rfl).1]

/-- No digit follows a number. -/
theorem Stops.dropWhile_isDigit (h : Stops rest) : rest.dropWhile Char.isDigit = rest := by
  cases rest with
  | nil => rfl
  | cons c rest => simp [(h c rfl).1]

/-- No exponent follows a number. -/
theorem Stops.readExponent_eq (h : Stops rest) : readExponent rest = some (none, rest) := by
  cases rest with
  | nil => rfl
  | cons c rest =>
    obtain ⟨-, -, he, hE⟩ := h c rfl
    simp [readExponent, he, hE]

/-- The digits of a number are digits. -/
theorem isDigit_toDigits (n : Nat) : ∀ c ∈ Nat.toDigits 10 n, c.isDigit = true :=
  fun _ hc => Nat.isDigit_of_mem_toDigits (by decide) (by decide) hc

/-- The digits of a number write that number. -/
theorem digitsValue_toDigits (n : Nat) : digitsValue (Nat.toDigits 10 n) = n :=
  Nat.ofDigitChars_toDigits (by decide) (by decide)

/-- A zero comes first only if it is the only digit. -/
theorem toDigits_head (n : Nat) :
    ∃ d ds, d < 10 ∧ Nat.toDigits 10 n = Nat.digitChar d :: ds ∧ (d = 0 → ds = []) := by
  induction n using Nat.strongRecOn with
  | ind n ih =>
    by_cases hn : n < 10
    · exact ⟨n, [], hn, Nat.toDigits_of_lt_base hn, fun _ => rfl⟩
    · obtain ⟨d, ds, hd, hdigits, hzero⟩ := ih (n / 10) (by omega)
      refine ⟨d, ds ++ [(n % 10).digitChar], hd, ?_, ?_⟩
      · rw [Nat.toDigits_of_base_le (by decide) (Nat.le_of_not_lt hn), hdigits, List.cons_append]
      · rintro rfl
        -- the digits of a number of two digits or more do not write zero
        have hvalue := digitsValue_toDigits (n / 10)
        rw [hdigits, hzero rfl] at hvalue
        exact absurd (Nat.div_eq_zero_iff.1 hvalue.symm) (by omega)

/-- Only zero is written with a zero digit. -/
theorem digitChar_eq_zero : ∀ d, d < 10 → Nat.digitChar d = '0' → d = 0 := by decide

/-- The part of a number after its sign is read back. -/
theorem readMagnitude_toDigits (negative : Bool) (n : Nat) (h : Stops rest) :
    readMagnitude negative (Nat.toDigits 10 n ++ rest) =
      if negative then some (if n = 0 then decimal ⟨true, 0, 0⟩ else int (-n), rest)
      else some (int n, rest) := by
  have hwhole : (Nat.toDigits 10 n ++ rest).takeWhile Char.isDigit = Nat.toDigits 10 n := by
    rw [List.takeWhile_append_of_pos (isDigit_toDigits n), h.takeWhile_isDigit, List.append_nil]
  have hrest : (Nat.toDigits 10 n ++ rest).dropWhile Char.isDigit = rest := by
    rw [List.dropWhile_append_of_pos (isDigit_toDigits n), h.dropWhile_isDigit]
  obtain ⟨d, ds, hd, hdigits, hzero⟩ := toDigits_head n
  have hstrict : ((Nat.toDigits 10 n).isEmpty ||
      ((Nat.toDigits 10 n).head? = some '0' && 1 < (Nat.toDigits 10 n).length)) = false := by
    rw [hdigits]
    by_cases hfirst : Nat.digitChar d = '0'
    · simp [hzero (digitChar_eq_zero d hd hfirst)]
    · simp [hfirst]
  rw [readMagnitude, hwhole, hrest]
  simp only [hstrict, Bool.false_eq_true, if_false]
  split
  · exact absurd rfl (h '.' rfl).2.1
  · rw [h.readExponent_eq, digitsValue_toDigits]

/-- The characters an integer may begin with. -/
def numeralHeads : List Char := ['-', '0', '1', '2', '3', '4', '5', '6', '7', '8', '9']

/-- Every digit is a character that a number begins with. -/
theorem digitChar_mem_numeralHeads : ∀ d, d < 10 → Nat.digitChar d ∈ numeralHeads := by decide

/-- No digit is a minus sign. -/
theorem digitChar_ne_minus : ∀ d, d < 10 → Nat.digitChar d ≠ '-' := by decide

/-- The digits of a natural number are its text. -/
theorem toList_toString_ofNat (n : Nat) : (toString (Int.ofNat n)).toList = Nat.toDigits 10 n :=
  Nat.toList_repr

/-- A negative number has a minus sign in front of its digits. -/
theorem toList_toString_negSucc (n : Nat) :
    (toString (Int.negSucc n)).toList = '-' :: Nat.toDigits 10 (n + 1) := by
  rw [← Nat.toList_repr]
  exact String.toList_append

/-- An integer begins with one of these characters. -/
theorem toString_head (n : Int) : ∃ c cs, (toString n).toList = c :: cs ∧ c ∈ numeralHeads := by
  cases n with
  | ofNat n =>
    obtain ⟨d, ds, hd, hdigits, -⟩ := toDigits_head n
    exact ⟨_, ds, (toList_toString_ofNat n).trans hdigits, digitChar_mem_numeralHeads d hd⟩
  | negSucc n => exact ⟨'-', _, toList_toString_negSucc n, List.mem_cons_self⟩

/-- **An integer is read back.** -/
theorem readNumber_toString (n : Int) (h : Stops rest) :
    readNumber ((toString n).toList ++ rest) = some (int n, rest) := by
  cases n with
  | ofNat n =>
    rw [toList_toString_ofNat, readNumber, readMagnitude_toDigits false n h]
    · rfl
    · intro cs heq
      obtain ⟨d, ds, hd, hdigits, -⟩ := toDigits_head n
      rw [hdigits] at heq
      exact digitChar_ne_minus d hd (List.cons.inj heq).1
  | negSucc n =>
    rw [toList_toString_negSucc, List.cons_append, readNumber,
      readMagnitude_toDigits true (n + 1) h]
    rfl

end

/-! ## Texts -/

/-- A hexadecimal digit is read back. -/
theorem hexValue_hexDigit : ∀ n, n < 16 → hexValue (hexDigit n) = some n := by decide

/-- A control character is read back from its number. -/
theorem hexUnit_control {n : Nat} (h : n < 32) :
    hexUnit '0' '0' (hexDigit (n / 16)) (hexDigit (n % 16)) = some n := by
  have hhigh := hexValue_hexDigit (n / 16) (by omega)
  have hlow := hexValue_hexDigit (n % 16) (by omega)
  have hzero : hexValue '0' = some 0 := rfl
  simp [hexUnit, hhigh, hlow, hzero]
  omega

/-- The number of a control character is no surrogate. -/
theorem Quoted.pushUnit_control {q : Quoted} {c : Char} (h : c.toNat < 32) (hhalf : q.half = none) :
    q.pushUnit c.toNat = q.push c := by
  have hhigh : ¬ 0xD800 ≤ c.toNat := by omega
  have hlow : ¬ 0xDC00 ≤ c.toNat := by omega
  simp [pushUnit, hhalf, hhigh, hlow, Char.ofNat_toNat]

/-- **A character is read back from its escape**, or as it stands. -/
theorem readText_escape_append {q : Quoted} (hhalf : q.half = none) (c : Char) (rest : List Char) :
    readText q (escape c ++ rest) = readText (q.push c) rest := by
  by_cases hnamed : c = '"' ∨ c = '\\' ∨ c = '\x08' ∨ c = '\x0c' ∨ c = '\n' ∨ c = '\r' ∨ c = '\t'
  · rcases hnamed with rfl | rfl | rfl | rfl | rfl | rfl | rfl <;> rfl
  · simp only [not_or] at hnamed
    obtain ⟨hquote, hbackslash, hb, hf, hn, hr, ht⟩ := hnamed
    by_cases hcontrol : c.toNat < 32
    · have hescape : escape c =
          ['\\', 'u', '0', '0', hexDigit (c.toNat / 16), hexDigit (c.toNat % 16)] := by
        simp [escape, *]
      simp only [hescape, List.cons_append, List.nil_append, readText, hexUnit_control hcontrol,
        Quoted.pushUnit_control hcontrol hhalf]
    · have hescape : escape c = [c] := by
        simp [escape, *]
      simp [hescape, readText, hquote, hbackslash, hcontrol]

/-- The characters of a text are read back, one after the other. -/
theorem readText_flatMap_escape (cs : List Char) (acc rest : List Char) :
    readText ⟨acc, true, none⟩ (cs.flatMap escape ++ rest) =
      readText ⟨cs.reverse ++ acc, true, none⟩ rest := by
  induction cs generalizing acc with
  | nil => rfl
  | cons c cs ih =>
    rw [List.flatMap_cons, List.append_assoc, readText_escape_append rfl, Quoted.push]
    simpa using ih (c :: acc)

/-- **A text is read back** up to its closing quote. -/
theorem readText_escape (text : String) (rest : List Char) :
    readText .start (text.toList.flatMap escape ++ '"' :: rest) = some (some text, rest) := by
  rw [Quoted.start, readText_flatMap_escape]
  simp [readText, Quoted.text?, String.ofList_toList]

end CoinPurse.Json
