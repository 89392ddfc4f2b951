import Primer.Json.Reader
import Primer.Json.Writer
import Primer.Proofs.Decimal
import Primer.Proofs.Results
import Primer.Proofs.Scanning

/-! Null, numbers and strings as JSON text. Each is read back from the text it is written
as. What follows it in a text matters to numbers only, whose digits must not go on. -/
namespace Primer.Json

section Strings
variable {opened pos : Nat}

theorem stringFrom_close (rest : List Char) :
    stringFrom opened pos ('"' :: rest) = .ok ([], ⟨pos + 1, rest⟩) := by rw [stringFrom]

theorem stringFrom_plain {c : Char} (quote : c ≠ '"') (slash : c ≠ '\\') (visible : 0x20 ≤ c.toNat)
    (rest : List Char) : stringFrom opened pos (c :: rest) = do
      let (s, after) ← stringFrom opened (pos + 1) rest
      return (c :: s, after) := by
  have printed : ¬ c.toNat < 0x20 := Nat.not_lt.mpr visible
  rw [stringFrom]
  · rw [if_neg printed]
  all_goals simp_all

theorem stringFrom_escape {c e : Char} (short : escaped? c = some e) (rest : List Char) :
    stringFrom opened pos ('\\' :: c :: rest) = do
      let (s, after) ← stringFrom opened (pos + 2) rest
      return (e :: s, after) := by
  have other : c ≠ 'u' := by
    rintro rfl
    cases short
  rw [stringFrom]
  · rw [short]
  all_goals simp_all

/-- A unit that is no half of a pair is read alone, whatever follows it. -/
theorem stringFrom_unit {a b c d x : Char} {unit : Nat} (digits : hexUnit? a b c d = some unit)
    (alone : isHighUnit unit = false) (rest : List Char) :
    stringFrom opened pos ('\\' :: 'u' :: a :: b :: c :: d :: x :: rest) = do
      let (s, after) ← stringFrom opened (pos + 6) (x :: rest)
      return (unitChar unit :: s, after) := by
  rw [stringFrom, digits]
  dsimp only
  split
  · rw [alone]
    rfl
  · rfl

theorem hexadecimal_control {n : Nat} (control : n < 0x20) :
    ∃ a b c d, hexadecimal 4 n = [a, b, c, d] ∧ hexUnit? a b c d = some n := by
  have all : ∀ n < 0x20,
      hexadecimal 4 n = ['0', '0', Nat.digitChar (n / 16), Nat.digitChar (n % 16)] ∧
        hexUnit? '0' '0' (Nat.digitChar (n / 16)) (Nat.digitChar (n % 16)) = some n := by
    decide +kernel
  exact ⟨_, _, _, _, all n control⟩

variable (opened pos)

/-- A character is read back from its escape, whatever follows. -/
theorem stringFrom_char (c : Char) {rest : List Char} (some : rest ≠ []) :
    ∃ next, stringFrom opened pos (escapeChar c ++ rest) = do
      let (s, after) ← stringFrom opened next rest
      return (c :: s, after) := by
  have short : ∀ e c, escaped? e = .some c → ∃ next, stringFrom opened pos ('\\' :: e :: rest) = do
      let (s, after) ← stringFrom opened next rest
      return (c :: s, after) := fun _ _ escape => ⟨_, stringFrom_escape escape rest⟩
  unfold escapeChar
  split
  · exact short '"' '"' rfl
  · exact short '\\' '\\' rfl
  · exact short 'n' '\n' rfl
  · exact short 'r' '\r' rfl
  · exact short 't' '\t' rfl
  · exact short 'b' '\x08' rfl
  · exact short 'f' '\x0c' rfl
  · rename_i quote slash _ _ _ _ _
    split
    · rename_i control
      obtain ⟨x, tail, rfl⟩ := List.exists_cons_of_ne_nil some
      obtain ⟨a, b, e, d, written, digits⟩ := hexadecimal_control control
      have alone : isHighUnit c.toNat = false := by simp [isHighUnit]; omega
      have low : isLowUnit c.toNat = false := by simp [isLowUnit]; omega
      have back : unitChar c.toNat = c := by simp [unitChar, alone, low]
      refine ⟨pos + 6, ?_⟩
      rw [written]
      exact back ▸ stringFrom_unit digits alone tail
    · rename_i visible
      exact ⟨pos + 1, stringFrom_plain quote slash (Nat.not_lt.mp visible) rest⟩

theorem stringFrom_written (s rest : List Char) :
    ∃ next, stringFrom opened pos (s.flatMap escapeChar ++ '"' :: rest) = .ok (s, ⟨next, rest⟩) := by
  induction s generalizing pos with
  | nil => exact ⟨pos + 1, stringFrom_close rest⟩
  | cons c s ih =>
    have some : s.flatMap escapeChar ++ '"' :: rest ≠ [] := by simp
    obtain ⟨middle, first⟩ := stringFrom_char opened pos c some
    obtain ⟨next, others⟩ := ih middle
    refine ⟨next, ?_⟩
    rw [List.flatMap_cons, List.append_assoc, first, others]
    rfl

end Strings

theorem readString_written (pos : Nat) (s : String) (rest : List Char) :
    ∃ next, readString ⟨pos, (writeString s).toList ++ rest⟩ = .ok (s, ⟨next, rest⟩) := by
  obtain ⟨next, read⟩ := stringFrom_written pos (pos + 1) s.toList rest
  refine ⟨next, ?_⟩
  have text : ((writeString s).toList ++ rest).drop 1 = s.toList.flatMap escapeChar ++ '"' :: rest := by
    simp [writeString]
  simp only [readString, text, read, ok_bind, String.ofList_toList]
  rfl

/-- Characters that a number can go on with. -/
def isNumeral (c : Char) : Bool := isDigit c || c == '.' || c == 'e' || c == 'E'

/-- The numeral of a positive number does not start with a zero. -/
theorem toDigits_head {n : Nat} (positive : 0 < n) :
    ∃ c cs, Nat.toDigits 10 n = c :: cs ∧ c ≠ '0' := by
  induction n using Nat.strongRecOn with
  | ind n ih =>
    rcases Nat.lt_or_ge n 10 with small | large
    · have digits : ∀ n < 10, 0 < n → n.digitChar ≠ '0' := by decide
      exact ⟨n.digitChar, [], Nat.toDigits_of_lt_base small, digits n small positive⟩
    · obtain ⟨c, cs, front, nonzero⟩ := ih (n / 10) (by omega) (by omega)
      refine ⟨c, cs ++ [(n % 10).digitChar], ?_, nonzero⟩
      rw [Nat.toDigits_of_base_le (by decide) large, front]
      rfl

theorem toDigits_cons (n : Nat) : ∃ c cs, Nat.toDigits 10 n = c :: cs ∧ isDigit c = true := by
  have all := toDigits_all_isDigit n
  have some : Nat.toDigits 10 n ≠ [] := Nat.toDigits_ne_nil
  obtain ⟨c, cs, digits⟩ := List.exists_cons_of_ne_nil some
  rw [digits, List.all_cons, Bool.and_eq_true] at all
  exact ⟨c, cs, digits, all.1⟩

theorem wholePart_written (n : Nat) {rest : List Char} (stop : Stops isDigit rest) :
    wholePart (Nat.toDigits 10 n ++ rest) = Nat.toDigits 10 n := by
  rcases Nat.eq_zero_or_pos n with rfl | positive
  · rfl
  · obtain ⟨c, cs, digits, nonzero⟩ := toDigits_head positive
    have all := List.all_eq_true.mp (toDigits_all_isDigit n)
    rw [digits] at all ⊢
    have other : wholePart (c :: cs ++ rest) = (c :: cs ++ rest).takeWhile isDigit := by
      rw [List.cons_append, wholePart]
      rintro _ same
      exact nonzero (List.cons.inj same).1
    rw [other, List.takeWhile_append_of_pos all, takeWhile_stops stop, List.append_nil]

theorem stops_mono {p q : Char → Bool} (weaker : ∀ c, p c = true → q c = true) {rest : List Char}
    (stop : Stops q rest) : Stops p rest := by
  intro c first
  cases found : p c with
  | false => rfl
  | true => rw [← stop c first, weaker c found]

theorem fractionPart_none {rest : List Char} (stop : Stops isNumeral rest) : fractionPart rest = none := by
  unfold fractionPart
  split
  · exact absurd (stop '.' rfl) (by decide)
  · rfl

theorem exponentPart_none {rest : List Char} (stop : Stops isNumeral rest) : exponentPart rest = none := by
  cases rest with
  | nil => rfl
  | cons c cs =>
    have other := stop c rfl
    simp only [isNumeral, Bool.or_eq_false_iff] at other
    simp [exponentPart, other]

/-- A numeral, after its sign if it has one. -/
def withSign (negative : Bool) (digits : List Char) : List Char :=
  if negative then '-' :: digits else digits

theorem splitMinus_digits (negative : Bool) (n : Nat) (rest : List Char) :
    (match withSign negative (Nat.toDigits 10 n ++ rest) with
      | '-' :: cs => (true, cs)
      | cs => (false, cs)) = (negative, Nat.toDigits 10 n ++ rest) := by
  cases negative with
  | true => rfl
  | false =>
    obtain ⟨c, cs, digits, digit⟩ := toDigits_cons n
    rw [digits, withSign]
    split
    · rename_i same
      cases same
      exact absurd digit (by decide)
    · rfl

/-- The digits of a number are read up to what cannot belong to it. -/
theorem readNumber_digits (negative : Bool) {n : Nat} {rest : List Char} (pos : Nat)
    (short : (Nat.toDigits 10 n).length ≤ digitLimit) (stop : Stops isNumeral rest) :
    ∃ next, readNumber ⟨pos, withSign negative (Nat.toDigits 10 n ++ rest)⟩ =
      .ok (.int (signed negative n), ⟨next, rest⟩) := by
  have digitStop : Stops isDigit rest := stops_mono (fun c digit => by simp [isNumeral, digit]) stop
  have whole := wholePart_written n digitStop
  have value : digitsValue (Nat.toDigits 10 n) = n := Nat.ofDigitChars_ten_toDigits
  have length : ((if negative then 1 else 0) + (Nat.toDigits 10 n).length) =
      (withSign negative (Nat.toDigits 10 n)).length := by
    cases negative <;> simp [withSign, Nat.add_comm]
  have text : withSign negative (Nat.toDigits 10 n ++ rest) =
      withSign negative (Nat.toDigits 10 n) ++ rest := by cases negative <;> rfl
  have fits : ¬ digitLimit < (Nat.toDigits 10 n).length := Nat.not_lt.mpr short
  have some : Nat.toDigits 10 n ≠ [] := Nat.toDigits_ne_nil
  refine ⟨pos + (withSign negative (Nat.toDigits 10 n)).length, ?_⟩
  unfold readNumber
  split
  rename_i parted
  cases parted.symm.trans (splitMinus_digits negative n rest)
  rw [whole]
  split
  · rename_i none
    exact absurd none some
  · have rest' : (Nat.toDigits 10 n ++ rest).drop (Nat.toDigits 10 n).length = rest := List.drop_left
    simp only [rest', fractionPart_none stop, List.drop_zero, exponentPart_none stop, if_neg fits, value,
      Nat.add_zero, length, text, Cursor.advance_append]

theorem toString_append (n : Int) (rest : List Char) :
    (toString n).toList ++ rest = withSign (decide (n < 0)) (Nat.toDigits 10 n.natAbs ++ rest) := by
  rw [toList_toString_int]
  by_cases negative : n < 0 <;> simp [withSign, negative]

theorem signed_natAbs (n : Int) : signed (decide (n < 0)) n.natAbs = n := by
  unfold signed
  by_cases negative : n < 0
  · rw [decide_eq_true negative, if_pos rfl]
    omega
  · rw [decide_eq_false negative, if_neg Bool.false_ne_true]
    omega

theorem readNumber_written {n : Int} (small : n.natAbs < tenTo digitLimit) (pos : Nat)
    {rest : List Char} (stop : Stops isNumeral rest) :
    ∃ next, readNumber ⟨pos, (toString n).toList ++ rest⟩ = .ok (.int n, ⟨next, rest⟩) := by
  have short := length_toDigits_le (by decide) small
  obtain ⟨next, read⟩ := readNumber_digits (decide (n < 0)) pos short stop
  rw [← toString_append, signed_natAbs] at read
  exact ⟨next, read⟩

/-- A number starts with a digit or with a sign and a digit. -/
theorem toString_head (n : Int) (rest : List Char) :
    ∃ c cs, isDigit c = true ∧
      ((toString n).toList ++ rest = c :: cs ∨ (toString n).toList ++ rest = '-' :: c :: cs) := by
  obtain ⟨c, cs, digits, digit⟩ := toDigits_cons n.natAbs
  rw [toString_append, digits]
  refine ⟨c, cs ++ rest, digit, ?_⟩
  by_cases negative : n < 0 <;> simp [withSign, negative]

theorem digit_ne {c x : Char} (digit : isDigit c = true) (other : isDigit x = false) : x ≠ c := by
  rintro rfl
  cases digit.symm.trans other

/-- No constant is a number. -/
theorem constants_number (n : Int) (rest : List Char) :
    constants.find? (fun entry => entry.1.isPrefixOf ((toString n).toList ++ rest)) = none := by
  obtain ⟨c, cs, digit, form⟩ := toString_head n rest
  have other : ∀ x, isDigit x = false → x ≠ c := fun _ => digit_ne digit
  rcases form with text | text <;> rw [text]
  · simp [constants, other 'n' rfl, other 't' rfl, other 'f' rfl, other 'N' rfl, other 'I' rfl,
      other '-' rfl]
  · simp [constants, other 'I' rfl]

/-- A reader gets a datum from a text, whatever cannot go on with a number follows it. -/
def Reads (read : ValueReader) (text : List Char) (d : Datum) : Prop :=
  ∀ pos rest, Stops isNumeral rest → ∃ next, read ⟨pos, text ++ rest⟩ = .ok (d, ⟨next, rest⟩)

section Values
variable (read : ValueReader)

theorem reads_null : Reads (readValueWith read) "null".toList .null := fun pos _ _ => ⟨pos + 4, rfl⟩

theorem reads_int {n : Int} (small : n.natAbs < tenTo digitLimit) :
    Reads (readValueWith read) (toString n).toList (.int n) := by
  intro pos rest stop
  obtain ⟨next, number⟩ := readNumber_written small pos stop
  refine ⟨next, ?_⟩
  obtain ⟨c, cs, digit, form⟩ := toString_head n rest
  have first : ∀ x, Cursor.peek ⟨pos, (toString n).toList ++ rest⟩ = some x → isDigit x = true ∨ x = '-' := by
    intro x peeked
    rcases form with text | text <;> rw [text] at peeked <;> cases peeked
    · exact .inl digit
    · exact .inr rfl
  unfold readValueWith
  split
  · rename_i opens
    exact absurd (first _ opens) (by decide)
  · rename_i opens
    exact absurd (first _ opens) (by decide)
  · rename_i opens
    exact absurd (first _ opens) (by decide)
  · simp only [constants_number, number]

theorem reads_text (s : String) : Reads (readValueWith read) (writeString s).toList (.text s) := by
  intro pos rest _
  obtain ⟨next, string⟩ := readString_written pos s rest
  refine ⟨next, ?_⟩
  have opens : Cursor.peek ⟨pos, (writeString s).toList ++ rest⟩ = some '"' := by
    simp [Cursor.peek, writeString]
  simp only [readValueWith, opens, string, ok_bind]
  rfl

end Values

end Primer.Json
