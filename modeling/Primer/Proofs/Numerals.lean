import Primer.Proofs.Values
import Mathlib.Data.Nat.Digits.Lemmas

/-! The texts that are whole numbers. A numeral is an optional sign and decimal digits, the first
of most weight, and it is worth their positional value. Main statement: the numerals of at most
4300 digits are read as their values, the longer ones cannot be read, and no other text is a
number; a number that was written is read back, unless it stands between quotes. -/
namespace Primer

inductive Sign
  | plus
  | minus
  deriving DecidableEq, Repr

def Sign.char : Sign → Char
  | plus => '+'
  | minus => '-'

structure Numeral where
  sign : Option Sign
  digits : List (Fin 10)
  nonempty : digits ≠ []
  deriving DecidableEq, Repr

/-- The ASCII character of a digit. -/
def digitOf (d : Fin 10) : Char := Nat.digitChar d

namespace Numeral

def chars (m : Numeral) : List Char :=
  (m.sign.map Sign.char).toList ++ m.digits.map digitOf

/-- The sum of the digits times their powers of ten. -/
def magnitude (m : Numeral) : Nat := Nat.ofDigits 10 (m.digits.map Fin.val).reverse

def value (m : Numeral) : Int := if m.sign = some .minus then -m.magnitude else m.magnitude

end Numeral

theorem isDigit_digitOf : ∀ d : Fin 10, isDigit (digitOf d) = true := by decide

theorem toNat_digitOf : ∀ d : Fin 10, (digitOf d).toNat - 48 = d.val := by decide

theorem exists_digitOf {c : Char} (digit : isDigit c = true) : ∃ d, digitOf d = c := by
  have bounds := isDigit_bounds digit
  have rebuilt : Nat.digitChar (c.toNat - 48) = c := by
    apply Char.toNat_inj.mp
    rw [Nat.toNat_digitChar_of_lt_ten (by omega)]
    omega
  exact ⟨⟨c.toNat - 48, by omega⟩, rebuilt⟩

theorem isDigits_digitOf {digits : List (Fin 10)} (some : digits ≠ []) :
    IsDigits (digits.map digitOf) where
  nonempty := by simpa using some
  all := by simpa using fun d _ => isDigit_digitOf d

theorem exists_map_digitOf {s : List Char} (form : IsDigits s) :
    ∃ digits, digits ≠ [] ∧ digits.map digitOf = s := by
  have inRange : s ∈ Set.range (List.map digitOf) := by
    rw [Set.range_list_map]
    exact fun c inside => exists_digitOf (form.all c inside)
  obtain ⟨digits, rfl⟩ := inRange
  exact ⟨digits, by simpa using form.nonempty, rfl⟩

/-- Reading digits from the left gives the value of each at its place. -/
theorem digitsValue_digitOf (digits : List (Fin 10)) :
    digitsValue (digits.map digitOf) = Nat.ofDigits 10 (digits.map Fin.val).reverse := by
  induction digits with
  | nil => rfl
  | cons d digits ih =>
    rw [List.map_cons, digitsValue_cons, toNat_digitOf, ih, List.map_cons,
      Nat.ofDigits_reverse_cons, List.length_map, List.length_map, Nat.add_comm]
    rfl

namespace Numeral

theorem splitSign_chars (m : Numeral) :
    splitSign m.chars = (decide (m.sign = some .minus), m.digits.map digitOf) := by
  obtain ⟨sign, digits, some⟩ := m
  cases sign with
  -- a text that starts with a digit starts with no sign
  | none => exact (isDigits_digitOf some).splitSign
  | some sign => cases sign <;> rfl

theorem denotes (m : Numeral) : Denotes m.chars m.value := by
  rw [denotes_iff, splitSign_chars]
  refine ⟨isDigits_digitOf m.nonempty, ?_⟩
  simp only [digitsValue_digitOf, value, magnitude, signed, decide_eq_true_eq]

theorem exists_of_denotes {s : List Char} {n : Int} (denotes : Denotes s n) :
    ∃ m : Numeral, m.chars = s := by
  cases denotes with
  | plain form =>
    obtain ⟨digits, some, rfl⟩ := exists_map_digitOf form
    exact ⟨⟨none, digits, some⟩, rfl⟩
  | plus form =>
    obtain ⟨digits, some, rfl⟩ := exists_map_digitOf form
    exact ⟨⟨Option.some .plus, digits, some⟩, rfl⟩
  | minus form =>
    obtain ⟨digits, some, rfl⟩ := exists_map_digitOf form
    exact ⟨⟨Option.some .minus, digits, some⟩, rfl⟩

theorem isTooLong_chars (m : Numeral) : IsTooLong m.chars ↔ 4300 < m.digits.length := by
  constructor
  · intro long
    have beyond := long.long
    rwa [splitSign_chars, List.length_map] at beyond
  · intro long
    constructor
    · rw [splitSign_chars]
      exact List.all_eq_true.mpr (isDigits_digitOf m.nonempty).all
    · rwa [splitSign_chars, List.length_map]

theorem readWhole_short (m : Numeral) (short : m.digits.length ≤ 4300) :
    readWhole m.chars = .ok (some m.value) :=
  m.denotes.readWhole (by rwa [isTooLong_chars, Nat.not_lt])

theorem readWhole_long (m : Numeral) (long : 4300 < m.digits.length) :
    readWhole m.chars = .error (.literalTooLong m.digits.length) := by
  have failed := readWhole_error.mpr ⟨m.isTooLong_chars.mpr long, rfl⟩
  rwa [splitSign_chars, List.length_map] at failed

end Numeral

section Outcomes
variable {s : List Char}

theorem readWhole_other (other : ∀ m : Numeral, m.chars ≠ s) : readWhole s = .ok none := by
  apply readWhole_of_not_denotes
  intro n denotes
  obtain ⟨m, same⟩ := Numeral.exists_of_denotes denotes
  exact other m same

/-- The forms of a text, each with what is made of it. -/
inductive ReadAs : List Char → Except Fault (Option Int) → Prop
  | number (m : Numeral) : m.digits.length ≤ 4300 → ReadAs m.chars (.ok (some m.value))
  | tooLong (m : Numeral) : 4300 < m.digits.length →
      ReadAs m.chars (.error (.literalTooLong m.digits.length))
  | other {s : List Char} : (∀ m : Numeral, m.chars ≠ s) → ReadAs s (.ok none)

theorem readAs_of_readWhole {result : Except Fault (Option Int)} (read : readWhole s = result) :
    ReadAs s result := by
  subst read
  by_cases numeral : ∃ m : Numeral, m.chars = s
  · obtain ⟨m, rfl⟩ := numeral
    rcases Nat.lt_or_ge 4300 m.digits.length with long | short
    · rw [m.readWhole_long long]
      exact .tooLong m long
    · rw [m.readWhole_short short]
      exact .number m short
  · have other : ∀ m : Numeral, m.chars ≠ s := fun m same => numeral ⟨m, same⟩
    rw [readWhole_other other]
    exact .other other

theorem readWhole_eq_some {n : Int} : readWhole s = .ok (some n) ↔
    ∃ m : Numeral, m.chars = s ∧ m.digits.length ≤ 4300 ∧ m.value = n := by
  constructor
  · intro read
    cases readAs_of_readWhole read with
    | number m short => exact ⟨m, rfl, short, rfl⟩
  · rintro ⟨m, rfl, short, rfl⟩
    exact m.readWhole_short short

theorem readWhole_eq_error {f : Fault} : readWhole s = .error f ↔ ∃ m : Numeral,
    m.chars = s ∧ 4300 < m.digits.length ∧ f = .literalTooLong m.digits.length := by
  constructor
  · intro failed
    cases readAs_of_readWhole failed with
    | tooLong m long => exact ⟨m, rfl, long, rfl⟩
  · rintro ⟨m, rfl, long, rfl⟩
    exact m.readWhole_long long

theorem readWhole_eq_none : readWhole s = .ok none ↔ ∀ m : Numeral, m.chars ≠ s := by
  constructor
  · intro read
    cases readAs_of_readWhole read with
    | other other => exact other
  · exact readWhole_other

end Outcomes

theorem lt_tenTo_of_digits {n k : Nat} (short : (Nat.digits 10 n).length ≤ k) : n < tenTo k :=
  (Nat.digits_length_le_iff (by decide) n).mp short

/-- A text is read as a number exactly if it is a numeral of at most 4300 digits, and then as
its value; it cannot be read exactly if it is a longer numeral, which is a fault of its value;
every other text is no number. A number of at most 4300 digits is written so that it is read
back, and what is written is text once it stands between quotes. -/
theorem numerals_read_back :
    (∀ s n, readWhole s = .ok (some n) ↔
      ∃ m : Numeral, m.chars = s ∧ m.digits.length ≤ 4300 ∧ m.value = n) ∧
    (∀ s f, readWhole s = .error f ↔
      ∃ m : Numeral, m.chars = s ∧ 4300 < m.digits.length ∧
        f = .literalTooLong m.digits.length ∧ f.family = .value) ∧
    (∀ s, readWhole s = .ok none ↔ ∀ m : Numeral, m.chars ≠ s) ∧
    ∀ n : Int, (Nat.digits 10 n.natAbs).length ≤ 4300 →
      (Datum.int n).display = .ok (toString n) ∧
      readWhole (toString n).toList = .ok (some n) ∧
      literal ('"' :: (toString n).toList ++ ['"']) = .ok (.text (toString n)) := by
  refine ⟨fun s n => readWhole_eq_some, fun s f => ?_, fun s => readWhole_eq_none, fun n short => ?_⟩
  · constructor
    · intro failed
      obtain ⟨m, same, long, rfl⟩ := readWhole_eq_error.mp failed
      exact ⟨m, same, long, rfl, rfl⟩
    · rintro ⟨m, same, long, fault, -⟩
      exact readWhole_eq_error.mpr ⟨m, same, long, fault⟩
  · have small : n.natAbs < tenTo digitLimit := lt_tenTo_of_digits short
    refine ⟨(Datum.display_int n).trans (writeWhole_ok small), readWhole_toString small, ?_⟩
    rw [literal_quoted, String.ofList_toList]

/-- A numeral with a sign and leading zeros. -/
def paddedNumeral : Numeral := ⟨some .minus, [0, 0, 7], by decide⟩

/-- A numeral with one digit too many. -/
def longNumeral : Numeral := ⟨none, 9 :: List.replicate 4300 9, List.cons_ne_nil _ _⟩

theorem numerals_read_back_samples :
    readWhole "-007".toList = .ok (some (-7)) ∧
    readWhole longNumeral.chars = .error (.literalTooLong 4301) ∧
    (Nat.digits 10 (-120 : Int).natAbs).length ≤ 4300 ∧
    (Datum.int (-120)).display = .ok "-120" ∧
    readWhole "-120".toList = .ok (some (-120)) ∧
    literal "\"-120\"".toList = .ok (.text "-120") := by
  obtain ⟨reads, fails, -, writes⟩ := numerals_read_back
  have digits : longNumeral.digits.length = 4301 := by
    rw [longNumeral, List.length_cons, List.length_replicate]
  have short : (Nat.digits 10 (-120 : Int).natAbs).length ≤ 4300 := by norm_num
  have padded : ∃ m : Numeral, m.chars = "-007".toList ∧ m.digits.length ≤ 4300 ∧ m.value = -7 :=
    ⟨paddedNumeral, by decide, by decide, by decide⟩
  have long : ∃ m : Numeral, m.chars = longNumeral.chars ∧ 4300 < m.digits.length ∧
      Fault.literalTooLong 4301 = .literalTooLong m.digits.length ∧
      (Fault.literalTooLong 4301).family = .value :=
    ⟨longNumeral, rfl, by omega, by rw [digits], rfl⟩
  exact ⟨(reads _ _).mpr padded, (fails _ _).mpr long, short, writes (-120) short⟩

end Primer
