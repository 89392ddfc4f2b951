import Primer.Number.Whole
import Mathlib.Tactic

/-! Numerals: what a literal is worth, and that a number that was written is read
back as itself. -/
namespace Primer

theorem isDigit_bounds {c : Char} (digit : isDigit c = true) : 48 ≤ c.toNat ∧ c.toNat ≤ 57 := by
  simp only [isDigit, Bool.and_eq_true, decide_eq_true_eq] at digit
  exact ⟨digit.1, digit.2⟩

theorem digitsValue_cons (c : Char) (cs : List Char) :
    digitsValue (c :: cs) = tenTo cs.length * (c.toNat - 48) + digitsValue cs := by
  unfold digitsValue
  rw [Nat.ofDigitChars_cons, Nat.ofDigitChars_eq_ofDigitChars_zero]
  simp [tenTo]

theorem digitsValue_lt {digits : List Char} (all : digits.all isDigit = true) :
    digitsValue digits < tenTo digits.length := by
  induction digits with
  | nil => exact Nat.one_pos
  | cons c cs ih =>
    rw [List.all_cons, Bool.and_eq_true] at all
    have rest := ih all.2
    have small : c.toNat - 48 ≤ 9 := by have := isDigit_bounds all.1; omega
    have scaled : tenTo cs.length * (c.toNat - 48) ≤ tenTo cs.length * 9 :=
      Nat.mul_le_mul_left _ small
    have next : tenTo (cs.length + 1) = tenTo cs.length * 10 := Nat.pow_succ ..
    rw [digitsValue_cons, List.length_cons, next]
    omega

theorem tenTo_mono {m n : Nat} (le : m ≤ n) : tenTo m ≤ tenTo n := Nat.pow_le_pow_right (by decide) le

theorem natAbs_signed (negative : Bool) (n : Nat) : (signed negative n).natAbs = n := by
  cases negative <;> simp [signed]

/-- A literal is worth less than the first number that is too long to be written. -/
theorem readWhole_lt {s : List Char} {n : Int} (read : readWhole s = .ok (some n)) :
    n.natAbs < tenTo digitLimit := by
  unfold readWhole at read
  split at read
  rename_i negative digits _
  split at read
  · rename_i form
    split at read
    · rename_i short
      cases read
      rw [Bool.and_eq_true] at form
      rw [natAbs_signed]
      exact (digitsValue_lt form.2).trans_le (tenTo_mono short)
    · cases read
  · cases read

/-- A numeral with more digits than may be converted. -/
structure IsTooLong (s : List Char) : Prop where
  digits : (splitSign s).2.all isDigit = true
  long : digitLimit < (splitSign s).2.length

instance (s : List Char) : Decidable (IsTooLong s) :=
  decidable_of_iff ((splitSign s).2.all isDigit = true ∧ digitLimit < (splitSign s).2.length)
    ⟨fun long => ⟨long.1, long.2⟩, fun long => ⟨long.digits, long.long⟩⟩

theorem readWhole_error {s : List Char} {f : Fault} :
    readWhole s = .error f ↔ IsTooLong s ∧ f = .literalTooLong (splitSign s).2.length := by
  unfold readWhole
  split
  rename_i negative digits sign
  have form : digitLimit < digits.length → digits.isEmpty = false := by
    cases digits with
    | nil => exact fun long => absurd long (Nat.not_lt_zero _)
    | cons => exact fun _ => rfl
  constructor
  · intro failed
    split at failed
    · rename_i numeral
      split at failed
      · cases failed
      · rename_i long
        cases failed
        rw [Bool.and_eq_true] at numeral
        rw [sign]
        exact ⟨⟨by rw [sign]; exact numeral.2, by rw [sign]; exact Nat.lt_of_not_le long⟩, rfl⟩
    · cases failed
  · rintro ⟨⟨all, long⟩, rfl⟩
    rw [sign] at all long ⊢
    simp only [all, form long, Nat.not_le.mpr long]
    rfl

theorem readWhole_of_digits {digits : List Char} (negative : Bool) {s : List Char}
    (split : splitSign s = (negative, digits)) (some : digits ≠ []) (all : digits.all isDigit = true)
    (short : digits.length ≤ digitLimit) :
    readWhole s = .ok (.some (signed negative (digitsValue digits))) := by
  have form : (!digits.isEmpty && digits.all isDigit) = true := by
    rw [Bool.and_eq_true]
    exact ⟨by simp [some], all⟩
  simp only [readWhole, split, form, if_true, short]

theorem toDigits_all_isDigit (n : Nat) : (Nat.toDigits 10 n).all isDigit = true := by
  rw [List.all_eq_true]
  intro c inside
  have digit := Nat.isDigit_of_mem_toDigits (by decide) (by decide) inside
  simpa [Char.isDigit, isDigit, Char.le_def] using digit

theorem splitSign_digit {c : Char} (digit : isDigit c = true) (cs : List Char) :
    splitSign (c :: cs) = (false, c :: cs) := by
  have bounds := isDigit_bounds digit
  unfold splitSign
  split
  · rename_i heq
    cases heq
    exact absurd bounds (by decide)
  · rename_i heq
    cases heq
    exact absurd bounds (by decide)
  · rfl

theorem splitSign_toDigits (n : Nat) :
    splitSign (Nat.toDigits 10 n) = (false, Nat.toDigits 10 n) := by
  have all := toDigits_all_isDigit n
  cases digits : Nat.toDigits 10 n with
  | nil => exact absurd digits Nat.toDigits_ne_nil
  | cons c cs =>
    rw [digits, List.all_cons, Bool.and_eq_true] at all
    exact splitSign_digit all.1 cs

/-- Digits and nothing else, at least one of them. -/
structure IsDigits (digits : List Char) : Prop where
  nonempty : digits ≠ []
  all : ∀ c ∈ digits, isDigit c = true

/-- A numeral and its number: an optional sign and digits. -/
inductive Denotes : List Char → Int → Prop
  | plain {digits : List Char} : IsDigits digits → Denotes digits (digitsValue digits)
  | plus {digits : List Char} : IsDigits digits → Denotes ('+' :: digits) (digitsValue digits)
  | minus {digits : List Char} : IsDigits digits → Denotes ('-' :: digits) (-digitsValue digits)

theorem IsDigits.splitSign {digits : List Char} (form : IsDigits digits) :
    splitSign digits = (false, digits) := by
  obtain ⟨c, others, rfl⟩ := List.exists_cons_of_ne_nil form.nonempty
  exact splitSign_digit (form.all c List.mem_cons_self) others

theorem denotes_iff {s : List Char} {n : Int} : Denotes s n ↔
    IsDigits (splitSign s).2 ∧ n = signed (splitSign s).1 (digitsValue (splitSign s).2) := by
  constructor
  · intro denotes
    cases denotes with
    | plain form => rw [form.splitSign]; exact ⟨form, rfl⟩
    | plus form => exact ⟨form, rfl⟩
    | minus form => exact ⟨form, rfl⟩
  · rintro ⟨form, rfl⟩
    unfold splitSign at form ⊢
    split at form
    · exact .minus form
    · exact .plus form
    · exact .plain form

theorem isDigits_iff {digits : List Char} :
    (!digits.isEmpty && digits.all isDigit) = true ↔ IsDigits digits := by
  rw [Bool.and_eq_true, Bool.not_eq_true', List.isEmpty_eq_false_iff, List.all_eq_true]
  exact ⟨fun form => ⟨form.1, form.2⟩, fun form => ⟨form.nonempty, form.all⟩⟩

instance (digits : List Char) : Decidable (IsDigits digits) := decidable_of_iff _ isDigits_iff

/-- A numeral that is not too long is read as its number. -/
theorem Denotes.readWhole {s : List Char} {n : Int} (denotes : Denotes s n) (fits : ¬ IsTooLong s) :
    readWhole s = .ok (some n) := by
  obtain ⟨form, rfl⟩ := denotes_iff.mp denotes
  have short : (splitSign s).2.length ≤ digitLimit := by
    by_contra long
    exact fits ⟨List.all_eq_true.mpr form.all, Nat.lt_of_not_le long⟩
  exact readWhole_of_digits _ rfl form.nonempty (List.all_eq_true.mpr form.all) short

/-- A text that is no numeral is read as none. -/
theorem readWhole_of_not_denotes {s : List Char} (other : ∀ n, ¬ Denotes s n) :
    readWhole s = .ok none := by
  have form : ¬ IsDigits (splitSign s).2 := fun form => other _ (denotes_iff.mpr ⟨form, rfl⟩)
  rw [← isDigits_iff] at form
  simp only [readWhole, form]
  rfl

theorem length_toDigits_le {n k : Nat} (positive : 0 < k) (small : n < tenTo k) :
    (Nat.toDigits 10 n).length ≤ k :=
  (Nat.length_toDigits_le_iff (by decide) positive).mpr small

theorem toList_toString_int (n : Int) :
    (toString n).toList = if n < 0 then '-' :: Nat.toDigits 10 n.natAbs else Nat.toDigits 10 n.natAbs := by
  cases n with
  | ofNat m => simp [toString, Int.repr]
  | negSucc m => simp [toString, Int.repr, Int.negSucc_lt_zero]

/-- A number that can be written is read back from its numeral. -/
theorem readWhole_toString {n : Int} (small : n.natAbs < tenTo digitLimit) :
    readWhole (toString n).toList = .ok (some n) := by
  have short := length_toDigits_le (by decide) small
  have all := toDigits_all_isDigit n.natAbs
  have value : digitsValue (Nat.toDigits 10 n.natAbs) = n.natAbs := Nat.ofDigitChars_ten_toDigits
  rw [toList_toString_int]
  split
  · rename_i negative
    rw [readWhole_of_digits true rfl Nat.toDigits_ne_nil all short, value]
    simp only [signed, if_true]
    congr 2
    omega
  · rename_i positive
    rw [readWhole_of_digits false (splitSign_toDigits _) Nat.toDigits_ne_nil all short, value]
    simp only [signed, Bool.false_eq_true, if_false]
    congr 2
    omega

end Primer
