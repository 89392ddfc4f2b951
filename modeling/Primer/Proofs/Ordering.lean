import Primer.Proofs.Limits
import Primer.Proofs.Rounding

/-! Comparison of values by a sign. Ordering goes by the integers that values are rounded to,
so different integers may count as equal, but never in the order opposite to their own. -/
namespace Primer

namespace Datum

/-- A value of the language, however large. -/
def IsScalar : Datum → Prop
  | int _ | text _ => True
  | _ => False

/-- An integer that is too large for a double. -/
def IsHuge : Datum → Prop
  | int n => twoTo 1024 - twoTo 970 ≤ n.natAbs
  | _ => False

/-- The number that a value counts as when it is ordered. -/
def Counts : Datum → Int → Prop
  | int n, x => Rounds n x
  | text _, x => x = 0
  | _, _ => False

structure Ordered (d : Datum) : Prop where
  scalar : d.IsScalar
  inRange : ¬ d.IsHuge

def weight : Datum → Int
  | int n => rounded n
  | _ => 0

theorem counts_iff {d : Datum} (scalar : d.IsScalar) {x : Int} : d.Counts x ↔ x = d.weight := by
  cases d with
  | int n => exact rounds_iff
  | text s => exact Iff.rfl
  | _ => cases scalar

theorem isHuge_iff {d : Datum} : d.IsHuge ↔ ∃ n, d = .int n ∧ roundingLimit ≤ n.natAbs := by
  cases d with
  | int n => simp only [IsHuge, roundingLimit, int.injEq, exists_eq_left']
  | _ => simp [IsHuge]

theorem Ordered.rank_eq {d : Datum} (ordered : d.Ordered) : d.rank = .ok d.weight := by
  cases d with
  | int n =>
    have small : n.natAbs < roundingLimit := by
      have inRange := ordered.inRange
      rw [isHuge_iff] at inRange
      exact Nat.lt_of_not_le fun huge => inRange ⟨n, rfl, huge⟩
    simp only [rank, if_pos small, weight, rounded]
  | text s => rfl
  | _ => cases ordered.scalar

theorem equals_iff {l r : Datum} (scalar : l.IsScalar) : l.equals r = true ↔ l = r := by
  cases l with
  | int a => cases r <;> simp [equals, same, same.numberIs, number?, sameNumber, sort]
  | text s => cases r <;> simp [equals, same, sort]
  | _ => cases scalar

end Datum

theorem compareBySign_sign (c : Comparison) (l r : Datum) :
    compareBySign c.sign l r = (c.apply l r).mapError .fault := by
  cases c <;> rfl

theorem compareBySign_equal (l r : Datum) :
    compareBySign "==" l r = .ok (l.equals r) ∧ compareBySign "!=" l r = .ok (!l.equals r) :=
  ⟨compareBySign_sign .equal l r, compareBySign_sign .different l r⟩

theorem isOrdering_of_mem {sign : String} (listed : sign ∈ ["<", ">", "<=", ">="]) :
    ∃ c : Comparison, c.isOrdering = true ∧ c.sign = sign := by
  simp only [List.mem_cons, List.not_mem_nil, or_false] at listed
  rcases listed with rfl | rfl | rfl | rfl
  · exact ⟨.less, rfl, rfl⟩
  · exact ⟨.greater, rfl, rfl⟩
  · exact ⟨.atMost, rfl, rfl⟩
  · exact ⟨.atLeast, rfl, rfl⟩

theorem compareBySign_huge {c : Comparison} (ordering : c.isOrdering = true) {l r : Datum}
    (huge : l.IsHuge ∨ r.IsHuge) : compareBySign c.sign l r = .error (.fault .numberTooLarge) := by
  have refused : ∀ {d : Datum}, d.IsHuge → d.rank = .error .numberTooLarge := fun huge =>
    rank_error.mpr ⟨Datum.isHuge_iff.mp huge, rfl⟩
  rw [compareBySign_sign, apply_of_ordering ordering]
  cases left : l.rank with
  | error f =>
    obtain ⟨_, rfl⟩ := rank_error.mp left
    rfl
  | ok a =>
    rcases huge with hugeL | hugeR
    · cases left.symm.trans (refused hugeL)
    · rw [refused hugeR]
      rfl

/-- Two values compare so by a sign. -/
def HoldsBy (sign : String) (l r : Datum) : Prop := compareBySign sign l r = .ok true

section Ordered
variable {l r : Datum} (left : l.Ordered) (right : r.Ordered)
include left right

theorem compareBySign_ordered {c : Comparison} (ordering : c.isOrdering = true) :
    compareBySign c.sign l r = .ok (c.holds l.weight r.weight) := by
  rw [compareBySign_sign, apply_of_ordering ordering, left.rank_eq, right.rank_eq]
  rfl

theorem holdsBy_iff {c : Comparison} (ordering : c.isOrdering = true) :
    HoldsBy c.sign l r ↔ c.holds l.weight r.weight = true := by
  rw [HoldsBy, compareBySign_ordered left right ordering, Except.ok.injEq]

theorem holdsBy_less : HoldsBy "<" l r ↔ l.weight < r.weight :=
  (holdsBy_iff left right (c := .less) rfl).trans decide_eq_true_iff

theorem holdsBy_greater : HoldsBy ">" l r ↔ r.weight < l.weight :=
  (holdsBy_iff left right (c := .greater) rfl).trans decide_eq_true_iff

theorem holdsBy_atMost : HoldsBy "<=" l r ↔ l.weight ≤ r.weight :=
  (holdsBy_iff left right (c := .atMost) rfl).trans decide_eq_true_iff

theorem holdsBy_atLeast : HoldsBy ">=" l r ↔ r.weight ≤ l.weight :=
  (holdsBy_iff left right (c := .atLeast) rfl).trans decide_eq_true_iff

end Ordered

theorem Datum.ordered_int {n : Int} (small : n.natAbs ≤ twoTo 53) : (Datum.int n).Ordered := by
  have far : twoTo 53 < twoTo 1024 - twoTo 970 := by decide +kernel
  exact ⟨trivial, Nat.not_le_of_lt (small.trans_lt far)⟩

/-- The laws of comparison. The values that can be ordered are the texts and the integers that
round to a double. -/
structure ComparisonLaws : Prop where
  fails : ∀ sign ∈ ["<", ">", "<=", ">="], ∀ l r : Datum, l.IsScalar → r.IsScalar →
    ((∃ f, compareBySign sign l r = .error f) ↔ l.IsHuge ∨ r.IsHuge) ∧
      ∀ f, compareBySign sign l r = .error f → f = .fault .numberTooLarge
  limit : ∀ n x, Rounds n x → (x.natAbs < twoTo 1024 ↔ ¬ (Datum.int n).IsHuge)
  counts : ∀ d : Datum, d.Ordered → ∃! x, d.Counts x
  counted : ∀ l r : Datum, l.Ordered → r.Ordered → ∀ x y, l.Counts x → r.Counts y →
    (HoldsBy "<=" l r ↔ x ≤ y)
  refl : ∀ l : Datum, l.Ordered → HoldsBy "<=" l l
  trans : ∀ l m r : Datum, l.Ordered → m.Ordered → r.Ordered →
    HoldsBy "<=" l m → HoldsBy "<=" m r → HoldsBy "<=" l r
  total : ∀ l r : Datum, l.Ordered → r.Ordered → HoldsBy "<=" l r ∨ HoldsBy "<=" r l
  strict : ∀ l r : Datum, l.Ordered → r.Ordered →
    (HoldsBy "<" l r ↔ HoldsBy "<=" l r ∧ ¬ HoldsBy "<=" r l)
  mirrored : ∀ l r : Datum, l.Ordered → r.Ordered →
    (HoldsBy ">" l r ↔ HoldsBy "<" r l) ∧ (HoldsBy ">=" l r ↔ HoldsBy "<=" r l)
  /-- Integers are never found in the opposite of their own order. -/
  consistent : ∀ a b : Int, (Datum.int a).Ordered → (Datum.int b).Ordered → a ≤ b →
    HoldsBy "<=" (.int a) (.int b) ∧ ¬ HoldsBy ">" (.int a) (.int b)
  precise : ∀ a b : Int, a.natAbs ≤ twoTo 53 → b.natAbs ≤ twoTo 53 →
    (HoldsBy "<" (.int a) (.int b) ↔ a < b) ∧ (HoldsBy ">" (.int a) (.int b) ↔ a > b) ∧
      (HoldsBy "<=" (.int a) (.int b) ↔ a ≤ b) ∧ (HoldsBy ">=" (.int a) (.int b) ↔ a ≥ b)
  equality : ∀ l r : Datum, l.IsScalar → r.IsScalar → ∃ truth : Bool, (truth = true ↔ l = r) ∧
    compareBySign "==" l r = .ok truth ∧ compareBySign "!=" l r = .ok (!truth)

theorem compareBySign_fails {sign : String} (listed : sign ∈ ["<", ">", "<=", ">="]) {l r : Datum}
    (left : l.IsScalar) (right : r.IsScalar) {f : Failure} :
    compareBySign sign l r = .error f ↔ f = .fault .numberTooLarge ∧ (l.IsHuge ∨ r.IsHuge) := by
  obtain ⟨c, ordering, rfl⟩ := isOrdering_of_mem listed
  by_cases huge : l.IsHuge ∨ r.IsHuge
  · simp [compareBySign_huge ordering huge, huge, eq_comm]
  · rw [not_or] at huge
    simp [compareBySign_ordered ⟨left, huge.1⟩ ⟨right, huge.2⟩ ordering, huge]

theorem comparisons_lawful : ComparisonLaws where
  fails sign listed l r left right := by
    simp [compareBySign_fails listed left right]
  limit n x rounds := by
    rw [rounds_iff.mp rounds, natAbs_rounded_lt, Datum.isHuge_iff]
    simp
  counts d ordered := by
    simp [Datum.counts_iff ordered.scalar]
  counted l r left right x y countsL countsR := by
    rw [(Datum.counts_iff left.scalar).mp countsL, (Datum.counts_iff right.scalar).mp countsR]
    exact holdsBy_atMost left right
  refl l ordered := (holdsBy_atMost ordered ordered).mpr le_rfl
  trans l m r left middle right := by
    rw [holdsBy_atMost left middle, holdsBy_atMost middle right, holdsBy_atMost left right]
    exact le_trans
  total l r left right := by
    rw [holdsBy_atMost left right, holdsBy_atMost right left]
    exact le_total _ _
  strict l r left right := by
    rw [holdsBy_less left right, holdsBy_atMost left right, holdsBy_atMost right left]
    exact lt_iff_le_not_ge
  mirrored l r left right := by
    rw [holdsBy_greater left right, holdsBy_less right left, holdsBy_atLeast left right,
      holdsBy_atMost right left]
    exact ⟨Iff.rfl, Iff.rfl⟩
  consistent a b left right le := by
    rw [holdsBy_atMost left right, holdsBy_greater left right]
    exact ⟨rounded_mono le, not_lt_of_ge (rounded_mono le)⟩
  precise a b smallA smallB := by
    have left := Datum.ordered_int smallA
    have right := Datum.ordered_int smallB
    rw [holdsBy_less left right, holdsBy_greater left right, holdsBy_atMost left right,
      holdsBy_atLeast left right]
    simp only [Datum.weight, rounded_exact smallA, rounded_exact smallB, gt_iff_lt, ge_iff_le,
      and_self]
  equality l r left right :=
    ⟨l.equals r, Datum.equals_iff left, compareBySign_equal l r⟩

-- the first integer that is no double is ordered as the one below it, but not equal to it
example : [">=", "<", "=="].map (fun sign =>
    (compareBySign sign (.int 9007199254740992) (.int 9007199254740993)).toOption) =
    [some true, some false, some false] := by
  decide +kernel

end Primer
