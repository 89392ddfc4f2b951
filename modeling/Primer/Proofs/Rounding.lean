import Mathlib.Tactic
import Primer.Datum.Value
import Primer.Proofs.Decimal

/-! Rounding to double precision, on integers. `nearest53` is held against a description that
does not compute: of the integers with at most 53 significant bits it gives the nearest one,
and of two equally near the one whose last bit is zero. There is only one such integer, so
rounding keeps the order of the integers, leaves those up to `2 ^ 53` as they are, and goes
beyond every double exactly from `2 ^ 1024 - 2 ^ 970` on. -/
namespace Primer

/-- An integer with at most `k` significant bits. -/
def Fits (k : Nat) (r : Int) : Prop := ∃ m e : Nat, m < twoTo k ∧ r.natAbs = m * twoTo e

structure Rounds (n r : Int) : Prop where
  fits : Fits 53 r
  nearest : ∀ s, Fits 53 s → (r - n).natAbs ≤ (s - n).natAbs
  /-- Of two neighbours that are equally near, it is the one with the even mantissa. -/
  even : ∀ s, Fits 53 s → (s - n).natAbs = (r - n).natAbs → s ≠ r → Fits 52 r

theorem twoTo_add (m n : Nat) : twoTo (m + n) = twoTo m * twoTo n := Nat.pow_add 2 m n

theorem twoTo_pos (n : Nat) : 0 < twoTo n := Nat.two_pow_pos n

theorem twoTo_mono {m n : Nat} (le : m ≤ n) : twoTo m ≤ twoTo n := Nat.pow_le_pow_right Nat.two_pos le

section Grid
variable {b j : Nat}

/-- Between two neighbouring multiples of a power of two, the lower one of 53 bits, there is
no integer of at most 53 bits. -/
theorem fits_grid (full : twoTo 52 ≤ b) {s : Int} (fits : Fits 53 s) :
    s.natAbs ≤ b * twoTo j ∨ (b + 1) * twoTo j ≤ s.natAbs := by
  obtain ⟨m, e, small, written⟩ := fits
  rw [written]
  rcases Nat.lt_or_ge e j with fine | coarse
  · -- a finer multiple has too few bits to get this far
    left
    calc m * twoTo e ≤ twoTo 53 * twoTo e := Nat.mul_le_mul_right _ small.le
      _ = twoTo 52 * twoTo (e + 1) := by rw [← twoTo_add, ← twoTo_add]; congr 1; omega
      _ ≤ b * twoTo j := Nat.mul_le_mul full (twoTo_mono fine)
  · have scaled : m * twoTo e = m * twoTo (e - j) * twoTo j := by
      rw [mul_assoc, ← twoTo_add, Nat.sub_add_cancel coarse]
    rw [scaled]
    rcases Nat.lt_or_ge b (m * twoTo (e - j)) with above | below
    · exact .inr (Nat.mul_le_mul_right _ above)
    · exact .inl (Nat.mul_le_mul_right _ below)

theorem fits_of_le {k : Nat} (bits : 0 < k) (small : b ≤ twoTo k) : Fits k (b * twoTo j : Nat) := by
  rcases small.lt_or_eq with less | rfl
  · exact ⟨b, j, less, rfl⟩
  · exact ⟨1, k + j, Nat.one_lt_two_pow bits.ne', by rw [Int.natAbs_natCast, twoTo_add, one_mul]⟩

theorem fits_of_even {k : Nat} (bits : 0 < k) (even : b % 2 = 0) (small : b ≤ twoTo (k + 1)) :
    Fits k (b * twoTo j : Nat) := by
  have half : b * twoTo j = b / 2 * twoTo (j + 1) := by
    rw [twoTo_add j 1, mul_comm (twoTo j), ← mul_assoc]
    congr 1
    change b = b / 2 * 2
    omega
  have double : twoTo (k + 1) = twoTo k * 2 := twoTo_add k 1
  rw [half]
  exact fits_of_le bits (by omega)

end Grid

theorem nearest53_of_lt {n : Nat} (small : n < twoTo 53) : nearest53 n = n := if_pos small

/-- A number from `2 ^ 53` on lies between two neighbours of 53 bits and is rounded to the
nearer one. -/
theorem nearest53_neighbour {n : Nat} (large : twoTo 53 ≤ n) : ∃ b j rest,
    twoTo 52 ≤ b ∧ b < twoTo 53 ∧ rest < twoTo j ∧ n = b * twoTo j + rest ∧
      (nearest53 n = b * twoTo j ∧ 2 * rest ≤ twoTo j ∧ (2 * rest = twoTo j → b % 2 = 0) ∨
        nearest53 n = (b + 1) * twoTo j ∧ twoTo j ≤ 2 * rest ∧
          (2 * rest = twoTo j → b % 2 = 1)) := by
  have nonzero : n ≠ 0 := ((twoTo_pos 53).trans_le large).ne'
  have long : 53 ≤ n.log2 := (Nat.le_log2 nonzero).mpr large
  have low : twoTo 52 * twoTo (n.log2 - 52) ≤ n := by
    rw [← twoTo_add, Nat.add_sub_cancel' (by omega)]
    exact Nat.log2_self_le nonzero
  have high : n < twoTo 53 * twoTo (n.log2 - 52) := by
    rw [← twoTo_add, show 53 + (n.log2 - 52) = n.log2 + 1 by omega]
    exact Nat.lt_log2_self
  have unit := twoTo_pos (n.log2 - 52)
  refine ⟨n / twoTo (n.log2 - 52), n.log2 - 52, n % twoTo (n.log2 - 52),
    (Nat.le_div_iff_mul_le unit).mpr low, (Nat.div_lt_iff_lt_mul unit).mpr high,
    Nat.mod_lt n unit, (Nat.div_add_mod' n _).symm, ?_⟩
  rw [nearest53, if_neg (by omega)]
  simp only [Bool.or_eq_true, Bool.and_eq_true, decide_eq_true_eq]
  split
  · rename_i up
    exact .inr ⟨rfl, by omega, by omega⟩
  · rename_i down
    exact .inl ⟨rfl, by omega, by omega⟩

theorem rounds_natCast (n : Nat) : Rounds n (nearest53 n) := by
  rcases Nat.lt_or_ge n (twoTo 53) with small | large
  · rw [nearest53_of_lt small]
    refine ⟨⟨n, 0, small, (Nat.mul_one n).symm⟩, fun s _ => by simp, fun s _ near other => ?_⟩
    exact absurd (by omega : s = n) other
  · obtain ⟨b, j, rest, full, small, below, parts, rounded⟩ := nearest53_neighbour large
    have next : (b + 1) * twoTo j = b * twoTo j + twoTo j := Nat.succ_mul b _
    have apart : ∀ s, Fits 53 s → s.natAbs ≤ b * twoTo j ∨ b * twoTo j + twoTo j ≤ s.natAbs := by
      intro s fits
      rw [← next]
      exact fits_grid full fits
    rcases rounded with ⟨down, half, even⟩ | ⟨up, half, odd⟩
    · rw [down]
      refine ⟨fits_of_le (by decide) small.le, fun s fits => ?_, fun s fits near other => ?_⟩
      · have := apart s fits
        omega
      · have := apart s fits
        exact fits_of_even (by decide) (even (by omega)) small.le
    · rw [up]
      refine ⟨fits_of_le (by decide) small, fun s fits => ?_, fun s fits near other => ?_⟩
      · have := apart s fits
        omega
      · have := apart s fits
        have carries : (b + 1) % 2 = 0 := by
          have := odd (by omega)
          omega
        exact fits_of_even (by decide) carries small

theorem Fits.neg {k : Nat} {r : Int} (fits : Fits k r) : Fits k (-r) := by
  simpa only [Fits, Int.natAbs_neg] using fits

theorem Rounds.neg {n r : Int} (rounds : Rounds n r) : Rounds (-n) (-r) := by
  have mirror : ∀ s : Int, (s - -n).natAbs = (-s - n).natAbs := fun s => by omega
  refine ⟨rounds.fits.neg, fun s fits => ?_, fun s fits near other => ?_⟩
  · rw [mirror, mirror, neg_neg]
    exact rounds.nearest (-s) fits.neg
  · rw [mirror, mirror, neg_neg] at near
    exact (rounds.even (-s) fits.neg near fun same => other (by omega)).neg

/-- The integer that an integer is rounded to. -/
def rounded (n : Int) : Int := signed (decide (n < 0)) (nearest53 n.natAbs)

theorem rounds_rounded (n : Int) : Rounds n (rounded n) := by
  unfold rounded
  by_cases negative : n < 0
  · have mirrored := (rounds_natCast n.natAbs).neg
    rw [decide_eq_true negative]
    rwa [show -(n.natAbs : Int) = n by omega] at mirrored
  · have same := rounds_natCast n.natAbs
    rw [decide_eq_false negative]
    rwa [show (n.natAbs : Int) = n by omega] at same

/-- Two integers of at most 52 bits that are no neighbours as integers have one of at most 53
bits between them. -/
theorem exists_fits_between {r s : Int} (fitsR : Fits 52 r) (fitsS : Fits 52 s)
    (nonneg : 0 ≤ r) (far : r + 1 < s) : ∃ t, Fits 53 t ∧ r < t ∧ t < s := by
  obtain ⟨a, e, smallA, writtenR⟩ := fitsR
  obtain ⟨b, f, smallB, writtenS⟩ := fitsS
  have double : twoTo 53 = 2 * twoTo 52 := rfl
  -- both are multiples of one power of two, the lower one with at most 52 bits
  obtain ⟨c, d, g, smallC, multipleR, multipleS⟩ : ∃ c d g, c < twoTo 52 ∧
      r.natAbs = c * twoTo g ∧ s.natAbs = d * twoTo g := by
    rcases Nat.le_total e f with le | le
    · refine ⟨a, b * twoTo (f - e), e, smallA, writtenR, ?_⟩
      rw [writtenS, mul_assoc, ← twoTo_add, Nat.sub_add_cancel le]
    · have multiple : r.natAbs = a * twoTo (e - f) * twoTo f := by
        rw [writtenR, mul_assoc, ← twoTo_add, Nat.sub_add_cancel le]
      refine ⟨a * twoTo (e - f), b, f, ?_, multiple, writtenS⟩
      have less : a * twoTo (e - f) * twoTo f < b * twoTo f := by omega
      exact (Nat.lt_of_mul_lt_mul_right less).trans smallB
  have less : c < d := by
    refine Nat.lt_of_mul_lt_mul_right (a := twoTo g) ?_
    omega
  cases g with
  | zero =>
    refine ⟨r + 1, ⟨c + 1, 0, by omega, ?_⟩, by omega, far⟩
    change _ = (c + 1) * 1
    have : r.natAbs = c * 1 := multipleR
    omega
  | succ g =>
    have halves : ∀ k, k * twoTo (g + 1) = 2 * k * twoTo g := by
      intro k
      rw [twoTo_add g 1, show twoTo 1 = 2 from rfl]
      ring
    have unit := twoTo_pos g
    have step : (2 * c + 1) * twoTo g = 2 * c * twoTo g + twoTo g := Nat.succ_mul _ _
    have reach : (2 * c + 2) * twoTo g ≤ 2 * d * twoTo g := Nat.mul_le_mul_right _ (by omega)
    have next : (2 * c + 2) * twoTo g = 2 * c * twoTo g + twoTo g + twoTo g := by ring
    rw [halves] at multipleR multipleS
    refine ⟨((2 * c + 1) * twoTo g : Nat), ⟨2 * c + 1, g, by omega, rfl⟩, ?_, ?_⟩
    · omega
    · omega

theorem Rounds.le_of_tie {n r s : Int} (rounds : Rounds n r) (also : Rounds n s) : s ≤ r := by
  by_contra above
  have equal : (s - n).natAbs = (r - n).natAbs :=
    Nat.le_antisymm (also.nearest r rounds.fits) (rounds.nearest s also.fits)
  have evenR : Fits 52 r := rounds.even s also.fits equal (by omega)
  have evenS : Fits 52 s := also.even r rounds.fits equal.symm (by omega)
  -- an integer between the two would be nearer
  have nearer : ∃ t, Fits 53 t ∧ r < t ∧ t < s := by
    rcases lt_or_ge r 0 with negative | nonneg
    · rcases lt_or_ge 0 s with positive | nonpos
      · exact ⟨0, ⟨0, 0, twoTo_pos 53, rfl⟩, negative, positive⟩
      · obtain ⟨t, fits, low, high⟩ :=
          exists_fits_between evenS.neg evenR.neg (by omega) (by omega)
        exact ⟨-t, fits.neg, by omega, by omega⟩
    · exact exists_fits_between evenR evenS nonneg (by omega)
  obtain ⟨t, fits, low, high⟩ := nearer
  have := rounds.nearest t fits
  omega

theorem rounds_iff {n r : Int} : Rounds n r ↔ r = rounded n := by
  constructor
  · intro rounds
    exact le_antisymm ((rounds_rounded n).le_of_tie rounds) (rounds.le_of_tie (rounds_rounded n))
  · rintro rfl
    exact rounds_rounded n

theorem rounded_mono {a b : Int} (le : a ≤ b) : rounded a ≤ rounded b := by
  rcases le.lt_or_eq with less | rfl
  · by_contra reversed
    have first := (rounds_rounded a).nearest _ (rounds_rounded b).fits
    have second := (rounds_rounded b).nearest _ (rounds_rounded a).fits
    omega
  · exact le_rfl

theorem rounded_exact {n : Int} (small : n.natAbs ≤ twoTo 53) : rounded n = n := by
  have fits : Fits 53 n := by
    rcases small.lt_or_eq with less | equal
    · exact ⟨n.natAbs, 0, less, (Nat.mul_one _).symm⟩
    · exact ⟨1, 53, by decide, by rw [equal, one_mul]⟩
  have := (rounds_rounded n).nearest n fits
  omega

/-- Rounding goes beyond every double, which are all below `2 ^ 1024`, exactly where numbers
are refused. -/
theorem natAbs_rounded_lt {n : Int} : (rounded n).natAbs < twoTo 1024 ↔ n.natAbs < roundingLimit := by
  have positive : ∀ k : Nat, (nearest53 k : Int) = rounded k := fun k => by simp [rounded, signed]
  have keeps : ∀ {k l : Nat}, k ≤ l → nearest53 k ≤ nearest53 l := by
    intro k l le
    have := rounded_mono (Int.ofNat_le.mpr le)
    rw [← positive, ← positive] at this
    exact Int.ofNat_le.mp this
  have last : nearest53 (roundingLimit - 1) < twoTo 1024 := by decide +kernel
  have first : twoTo 1024 ≤ nearest53 roundingLimit := by decide +kernel
  rw [rounded, natAbs_signed]
  constructor
  · intro inside
    by_contra refused
    exact absurd (first.trans (keeps (Nat.le_of_not_lt refused))) (Nat.not_le_of_lt inside)
  · intro small
    exact (keeps (Nat.le_sub_one_of_lt small)).trans_lt last

end Primer
