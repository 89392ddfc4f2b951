import Mathlib.Algebra.BigOperators.Group.List.Basic
import Mathlib.Data.Rat.Floor
import Primer.Arithmetic

/-! The arithmetic commands in closed form. Folds from the left collapse: subtraction takes
the sum of the other operands off the first, division divides the first by their product, and
a remainder stays below every divisor. So only a remainder depends on the order of the
operands after the first. Powers, which are not folded on integers, are left out. -/
namespace Primer

/-- The integer next to a rational number on the side of zero. -/
def towardZero (q : ℚ) : ℤ := if 0 ≤ q then ⌊q⌋ else ⌈q⌉

theorem towardZero_neg (q : ℚ) : towardZero (-q) = -towardZero q := by
  unfold towardZero
  rcases lt_trichotomy q 0 with below | rfl | above
  · rw [if_pos (by linarith), if_neg (by linarith), Int.floor_neg]
  · simp
  · rw [if_neg (by linarith), if_pos (by linarith), Int.ceil_neg]

theorem towardZero_natCast_div (m n : Nat) : towardZero ((m : ℚ) / n) = (m : Int).tdiv n := by
  have nonneg : (0 : ℚ) ≤ m / n := by positivity
  rw [towardZero, if_pos nonneg, Int.tdiv_eq_ediv_of_nonneg (Int.natCast_nonneg m)]
  exact Rat.floor_intCast_div_natCast m n

theorem tdiv_eq_towardZero (a b : Int) : a.tdiv b = towardZero (a / b) := by
  obtain ⟨m, rfl | rfl⟩ := a.eq_nat_or_neg <;> obtain ⟨n, rfl | rfl⟩ := b.eq_nat_or_neg <;>
    simp only [Int.cast_neg, Int.cast_natCast, neg_div, div_neg, neg_neg, towardZero_neg,
      towardZero_natCast_div, Int.neg_tdiv, Int.tdiv_neg]

theorem tdiv_tdiv (a b c : Int) : (a.tdiv b).tdiv c = a.tdiv (b * c) := by
  obtain ⟨k, rfl | rfl⟩ := a.eq_nat_or_neg <;> obtain ⟨m, rfl | rfl⟩ := b.eq_nat_or_neg <;>
    obtain ⟨n, rfl | rfl⟩ := c.eq_nat_or_neg <;>
    simp only [Int.neg_tdiv, Int.tdiv_neg, neg_neg, neg_mul, mul_neg, ← Int.natCast_mul,
      ← Int.ofNat_tdiv, Nat.div_div_eq_div_mul]

namespace Operator

/-- There are too few operands: none where a first one is needed, or fewer than two for a
remainder. -/
def Lacks : Operator → List Int → Prop
  | add, _ => False
  | subtract, ns | multiply, ns | divide, ns => ns = []
  | modulo, ns | power, ns => ns.length < 2

/-- Every operand after the first is a divisor, and one of them is zero. -/
def MeetsZero (op : Operator) (ns : List Int) : Prop := (op = divide ∨ op = modulo) ∧ 0 ∈ ns.tail

/-- The number that operands give. A remainder differs from the first operand by a sum of
multiples of the divisors, which is said by what divides all of them. -/
def Gives : Operator → List Int → Int → Prop
  | add, ns, n => n = ns.sum
  | multiply, ns, n => n = ns.prod
  | subtract, first :: rest, n => n = first - rest.sum
  | divide, first :: rest, n => n = towardZero (first / rest.prod)
  | modulo, first :: rest, n =>
    (∀ d ∈ rest, |n| < |d|) ∧ (n = 0 ∨ n.sign = first.sign) ∧
      ∀ g : Int, (∀ d ∈ rest, g ∣ d) → g ∣ first - n
  | _, _, _ => False

theorem lacks_iff (op : Operator) (ns : List Int) : op.Lacks ns ↔ ns.length < op.leastOperands := by
  cases op <;> simp [Lacks, leastOperands]

theorem meetsZero_iff (op : Operator) (first : Int) (rest : List Int) :
    op.MeetsZero (first :: rest) ↔ op.zeroProblem? ≠ none ∧ 0 ∈ rest := by
  cases op <;> simp [MeetsZero, zeroProblem?]

theorem foldl_add (first : Int) (rest : List Int) :
    rest.foldl add.step first = first + rest.sum := by
  induction rest generalizing first with
  | nil => simp
  | cons n rest ih => rw [List.foldl_cons, ih, List.sum_cons, step, add_assoc]

theorem foldl_subtract (first : Int) (rest : List Int) :
    rest.foldl subtract.step first = first - rest.sum := by
  induction rest generalizing first with
  | nil => simp
  | cons n rest ih => rw [List.foldl_cons, ih, List.sum_cons, step, sub_sub]

theorem foldl_multiply (first : Int) (rest : List Int) :
    rest.foldl multiply.step first = first * rest.prod := by
  induction rest generalizing first with
  | nil => simp
  | cons n rest ih => rw [List.foldl_cons, ih, List.prod_cons, step, mul_assoc]

theorem foldl_divide (first : Int) (rest : List Int) :
    rest.foldl divide.step first = first.tdiv rest.prod := by
  induction rest generalizing first with
  | nil => simp
  | cons n rest ih => rw [List.foldl_cons, ih, List.prod_cons, step, tdiv_tdiv]

theorem abs_tmod_lt (a : Int) {b : Int} (nonzero : b ≠ 0) : |a.tmod b| < |b| := by
  rw [Int.abs_eq_natAbs, Int.abs_eq_natAbs, Int.natAbs_tmod]
  exact_mod_cast Nat.mod_lt _ (Int.natAbs_pos.mpr nonzero)

theorem abs_tmod_le (a b : Int) : |a.tmod b| ≤ |a| := by
  rw [Int.abs_eq_natAbs, Int.abs_eq_natAbs, Int.natAbs_tmod]
  exact_mod_cast Nat.mod_le _ _

theorem sign_tmod_or (a b : Int) : a.tmod b = 0 ∨ (a.tmod b).sign = a.sign := by
  rw [Int.sign_tmod]
  split
  · exact .inl (Int.tmod_eq_zero_of_dvd ‹_›)
  · exact .inr rfl

/-- What one step keeps of the number it is given is kept by the whole fold. -/
theorem foldl_modulo (first : Int) {rest : List Int} (nonzero : 0 ∉ rest) :
    modulo.Gives (first :: rest) (rest.foldl modulo.step first) ∧
      |rest.foldl modulo.step first| ≤ |first| := by
  induction rest generalizing first with
  | nil => simp [Gives]
  | cons d rest ih =>
    obtain ⟨other, others⟩ : d ≠ 0 ∧ 0 ∉ rest := by
      simpa [eq_comm] using nonzero
    obtain ⟨⟨below, sign, multiple⟩, small⟩ := ih (first.tmod d) others
    rw [List.foldl_cons, step]
    set n := rest.foldl modulo.step (first.tmod d)
    refine ⟨⟨?_, ?_, ?_⟩, small.trans (abs_tmod_le first d)⟩
    · -- the first divisor bounds the number given to the later steps, which do not enlarge it
      rintro e (_ | ⟨_, later⟩)
      · exact small.trans_lt (abs_tmod_lt first other)
      · exact below e later
    · rcases sign with zero | sign
      · exact .inl zero
      · rcases sign_tmod_or first d with zero | same
        · rw [zero, Int.sign_zero] at sign
          exact .inl (Int.sign_eq_zero_iff_zero.mp sign)
        · exact .inr (sign.trans same)
    · intro g divides
      have later : g ∣ first.tmod d - n :=
        multiple g fun e inside => divides e (List.mem_cons_of_mem d inside)
      have here : g ∣ d * first.tdiv d := (divides d List.mem_cons_self).mul_right _
      have parts : first - n = d * first.tdiv d + (first.tmod d - n) := by
        rw [Int.tmod_def]
        ring
      exact parts ▸ dvd_add here later

theorem foldl_gives {op : Operator} (folds : op ≠ power) (first : Int) {rest : List Int}
    (safe : ¬ op.MeetsZero (first :: rest)) :
    op.Gives (first :: rest) (rest.foldl op.step first) := by
  cases op with
  | power => exact absurd rfl folds
  | add => exact (foldl_add first rest).trans List.sum_cons.symm
  | subtract => exact foldl_subtract first rest
  | multiply => exact (foldl_multiply first rest).trans List.prod_cons.symm
  | divide => exact (foldl_divide first rest).trans (tdiv_eq_towardZero first rest.prod)
  | modulo => exact (foldl_modulo first fun zero => safe ⟨.inr rfl, zero⟩).1

theorem apply_of_lacks {op : Operator} {ns : List Int} (few : op.Lacks ns) :
    op.apply ns = .error (.tooFewOperands op) := if_pos ((lacks_iff op ns).mp few)

theorem zeroProblem?_kind {op : Operator} {p : Problem} (found : op.zeroProblem? = some p) :
    p.kind = .divisionByZero := by
  cases op with
  | divide | modulo => cases found; rfl
  | _ => cases found

section Enough
variable {op : Operator} {ns : List Int} (enough : ¬ op.Lacks ns)
include enough

theorem apply_of_meetsZero (zero : op.MeetsZero ns) :
    ∃ p, op.zeroProblem? = some p ∧ op.apply ns = .error p := by
  cases ns with
  | nil => exact absurd zero.2 List.not_mem_nil
  | cons first rest =>
    obtain ⟨divides, zero⟩ := (meetsZero_iff op first rest).mp zero
    obtain ⟨p, problem⟩ := Option.ne_none_iff_exists'.mp divides
    rw [lacks_iff] at enough
    refine ⟨p, problem, ?_⟩
    simp only [apply, if_neg enough, problem, List.contains_eq_mem, decide_eq_true zero, if_true]

theorem apply_gives (folds : op ≠ power) (safe : ¬ op.MeetsZero ns) :
    ∃ n, op.apply ns = .ok n ∧ op.Gives ns n := by
  cases ns with
  | nil =>
    -- only a sum can do without a first operand
    cases op with
    | add => exact ⟨0, rfl, rfl⟩
    | power => exact absurd rfl folds
    | modulo => exact absurd (by decide : 0 < 2) enough
    | subtract | multiply | divide => exact absurd rfl enough
  | cons first rest =>
    refine ⟨rest.foldl op.step first, ?_, foldl_gives folds first safe⟩
    have value : op.value first rest = .ok (rest.foldl op.step first) := by
      cases op with
      | power => exact absurd rfl folds
      | _ => rfl
    rw [lacks_iff] at enough
    rw [meetsZero_iff] at safe
    simp only [apply, if_neg enough, value]
    cases problem : op.zeroProblem? with
    | none => rfl
    | some p =>
      have absent : 0 ∉ rest := fun zero => safe ⟨by simp [problem], zero⟩
      simp only [List.contains_eq_mem, decide_eq_false absent, Bool.false_eq_true, if_false]

end Enough

/-- An operator settles two lists alike if it lacks, refuses and gives the same for both. -/
theorem apply_congr {op : Operator} (folds : op ≠ power) {ms ns : List Int}
    (lacks : op.Lacks ms ↔ op.Lacks ns) (zero : op.MeetsZero ms ↔ op.MeetsZero ns)
    (gives : ∀ m n, op.Gives ms m → op.Gives ns n → m = n) : op.apply ms = op.apply ns := by
  by_cases few : op.Lacks ns
  · rw [apply_of_lacks few, apply_of_lacks (lacks.mpr few)]
  · have few' : ¬ op.Lacks ms := fun few' => few (lacks.mp few')
    by_cases meets : op.MeetsZero ns
    · obtain ⟨p, problem, refused⟩ := apply_of_meetsZero few meets
      obtain ⟨q, problem', refused'⟩ := apply_of_meetsZero few' (zero.mpr meets)
      cases problem.symm.trans problem'
      exact refused'.trans refused.symm
    · obtain ⟨n, value, given⟩ := apply_gives few folds meets
      obtain ⟨m, value', given'⟩ := apply_gives few' folds fun meets' => meets (zero.mp meets')
      rw [value, value', gives m n given' given]

theorem apply_perm {op : Operator} (commutes : op = add ∨ op = multiply) {ms ns : List Int}
    (same : ms.Perm ns) : op.apply ms = op.apply ns := by
  have lacks : op.Lacks ms ↔ op.Lacks ns := by rw [lacks_iff, lacks_iff, same.length_eq]
  have zero : ∀ ks, ¬ op.MeetsZero ks := by
    rcases commutes with rfl | rfl <;> simp [MeetsZero]
  refine apply_congr ?_ lacks (iff_of_false (zero ms) (zero ns)) ?_
  · rcases commutes with rfl | rfl <;> decide
  · rintro m n givesM givesN
    rcases commutes with rfl | rfl
    · rw [givesM, givesN, same.sum_eq]
    · rw [givesM, givesN, same.prod_eq]

theorem apply_cons_perm {op : Operator} (takes : op = subtract ∨ op = divide) (first : Int)
    {rest others : List Int} (same : others.Perm rest) :
    op.apply (first :: others) = op.apply (first :: rest) := by
  have lacks : op.Lacks (first :: others) ↔ op.Lacks (first :: rest) := by
    rw [lacks_iff, lacks_iff, (same.cons first).length_eq]
  have zero : op.MeetsZero (first :: others) ↔ op.MeetsZero (first :: rest) := by
    rw [meetsZero_iff, meetsZero_iff, same.mem_iff]
  refine apply_congr ?_ lacks zero ?_
  · rcases takes with rfl | rfl <;> decide
  · rintro m n givesM givesN
    rcases takes with rfl | rfl
    · rw [givesM, givesN, same.sum_eq]
    · rw [givesM, givesN, same.prod_eq]

/-- How an operator other than `power` settles a list of operands: it refuses too few of them,
then a zero divisor, and else gives its closed form. The order of all operands is of no account
to sums and products, that of the operands after the first to differences and quotients. -/
theorem apply_settles {op : Operator} (folds : op ≠ power) (ns : List Int) :
    ((∃ p, op.apply ns = .error p ∧ p.kind = .arityMismatch) ↔ op.Lacks ns) ∧
    (¬ op.Lacks ns →
      ((∃ p, op.apply ns = .error p ∧ p.kind = .divisionByZero) ↔ op.MeetsZero ns) ∧
      (¬ op.MeetsZero ns → ∃ n, op.apply ns = .ok n ∧ op.Gives ns n)) ∧
    (op = add ∨ op = multiply → ∀ ms, ms.Perm ns → op.apply ms = op.apply ns) ∧
    (op = subtract ∨ op = divide → ∀ first rest others, ns = first :: rest → others.Perm rest →
      op.apply (first :: others) = op.apply ns) := by
  have zeroKind : ∀ p, op.apply ns = .error p → ¬ op.Lacks ns →
      op.MeetsZero ns ∧ p.kind = .divisionByZero := by
    intro p failed enough
    by_cases meets : op.MeetsZero ns
    · obtain ⟨q, problem, refused⟩ := apply_of_meetsZero enough meets
      cases failed.symm.trans refused
      exact ⟨meets, zeroProblem?_kind problem⟩
    · obtain ⟨n, value, _⟩ := apply_gives enough folds meets
      cases failed.symm.trans value
  refine ⟨⟨?_, ?_⟩, fun enough => ⟨⟨?_, ?_⟩, apply_gives enough folds⟩, ?_, ?_⟩
  · rintro ⟨p, failed, kind⟩
    by_contra enough
    cases kind.symm.trans (zeroKind p failed enough).2
  · intro few
    exact ⟨_, apply_of_lacks few, rfl⟩
  · rintro ⟨p, failed, _⟩
    exact (zeroKind p failed enough).1
  · intro meets
    obtain ⟨p, problem, refused⟩ := apply_of_meetsZero enough meets
    exact ⟨p, refused, zeroProblem?_kind problem⟩
  · exact fun commutes ms same => apply_perm commutes same
  · rintro takes first rest others rfl same
    exact apply_cons_perm takes first same

theorem apply_settles_negativeRemainder : modulo ≠ power ∧ ¬ modulo.Lacks [-47, 12, -5] ∧
    ¬ modulo.MeetsZero [-47, 12, -5] ∧
    ∃ n, modulo.apply [-47, 12, -5] = .ok n ∧ modulo.Gives [-47, 12, -5] n := by
  have folds : modulo ≠ power := nofun
  have enough : ¬ modulo.Lacks [-47, 12, -5] := by simp [Lacks]
  have safe : ¬ modulo.MeetsZero [-47, 12, -5] := by simp [MeetsZero]
  exact ⟨folds, enough, safe, ((apply_settles folds _).2.1 enough).2 safe⟩

end Operator
end Primer
