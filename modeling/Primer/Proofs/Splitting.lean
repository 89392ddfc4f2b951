import Mathlib.Data.List.Infix
import Primer.Condition
import Primer.Proofs.Text

/-! Where a condition is split. The grammar of conditions has three terminals, each a regular
expression: text before a comparison, a comparison, and all that follows. Read in this order
they take in every text, and they cut it at its first comparison, the longest one if several
start there. -/
namespace Primer

/-- Regular expressions over characters. -/
inductive Pattern
  | empty
  | one (accepts : Char → Bool)
  | seq (first next : Pattern)
  | either (first other : Pattern)
  /-- Matches no text, but only where a pattern does not match. -/
  | absent (p : Pattern)
  /-- A pattern once or more, as often as it can be had. -/
  | many (p : Pattern)

/-- A step taken again and again; more steps are preferred to fewer. -/
def repeated (step : List Char → List (List Char)) : Nat → List Char → List (List Char)
  | 0, _ => []
  | bound + 1, s => (step s).flatMap fun rest => repeated step bound rest ++ [rest]

namespace Pattern

/-- What the matches at the start of a text leave of it, in the order in which they are tried. -/
def rests : Pattern → List Char → List (List Char)
  | empty, s => [s]
  | one _, [] => []
  | one accepts, c :: s => if accepts c then [s] else []
  | seq first next, s => (first.rests s).flatMap next.rests
  | either first other, s => first.rests s ++ other.rests s
  | absent p, s => if (p.rests s).isEmpty then [s] else []
  | many p, s => repeated p.rests s.length s

/-- The match at the start of a text, and the text after it. -/
def take? (p : Pattern) (s : List Char) : Option (List Char × List Char) :=
  (p.rests s).head?.map fun rest => (s.take (s.length - rest.length), rest)

/-- The same where the pattern is optional. -/
def takeOptional (p : Pattern) (s : List Char) : List Char × List Char := (p.take? s).getD ([], s)

def oneOf (cs : List Char) : Pattern := one fun c => cs.contains c

def noneOf (cs : List Char) : Pattern := one fun c => !(cs.contains c)

def literally (s : List Char) : Pattern := s.foldr (fun c p => seq (oneOf [c]) p) empty

/-- A character that cannot start a comparison, or a `=` or `!` without a `=` after it. -/
def plainChar : Pattern :=
  either (noneOf ['=', '!', '<', '>']) (seq (oneOf ['=', '!']) (absent (oneOf ['='])))

def beforeComparison : Pattern := many plainChar

def comparison : Pattern :=
  either (literally ['=', '=']) (either (literally ['!', '=']) (either (literally ['<', '='])
    (either (literally ['>', '=']) (either (literally ['<']) (literally ['>'])))))

def remainder : Pattern := many (one fun _ => true)

end Pattern

open Pattern

/-- Reads an optional text and, unless the input ends there, a comparison and an optional text
up to the end. -/
def readTerminals (t : List Char) : Option (List Char × Option (List Char × List Char)) :=
  let (left, rest) := beforeComparison.takeOptional t
  if rest.isEmpty then some (left, none)
  else
    match Pattern.comparison.take? rest with
    | none => none
    | some (sign, rest) =>
      let (right, rest) := remainder.takeOptional rest
      if rest.isEmpty then some (left, some (sign, right)) else none

/-- A comparison whose sign stands at an index of a text, at no smaller index any, and at this
one none that is longer. -/
structure FirstComparison (t : List Char) (i : Nat) (op : Comparison) : Prop where
  occurs : op.sign.toList <+: t.drop i
  longest : ∀ other : Comparison, other.sign.toList <+: t.drop i → other.sign.length ≤ op.sign.length
  first : ∀ j < i, ∀ other : Comparison, ¬ other.sign.toList <+: t.drop j

namespace Comparison

theorem toList_sign (op : Comparison) : op.sign.toList = match op with
    | equal => ['=', '='] | different => ['!', '='] | atMost => ['<', '=']
    | atLeast => ['>', '='] | less => ['<'] | greater => ['>'] := by
  cases op <;> rfl

theorem length_sign (op : Comparison) : op.sign.length = op.sign.toList.length :=
  String.length_toList.symm

theorem length_sign_le (op : Comparison) : op.sign.length ≤ 2 := by
  cases op <;> decide

theorem length_sign_of_single {c : Char} {rest : List Char} (single : ∀ cs, rest ≠ '=' :: cs)
    {op : Comparison} (starts : op.sign.toList <+: c :: rest) : op.sign.length ≤ 1 := by
  have second : ¬ ['='] <+: rest := by
    rintro ⟨cs, rfl⟩
    exact single cs rfl
  cases op with
  | less | greater => exact le_rfl
  | _ =>
    rw [toList_sign] at starts
    exact absurd (List.cons_prefix_cons.mp starts).2 second

theorem read?_some {s rest : List Char} {op : Comparison} (found : read? s = some (op, rest)) :
    s = op.sign.toList ++ rest ∧
      ∀ other : Comparison, other.sign.toList <+: s → other.sign.length ≤ op.sign.length := by
  unfold read? at found
  split at found
  all_goals cases found
  case h_5 | h_6 =>
    rename_i single
    exact ⟨rfl, fun other starts => length_sign_of_single single starts⟩
  all_goals exact ⟨rfl, fun other _ => length_sign_le other⟩

theorem read?_append_isSome (op : Comparison) (rest : List Char) :
    (read? (op.sign.toList ++ rest)).isSome = true := by
  rw [toList_sign]
  cases op with
  | less | greater =>
    -- whether a `=` follows decides which one is read
    cases rest with
    | nil => rfl
    | cons c rest =>
      by_cases double : c = '='
      · subst double
        rfl
      · simp [read?, double]
  | _ => rfl

theorem read?_none {s : List Char} : read? s = none ↔ ∀ op : Comparison, ¬ op.sign.toList <+: s := by
  constructor
  · rintro none op ⟨rest, rfl⟩
    have some := read?_append_isSome op rest
    rw [none] at some
    cases some
  · intro absent
    cases found : read? s with
    | none => rfl
    | some pair =>
      obtain ⟨parts, _⟩ := read?_some found
      exact absurd ⟨pair.2, parts.symm⟩ (absent pair.1)

end Comparison

open Comparison

section Runs
variable {ok : List Char → Bool}

/-- What is left of a text after its longest run of characters that are accepted, each with
the text that follows it. -/
def afterRun (ok : List Char → Bool) : List Char → List Char
  | [] => []
  | c :: cs => if ok (c :: cs) then afterRun ok cs else c :: cs

theorem afterRun_of_ok {s : List Char} (ends : ok [] = false) (here : ok s = true) :
    afterRun ok s = afterRun ok s.tail := by
  cases s with
  | nil => rw [ends] at here; cases here
  | cons c cs => rw [afterRun, if_pos here, List.tail_cons]

theorem afterRun_of_not {s : List Char} (stops : ok s = false) : afterRun ok s = s := by
  cases s with
  | nil => rfl
  | cons c cs => rw [afterRun, if_neg (by simp [stops])]

theorem ok_afterRun (ends : ok [] = false) (s : List Char) : ok (afterRun ok s) = false := by
  induction s with
  | nil => exact ends
  | cons c cs ih =>
    rw [afterRun]
    split
    · exact ih
    · rename_i stops
      simpa using stops

/-- Repeating a pattern of one character takes the longest run of it. -/
theorem head?_repeated {step : List Char → List (List Char)} (ends : ok [] = false)
    (single : ∀ s, step s = if ok s then [s.tail] else []) {bound : Nat} {s : List Char}
    (enough : s.length ≤ bound) :
    (repeated step bound s).head? = if ok s then some (afterRun ok s) else none := by
  induction bound generalizing s with
  | zero =>
    obtain rfl : s = [] := List.length_eq_zero_iff.mp (Nat.le_zero.mp enough)
    simp [repeated, ends]
  | succ bound ih =>
    rw [repeated, single]
    cases here : ok s with
    | false => rfl
    | true =>
      have shorter : s.tail.length ≤ bound := by rw [List.length_tail]; omega
      simp only [if_true, List.flatMap_singleton, List.head?_append, ih shorter, List.head?_cons,
        afterRun_of_ok ends here]
      cases next : ok s.tail with
      | false => simp [afterRun_of_not next]
      | true => simp

theorem takeOptional_many {p : Pattern} (ends : ok [] = false)
    (single : ∀ s, p.rests s = if ok s then [s.tail] else []) (s : List Char) :
    (many p).takeOptional s = (s.take (s.length - (afterRun ok s).length), afterRun ok s) := by
  simp only [takeOptional, take?, rests, head?_repeated ends single le_rfl]
  cases here : ok s with
  | false => simp [afterRun_of_not here]
  | true => simp

end Runs

/-- There is a next character, and no comparison starts with it. -/
def startsNone (s : List Char) : Bool := !s.isEmpty && (read? s).isNone

theorem plainChar_rests (s : List Char) :
    plainChar.rests s = if startsNone s then [s.tail] else [] := by
  cases s with
  | nil => rfl
  | cons c cs =>
    by_cases opens : c = '=' ∨ c = '!'
    · -- only the next character decides
      rcases opens with rfl | rfl
      all_goals
        cases cs with
        | nil => rfl
        | cons d ds =>
          by_cases double : d = '='
          · subst double
            rfl
          · simp [plainChar, noneOf, oneOf, rests, startsNone, read?, double]
    · rw [not_or] at opens
      by_cases angle : c = '<' ∨ c = '>'
      · have read : (read? (c :: cs)).isSome = true := by
          rcases angle with rfl | rfl
          · exact read?_append_isSome .less cs
          · exact read?_append_isSome .greater cs
        obtain ⟨pair, found⟩ := Option.isSome_iff_exists.mp read
        rcases angle with rfl | rfl <;> simp [plainChar, noneOf, oneOf, rests, startsNone, found]
      · rw [not_or] at angle
        simp [plainChar, noneOf, oneOf, rests, startsNone, read?, opens, angle]

theorem literally_rests (w s : List Char) :
    (literally w).rests s = if w <+: s then [s.drop w.length] else [] := by
  induction w generalizing s with
  | nil => simp [literally, rests]
  | cons c w ih =>
    change ((oneOf [c]).rests s).flatMap (literally w).rests = _
    cases s with
    | nil => simp [oneOf, rests]
    | cons d s =>
      by_cases same : d = c
      · subst same
        simp [oneOf, rests, ih]
      · simp [oneOf, rests, same, Ne.symm same]

theorem comparison_head? (s : List Char) :
    (Pattern.comparison.rests s).head? = (read? s).map Prod.snd := by
  simp only [Pattern.comparison, rests, literally_rests]
  cases found : read? s with
  | none =>
    have absent := read?_none.mp found
    simp only [toList_sign] at absent
    simp [absent .equal, absent .different, absent .atMost, absent .atLeast, absent .less,
      absent .greater]
  | some pair =>
    obtain ⟨op, rest⟩ := pair
    obtain ⟨rfl, longest⟩ := read?_some found
    cases op with
    | less =>
      have single : ¬ ['='] <+: rest := fun starts =>
        absurd (longest .atMost (List.cons_prefix_cons.mpr ⟨rfl, starts⟩)) (by decide)
      simp [toList_sign, single]
    | greater =>
      have single : ¬ ['='] <+: rest := fun starts =>
        absurd (longest .atLeast (List.cons_prefix_cons.mpr ⟨rfl, starts⟩)) (by decide)
      simp [toList_sign, single]
    | _ => simp [toList_sign]

theorem comparison_take? (s : List Char) :
    Pattern.comparison.take? s = (read? s).map fun found => (found.1.sign.toList, found.2) := by
  rw [take?, comparison_head?]
  cases found : read? s with
  | none => rfl
  | some pair =>
    obtain ⟨rfl, _⟩ := read?_some found
    simp

theorem remainder_takeOptional (s : List Char) : remainder.takeOptional s = (s, []) := by
  have all : afterRun (fun s => !s.isEmpty) s = [] := by
    induction s with
    | nil => rfl
    | cons c cs ih => exact ih
  have single : ∀ s, (one fun _ => true).rests s = if !s.isEmpty then [s.tail] else [] := by
    intro s
    cases s <;> rfl
  rw [remainder, takeOptional_many rfl single, all]
  simp

/-- The text before the first comparison, and the comparison that the rest starts with. -/
theorem splitComparison_run (s : List Char) :
    (splitComparison s).1 ++ afterRun startsNone s = s ∧
      (splitComparison s).2 = read? (afterRun startsNone s) := by
  induction s with
  | nil => exact ⟨rfl, rfl⟩
  | cons c cs ih =>
    rw [splitComparison, afterRun]
    cases found : read? (c :: cs) with
    | some pair => simp [startsNone, found]
    | none => simpa [startsNone, found] using ih

theorem readTerminals_eq (t : List Char) : readTerminals t =
    some ((splitComparison t).1,
      (splitComparison t).2.map fun found => (found.1.sign.toList, found.2)) := by
  obtain ⟨parts, found⟩ := splitComparison_run t
  have stops : startsNone (afterRun startsNone t) = false := ok_afterRun rfl t
  have left : t.take (t.length - (afterRun startsNone t).length) = (splitComparison t).1 := by
    calc t.take (t.length - (afterRun startsNone t).length)
        = ((splitComparison t).1 ++ afterRun startsNone t).take
            (((splitComparison t).1 ++ afterRun startsNone t).length -
              (afterRun startsNone t).length) := by rw [parts]
      _ = (splitComparison t).1 := by simp
  rw [readTerminals, beforeComparison, takeOptional_many rfl plainChar_rests, left, found]
  simp only [comparison_take?, remainder_takeOptional]
  cases rest : afterRun startsNone t with
  | nil => rfl
  | cons c cs =>
    rw [rest] at stops
    cases next : read? (c :: cs) with
    | none => simp [startsNone, next] at stops
    | some pair => rfl

theorem read?_before (t : List Char) {j : Nat} (before : j < (splitComparison t).1.length) :
    read? (t.drop j) = none := by
  induction t generalizing j with
  | nil => exact absurd before (Nat.not_lt_zero j)
  | cons c cs ih =>
    cases found : read? (c :: cs) with
    | some pair => simp [splitComparison, found] at before
    | none =>
      cases j with
      | zero => exact found
      | succ j =>
        rw [List.drop_succ_cons]
        exact ih (by simpa [splitComparison, found] using before)

theorem splitComparison_none {t left : List Char} (split : splitComparison t = (left, none)) :
    left = t ∧ ∀ j, ∀ op : Comparison, ¬ op.sign.toList <+: t.drop j := by
  obtain ⟨parts, found⟩ := splitComparison_run t
  have stops : startsNone (afterRun startsNone t) = false := ok_afterRun rfl t
  rw [split] at parts found
  have all : afterRun startsNone t = [] := by simpa [startsNone, ← found] using stops
  rw [all, List.append_nil] at parts
  refine ⟨parts, fun j op => ?_⟩
  rcases Nat.lt_or_ge j t.length with inside | outside
  · exact read?_none.mp (read?_before t (by rwa [split, parts])) op
  · rw [List.drop_eq_nil_of_le outside]
    exact (read?_none (s := [])).mp rfl op

theorem splitComparison_some {t left rest : List Char} {op : Comparison}
    (split : splitComparison t = (left, some (op, rest))) :
    FirstComparison t left.length op ∧ t = left ++ (op.sign.toList ++ rest) := by
  obtain ⟨parts, found⟩ := splitComparison_run t
  rw [split] at parts found
  have after : t.drop left.length = afterRun startsNone t := by
    conv_lhs => rw [← parts]
    exact List.drop_left
  obtain ⟨sign, longest⟩ := read?_some found.symm
  refine ⟨⟨?_, ?_, fun j before => ?_⟩, ?_⟩
  · rw [after, sign]
    exact List.prefix_append _ _
  · rwa [after]
  · exact read?_none.mp (read?_before t (by rwa [split]))
  · rw [← sign, parts]

theorem sign_injective {op other : Comparison} (same : op.sign.toList = other.sign.toList) :
    op = other := by
  have read : ∀ c : Comparison, ofSign? c.sign = some c := by
    intro c
    cases c <;> rfl
  have signs : op.sign = other.sign := String.toList_inj.mp same
  exact Option.some.inj ((read op).symm.trans (signs ▸ read other))

namespace FirstComparison
variable {t : List Char} {i j : Nat} {op other : Comparison}

theorem unique (one : FirstComparison t i op) (two : FirstComparison t j other) :
    i = j ∧ op = other := by
  have place : i = j := by
    rcases Nat.lt_trichotomy i j with less | same | more
    · exact absurd one.occurs (two.first i less op)
    · exact same
    · exact absurd two.occurs (one.first j more other)
  subst place
  have lengths : op.sign.toList.length = other.sign.toList.length := by
    rw [← length_sign, ← length_sign]
    exact Nat.le_antisymm (two.longest op one.occurs) (one.longest other two.occurs)
  have signs : op.sign.toList <+: other.sign.toList :=
    List.prefix_of_prefix_length_le one.occurs two.occurs lengths.le
  exact ⟨rfl, sign_injective (signs.eq_of_length lengths)⟩

/-- A `=` or `!` is only found with a `=` after it. -/
theorem doubled (here : FirstComparison t i op) (lone : t[i]? = some '=' ∨ t[i]? = some '!') :
    t[i + 1]? = some '=' := by
  obtain ⟨rest, parts⟩ := here.occurs
  rw [← List.head?_drop, ← parts] at lone
  rw [← List.getElem?_drop, ← parts]
  cases op <;> simp [toList_sign] at lone ⊢

/-- A `<` or `>` is only found without a `=` after it. -/
theorem single (here : FirstComparison t i op) (angle : op = less ∨ op = greater) :
    t[i + 1]? ≠ some '=' := by
  intro next
  obtain ⟨rest, parts⟩ := here.occurs
  rw [← List.getElem?_drop, ← parts] at next
  have first : rest.head? = some '=' := by
    rcases angle with rfl | rfl <;> simpa [toList_sign, List.head?_eq_getElem?] using next
  obtain ⟨cs, rfl⟩ := List.head?_eq_some_iff.mp first
  rcases angle with rfl | rfl
  · exact absurd (here.longest atMost (parts ▸ ⟨cs, rfl⟩)) (by decide)
  · exact absurd (here.longest atLeast (parts ▸ ⟨cs, rfl⟩)) (by decide)

end FirstComparison

theorem infix_iff_drop {w t : List Char} : w <:+: t ↔ ∃ j, w <+: t.drop j := by
  constructor
  · rintro ⟨before, after, rfl⟩
    refine ⟨before.length, after, ?_⟩
    rw [List.append_assoc, List.drop_left]
  · rintro ⟨j, starts⟩
    exact starts.isInfix.trans (List.drop_suffix j t).isInfix

/-- Two signs need not be looked for, since `<=` and `>=` start with others. -/
theorem occurs_iff {t : List Char} : (∃ sign ∈ ["==", "!=", "<", ">"], sign.toList <:+: t) ↔
    ∃ j, ∃ op : Comparison, op.sign.toList <+: t.drop j := by
  constructor
  · rintro ⟨sign, listed, inside⟩
    obtain ⟨j, starts⟩ := infix_iff_drop.mp inside
    simp only [List.mem_cons, List.not_mem_nil, or_false] at listed
    rcases listed with rfl | rfl | rfl | rfl
    · exact ⟨j, .equal, starts⟩
    · exact ⟨j, .different, starts⟩
    · exact ⟨j, .less, starts⟩
    · exact ⟨j, .greater, starts⟩
  · rintro ⟨j, op, starts⟩
    have inside := infix_iff_drop.mpr ⟨j, starts⟩
    cases op with
    | equal => exact ⟨"==", by simp, inside⟩
    | different => exact ⟨"!=", by simp, inside⟩
    | less => exact ⟨"<", by simp, inside⟩
    | greater => exact ⟨">", by simp, inside⟩
    | atMost => exact ⟨"<", by simp, (List.prefix_append ['<'] ['=']).isInfix.trans inside⟩
    | atLeast => exact ⟨">", by simp, (List.prefix_append ['>'] ['=']).isInfix.trans inside⟩

namespace Condition

theorem parse_of_none {s left : List Char} (split : splitComparison (trim s) = (left, none)) :
    parse s = ⟨trim s, none⟩ := by
  obtain ⟨rfl, _⟩ := splitComparison_none split
  simp only [parse, split, trim_trim, Option.map_none]

theorem parse_of_first {s : List Char} {i : Nat} {op : Comparison}
    (here : FirstComparison (trim s) i op) :
    parse s = ⟨trim ((trim s).take i), some (op, trim ((trim s).drop (i + op.sign.length)))⟩ := by
  rcases split : splitComparison (trim s) with ⟨left, found⟩
  cases found with
  | none => exact absurd here.occurs ((splitComparison_none split).2 i op)
  | some pair =>
    obtain ⟨first, parts⟩ := splitComparison_some split
    obtain ⟨rfl, rfl⟩ := here.unique first
    rw [length_sign, ← List.drop_drop, parts, List.take_left, List.drop_left, List.drop_left]
    rw [parse, split]
    rfl

theorem parse_terminals (s : List Char) :
    ∃ left found, readTerminals (trim s) = some (left, found) ∧ (parse s).left = trim left ∧
      (parse s).right.map (fun (op, right) => (op.sign.toList, right)) =
        found.map fun (sign, right) => (sign, trim right) := by
  refine ⟨_, _, readTerminals_eq (trim s), rfl, ?_⟩
  simp only [parse, Option.map_map]
  rfl

end Condition

/-- A condition is read by the terminals of its grammar, which reject no text. It has no
comparison exactly when no sign occurs in it, and else is split at the first one. -/
theorem condition_splits_first (s : List Char) :
    (∃ left found, readTerminals (trim s) = some (left, found) ∧
      (Condition.parse s).left = trim left ∧
      (Condition.parse s).right.map (fun (op, right) => (op.sign.toList, right)) =
        found.map fun (sign, right) => (sign, trim right)) ∧
    ((Condition.parse s).right = none ∧ (Condition.parse s).left = trim s ↔
      ∀ sign ∈ ["==", "!=", "<", ">"], ¬ sign.toList <:+: trim s) ∧
    ((∃ sign ∈ ["==", "!=", "<", ">"], sign.toList <:+: trim s) →
      ∃ i op, FirstComparison (trim s) i op) ∧
    ∀ i op, FirstComparison (trim s) i op →
      Condition.parse s =
        ⟨trim ((trim s).take i), some (op, trim ((trim s).drop (i + op.sign.length)))⟩ ∧
      ((trim s)[i]? = some '=' ∨ (trim s)[i]? = some '!' → (trim s)[i + 1]? = some '=') ∧
      (op = .less ∨ op = .greater → (trim s)[i + 1]? ≠ some '=') := by
  have first : (∃ sign ∈ ["==", "!=", "<", ">"], sign.toList <:+: trim s) →
      ∃ i op, FirstComparison (trim s) i op := by
    intro occurs
    obtain ⟨j, op, starts⟩ := occurs_iff.mp occurs
    rcases split : splitComparison (trim s) with ⟨left, found⟩
    cases found with
    | none => exact absurd starts ((splitComparison_none split).2 j op)
    | some pair => exact ⟨_, _, (splitComparison_some split).1⟩
  refine ⟨Condition.parse_terminals s, ⟨?_, ?_⟩, first, ?_⟩
  · rintro ⟨none, _⟩ sign listed inside
    obtain ⟨i, op, here⟩ := first ⟨sign, listed, inside⟩
    rw [Condition.parse_of_first here] at none
    cases none
  · intro absent
    rcases split : splitComparison (trim s) with ⟨left, found⟩
    cases found with
    | none =>
      rw [Condition.parse_of_none split]
      exact ⟨rfl, rfl⟩
    | some pair =>
      obtain ⟨sign, listed, inside⟩ := occurs_iff.mpr ⟨_, _, (splitComparison_some split).1.occurs⟩
      exact absurd inside (absent sign listed)
  · intro i op here
    exact ⟨Condition.parse_of_first here, here.doubled, here.single⟩

end Primer
