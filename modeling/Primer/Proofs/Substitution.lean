import Primer.Proofs.Agreement
import Primer.Proofs.Scanning
import Primer.Proofs.Values

/-! Messages with variables in them. Parts of a message are expanded each on its own, unless
the cut goes through a name; a name gives its value and a single character itself. No other
function from messages to texts has these laws, so they say all that interpolation does. -/
namespace Primer

/-- A text ends in a dollar sign and word characters, so that more of them would belong to the
same name. -/
def EndsInName (m : List Char) : Prop :=
  ∃ before name, m = before ++ '$' :: name ∧ ∀ c ∈ name, isWordChar c = true

def IsWord (w : String) : Prop := w ≠ "" ∧ ∀ c ∈ w.toList, isWordChar c = true

structure InterpolationLaws (s : Scope) (f : String → String) : Prop where
  append : ∀ m₁ m₂, (EndsInName m₁.toList → Stops isWordChar m₂.toList) →
    f (m₁ ++ m₂) = f m₁ ++ f m₂
  /-- A text is put in as it is, whatever names it has in it. -/
  text : ∀ w t, IsWord w → s.get (.text w) = .text t → f ("$" ++ w) = t
  int : ∀ w n, IsWord w → s.get (.text w) = .int n → f ("$" ++ w) = toString n
  unbound : ∀ w, IsWord w → s.get (.text w) = .null → f ("$" ++ w) = "$" ++ w
  single : ∀ c, f (String.singleton c) = String.singleton c

/-- Every variable holds text or an integer that can be written. -/
def Scope.HoldsValues (s : Scope) : Prop := ∀ f ∈ s.frames, ∀ x ∈ f.values, x.2.value.IsValue

namespace Scope
variable {s : Scope}

/-- The scope without its functions, in which every name has the same value. -/
def bare (s : Scope) : Scope :=
  ⟨{ s.frame with functions := [] }, s.parents.map fun f => { f with functions := [] }⟩

theorem get_bare (s : Scope) (k : Key) : s.get k = s.bare.get k := by
  simp only [get, bare, frames, List.findSome?_cons, List.findSome?_map, Function.comp_def]

theorem bare_valid (values : s.HoldsValues) : s.bare.Valid := by
  obtain ⟨own, others⟩ := List.forall_mem_cons.mp values
  refine valid_cons.mpr ⟨⟨own, by simp⟩, fun f inside => ?_⟩
  obtain ⟨g, outer, rfl⟩ := List.mem_map.mp inside
  exact ⟨others g outer, by simp⟩

theorem get_value (values : s.HoldsValues) (k : Key) : s.get k = .null ∨ (s.get k).IsValue := by
  rw [get_bare]
  exact get_isValue (bare_valid values) k

theorem interpolate_total (values : s.HoldsValues) (message : String) :
    ∃ shown, s.interpolate message = .ok shown := by
  rw [interpolate_congr (get_bare s)]
  exact interpolate_ok (bare_valid values) message

end Scope

/-- A name has begun and a text only goes on with it, or a name begins at the text's end. -/
def Pending (name : Option (List Char)) (m : List Char) : Prop :=
  (name ≠ none ∧ ∀ c ∈ m, isWordChar c = true) ∨ EndsInName m

theorem EndsInName.cons {m : List Char} (c : Char) (ends : EndsInName m) : EndsInName (c :: m) := by
  obtain ⟨before, name, rfl, word⟩ := ends
  exact ⟨c :: before, name, rfl, word⟩

theorem Pending.dollar {m : List Char} (pending : Pending (some []) m) : EndsInName ('$' :: m) := by
  rcases pending with ⟨_, word⟩ | ends
  · exact ⟨[], m, rfl, word⟩
  · exact ends.cons '$'

theorem Pending.plain {m : List Char} (c : Char) (pending : Pending none m) : EndsInName (c :: m) := by
  rcases pending with ⟨begun, _⟩ | ends
  · exact absurd rfl begun
  · exact ends.cons c

namespace Scope
variable {s : Scope}

theorem expand_stops (name : List Char) {m : List Char} (stops : Stops isWordChar m) :
    s.expand (some name) m = do
      let value ← s.substitute name
      let rest ← s.expand none m
      return value ++ rest := by
  cases m with
  | nil => cases substituted : s.substitute name <;> simp [expand, substituted]
  | cons c m =>
    have solid := stops c rfl
    by_cases dollar : c = '$'
    · subst dollar
      simp [expand, solid]
    · simp [expand, solid, dollar]

/-- Two parts of a message are expanded one after the other. The state that the first part is
read in goes along. -/
theorem expand_append (name : Option (List Char)) (m₁ : List Char) {m₂ : List Char}
    (apart : Pending name m₁ → Stops isWordChar m₂) :
    s.expand name (m₁ ++ m₂) = do
      let first ← s.expand name m₁
      let second ← s.expand none m₂
      return first ++ second := by
  induction m₁ generalizing name with
  | nil =>
    cases name with
    | none => cases rest : s.expand none m₂ <;> simp [expand, rest]
    | some name => exact expand_stops name (apart (.inl ⟨Option.some_ne_none _, by simp⟩))
  | cons c m₁ ih =>
    by_cases dollar : c = '$'
    · subst dollar
      have later := ih (some []) fun pending => apart (.inr pending.dollar)
      have solid : isWordChar '$' = false := rfl
      cases name with
      | none => simpa [expand] using later
      | some name => simp [expand, solid, later]
    · have later := ih none fun pending => apart (.inr (pending.plain c))
      cases name with
      | none => simp [expand, dollar, later]
      | some name =>
        cases word : isWordChar c with
        | false => simp [expand, word, dollar, later]
        | true =>
          have longer := ih (some (name ++ [c])) fun pending => apart ?_
          · simpa [expand, word] using longer
          · rcases pending with ⟨_, rest⟩ | ends
            · exact .inl ⟨Option.some_ne_none _, List.forall_mem_cons.mpr ⟨word, rest⟩⟩
            · exact .inr (ends.cons c)

theorem expand_word (name : List Char) {w : List Char} (word : ∀ c ∈ w, isWordChar c = true) :
    s.expand (some name) w = s.substitute (name ++ w) := by
  induction w generalizing name with
  | nil => rw [List.append_nil, expand]
  | cons c w ih =>
    obtain ⟨first, others⟩ := List.forall_mem_cons.mp word
    rw [expand, if_pos first, ih _ others, List.append_assoc, List.singleton_append]

theorem interpolate_append {m₁ m₂ : String}
    (apart : EndsInName m₁.toList → Stops isWordChar m₂.toList) :
    s.interpolate (m₁ ++ m₂) = do
      let first ← s.interpolate m₁
      let second ← s.interpolate m₂
      return first ++ second := by
  have pending : Pending none m₁.toList → Stops isWordChar m₂.toList := by
    rintro (⟨begun, _⟩ | ends)
    · exact absurd rfl begun
    · exact apart ends
  simp [interpolate, expand_append none m₁.toList pending, String.ofList_append]

theorem interpolate_name {w : String} (word : IsWord w) :
    s.interpolate ("$" ++ w) = match s.get (.text w) with
      | .null => .ok ("$" ++ w)
      | value => value.display := by
  have nonempty : w.toList.isEmpty = false := by simpa using word.1
  have dollar : ("$" ++ w).toList = '$' :: w.toList := by simp
  have shown : ∀ r : Except Fault String, (do
      let chars ← (do return (← r).toList : Except Fault (List Char))
      return String.ofList chars) = r := by
    intro r
    cases r <;> simp
  rw [interpolate, dollar, expand, if_pos rfl, expand_word [] word.2, List.nil_append, substitute,
    nonempty, String.ofList_toList]
  cases s.get (.text w) with
  | null => exact congrArg Except.ok (by rw [← dollar, String.ofList_toList])
  | _ => exact shown _

theorem interpolate_single (c : Char) :
    s.interpolate (String.singleton c) = .ok (String.singleton c) := by
  by_cases dollar : c = '$'
  · subst dollar
    rfl
  · simp [interpolate, expand, dollar]

end Scope

namespace InterpolationLaws
variable {s : Scope} {f g : String → String}

theorem empty (laws : InterpolationLaws s f) : f "" = "" := by
  have twice : f "" = f "" ++ f "" := laws.append "" "" fun _ => stops_nil
  have chars := congrArg String.toList twice
  rw [String.toList_append, List.self_eq_append_right] at chars
  exact String.toList_inj.mp chars

theorem cut (laws : InterpolationLaws s f) {m₁ m₂ : List Char}
    (apart : EndsInName m₁ → Stops isWordChar m₂) :
    f (String.ofList (m₁ ++ m₂)) = f (String.ofList m₁) ++ f (String.ofList m₂) := by
  rw [String.ofList_append]
  exact laws.append _ _ (by simpa only [String.toList_ofList] using apart)

section Unique
variable (values : s.HoldsValues) (laws : InterpolationLaws s f) (also : InterpolationLaws s g)
include values laws also

theorem agree_name {w : String} (word : IsWord w) : f ("$" ++ w) = g ("$" ++ w) := by
  have known := Scope.get_value values (.text w)
  cases held : s.get (.text w) with
  | null => rw [laws.unbound w word held, also.unbound w word held]
  | text t => rw [laws.text w t word held, also.text w t word held]
  | int n => rw [laws.int w n word held, also.int w n word held]
  | _ =>
    rw [held] at known
    rcases known with none | value
    · cases none
    · cases value

theorem agree_reference {w : List Char} (word : ∀ c ∈ w, isWordChar c = true) :
    f (String.ofList ('$' :: w)) = g (String.ofList ('$' :: w)) := by
  cases w with
  | nil => exact (laws.single '$').trans (also.single '$').symm
  | cons c w =>
    have named : IsWord (String.ofList (c :: w)) := ⟨by simp, by simpa using word⟩
    have dollar : String.ofList ('$' :: c :: w) = "$" ++ String.ofList (c :: w) :=
      String.toList_inj.mp (by simp)
    rw [dollar]
    exact agree_name values laws also named

/-- A message falls apart into references and single characters, and the laws give each part. -/
theorem agree (m : List Char) : f (String.ofList m) = g (String.ofList m) := by
  match m with
  | [] => exact laws.empty.trans also.empty.symm
  | c :: m =>
    by_cases dollar : c = '$'
    · subst dollar
      have parts : '$' :: m = ('$' :: m.takeWhile isWordChar) ++ m.dropWhile isWordChar := by
        rw [List.cons_append, List.takeWhile_append_dropWhile]
      have apart : EndsInName ('$' :: m.takeWhile isWordChar) →
          Stops isWordChar (m.dropWhile isWordChar) := fun _ => stops_dropWhile isWordChar m
      have word : ∀ c ∈ m.takeWhile isWordChar, isWordChar c = true := by
        intro c inside
        exact List.mem_takeWhile_imp inside
      rw [parts, laws.cut apart, also.cut apart, agree_reference values laws also word,
        agree (m.dropWhile isWordChar)]
    · have apart : EndsInName [c] → Stops isWordChar m := by
        rintro ⟨before, name, parts, _⟩
        cases before with
        | nil => exact absurd (List.cons.inj parts).1 dollar
        | cons x before => simp at parts
      rw [← List.singleton_append, laws.cut apart, also.cut apart, agree m]
      exact congrArg (· ++ _) ((laws.single c).trans (also.single c).symm)
termination_by m.length
decreasing_by
  · exact Nat.lt_succ_of_le (List.length_dropWhile_le isWordChar m)
  · exact Nat.lt_succ_self m.length

end Unique

end InterpolationLaws

/-- Interpolation always gives a text. It has the three laws, and nothing else has them. -/
theorem interpolation_determined {s : Scope} (values : s.HoldsValues) :
    ∃ f : String → String, (∀ m, s.interpolate m = .ok (f m)) ∧ InterpolationLaws s f ∧
      ∀ g, InterpolationLaws s g → g = f := by
  choose f shown using Scope.interpolate_total values
  have laws : InterpolationLaws s f := by
    refine ⟨fun m₁ m₂ apart => ?_, fun w t word held => ?_, fun w n word held => ?_,
      fun w word held => ?_, fun c => ?_⟩
    · have parts := Scope.interpolate_append (s := s) apart
      rw [shown, shown, shown] at parts
      exact Except.ok.inj parts
    · have named := Scope.interpolate_name (s := s) word
      rw [shown, held] at named
      exact Except.ok.inj named
    · have known := Scope.get_value values (.text w)
      have named := Scope.interpolate_name (s := s) word
      rw [held] at known
      have small : n.natAbs < tenTo digitLimit := known.resolve_left nofun
      simp only [shown, held, Datum.display, Datum.inspect, writeWhole_ok small] at named
      exact Except.ok.inj named
    · have named := Scope.interpolate_name (s := s) word
      rw [shown, held] at named
      exact Except.ok.inj named
    · exact Except.ok.inj ((shown _).symm.trans (Scope.interpolate_single c))
  refine ⟨f, shown, laws, fun g also => ?_⟩
  funext m
  simpa only [String.ofList_toList] using InterpolationLaws.agree values also laws m.toList

/-- The value of one variable looks like a reference to another one of the scope around. -/
def nestedNames : Scope :=
  ((Scope.root.set (.text "y") (.int (-7))).child).set (.text "x") (.text "$y")

theorem interpolation_determined_nestedNames : nestedNames.HoldsValues ∧
    ∃ f : String → String, (∀ m, nestedNames.interpolate m = .ok (f m)) ∧
      InterpolationLaws nestedNames f ∧ ∀ g, InterpolationLaws nestedNames g → g = f := by
  have small : (Datum.int (-7)).IsValue := show 7 < tenTo digitLimit by decide +kernel
  have values : nestedNames.HoldsValues := by
    refine List.forall_mem_cons.mpr ⟨?_, List.forall_mem_singleton.mpr ?_⟩
    · exact List.forall_mem_singleton.mpr trivial
    · exact List.forall_mem_singleton.mpr small
  exact ⟨values, interpolation_determined values⟩

example : (nestedNames.interpolate "$x$y, $$x.$é$xy").toOption = some "$y-7, $$y.$é$xy" := by
  decide +kernel

end Primer
