import Primer.Proofs.Failures
import Primer.Proofs.Offsets
import Primer.Proofs.Verbosity

/-! Tracing does not interfere with a run. Every message of a program that was read can be
written, since its values are numbers that were read or text and its offsets lie in the
source. So a run that traces less is the run that traces more without the messages of the
higher levels, and the level of a message shows in its first words. -/
namespace Primer

open Outcome Node

namespace Outcome
variable {i : Nat}

theorem upTo_andThen {o p : Outcome} {next next' : Scope → Outcome} (first : p.upTo i = o)
    (rest : p.failure = none → (next' p.scope).upTo i = next p.scope) :
    (p.andThen next').upTo i = o.andThen next := by
  subst first
  cases ended : p.failure with
  | some f => simp only [andThen, upTo, ended]
  | none => simp only [andThen, upTo, ended, ← rest ended, List.filter_append]

/-- A message that can be written is shown or left out, and nothing else changes. -/
theorem upTo_traced {j : Nat} (le : i ≤ j) (level : Nat) {text : Unit → Except Fault String}
    {shown : String} (written : text () = .ok shown) (s : Scope) :
    (traced j level text s).upTo i = traced i level text s := by
  by_cases low : level ≤ i
  · simp [traced, written, attempt, upTo, Event.shows, low, low.trans le]
  · by_cases high : level ≤ j
    · simp [traced, written, attempt, upTo, Event.shows, low, high, done]
    · simp [traced, upTo, low, high, done]

theorem upTo_leave {o p : Outcome} (same : p.upTo i = o) : p.leave.upTo i = o.leave :=
  congrArg Outcome.leave same

theorem upTo_stamp (o : Outcome) (offset : Datum) :
    (o.stamp offset).upTo i = (o.upTo i).stamp offset := by
  unfold stamp
  simp only [upTo]
  split <;> simp_all

end Outcome

/-- A tree whose statements can all be traced. -/
def Node.Traceable (node : Node) : Prop := ∀ n ∈ node.nodes, ∃ shown, executeText n = .ok shown

theorem declare_traceable (name value : Datum) : (Node.declare name value .null).Traceable := by
  intro n inside
  cases List.mem_singleton.mp inside
  exact ⟨_, rfl⟩

/-- A scope whose values can be written and whose functions can be traced. -/
structure Scope.Traceable (s : Scope) : Prop where
  valid : s.Valid
  functions : ∀ f ∈ s.frames, ∀ x ∈ f.functions, x.2.body.Traceable

namespace Scope.Traceable
variable {s : Scope} (traceable : s.Traceable)
include traceable

theorem child : s.child.Traceable :=
  ⟨valid_child traceable.valid, List.forall_mem_cons.mpr ⟨nofun, traceable.functions⟩⟩

theorem leave : s.leave.Traceable := by
  refine ⟨valid_leave traceable.valid, ?_⟩
  obtain ⟨f, parents⟩ := s
  cases parents with
  | nil => exact traceable.functions
  | cons g parents => exact (List.forall_mem_cons.mp traceable.functions).2

theorem set {k : Key} {v name : Datum} (valid : (s.set k v name).Valid) :
    (s.set k v name).Traceable := by
  obtain ⟨own, others⟩ := List.forall_mem_cons.mp traceable.functions
  exact ⟨valid, List.forall_mem_cons.mpr ⟨own, others⟩⟩

theorem body {k : Key} {d : Definition} (found : s.function? k = some d) : d.body.Traceable := by
  obtain ⟨f, inside, here⟩ := List.exists_of_findSome?_eq_some found
  exact traceable.functions f inside _ (Table.mem_of_find? here)

end Scope.Traceable

theorem Node.Traceable.of_runs {node inner : Node} {s : Scope} (shown : node.Traceable)
    (traceable : s.Traceable) (runs : node.Runs s inner) : inner.Traceable := by
  cases runs with
  | statement member =>
    exact fun n inside => shown n (List.mem_cons_of_mem _ (mem_nodesIn.mpr ⟨inner, member, inside⟩))
  | round => exact fun n inside => shown n (List.mem_cons_of_mem _ inside)
  | yes => exact fun n inside => shown n (nodes_yes inside _ _ _)
  | no present => exact fun n inside => shown n (nodes_no present inside _ _ _)
  | body _ found => exact traceable.body found
  | parameter => exact declare_traceable _ _

/-- An outcome at a lower level of verbosity is the part that shows at it. -/
theorem upTo_congruence {i j : Nat} (le : i ≤ j) :
    Congruence j i (fun n => n.Runnable ∧ n.Traceable) (fun n => n.Runnable ∧ n.Traceable)
      Scope.Traceable (fun _ o p => o.upTo i = p ∧ o.scope.Traceable) where
  runs kept traceable runs :=
    ⟨kept.1.of_runs traceable.valid runs, kept.2.of_runs traceable runs⟩
  child := .child
  done traceable := ⟨rfl, traceable⟩
  fail _ _ _ within := ⟨rfl, within⟩
  say _ traceable := ⟨rfl, traceable⟩
  set kept traceable binds :=
    ⟨rfl, traceable.set ((valid_invariant 0).set kept.1 traceable.valid binds)⟩
  executes {n s} kept traceable := by
    obtain ⟨_, text⟩ := kept.2 n (self_mem_nodes n)
    refine ⟨upTo_traced le 1 text s, ?_⟩
    rw [scope_traced]
    exact traceable
  traces {_ _ t _ _} kept traceable traces within := by
    obtain ⟨_, text⟩ := kept.1.traces_ok traceable.valid traces
    refine ⟨upTo_traced le _ text t, ?_⟩
    rw [scope_traced]
    exact within
  ends := by
    rintro _ o _ ⟨rfl, traceable⟩ - -
    exact ⟨rfl, traceable⟩
  andThen {_ o p _ _} first rest := by
    obtain ⟨rfl, traceable⟩ := first
    refine ⟨upTo_andThen rfl fun ended => (rest ended ended).1, ?_⟩
    unfold andThen
    cases ended : o.failure with
    | some f => exact traceable
    | none => exact (rest ended ended).2
  leave _ inside := ⟨upTo_leave inside.1, inside.2.leave⟩
  stamp {_ o _} offset kept := by
    obtain ⟨rfl, traceable⟩ := kept
    refine ⟨upTo_stamp o offset, ?_⟩
    rw [scope_stamp]
    exact traceable

theorem runAll_upTo {i j : Nat} (le : i ≤ j) (limit : Nat) {nodes : List Node}
    (formed : ∀ n ∈ nodes, n.WellFormed) (shown : ∀ n ∈ nodes, n.Traceable) {s : Scope}
    (traceable : s.Traceable) :
    (runAll (execute j limit) nodes s).upTo i = runAll (execute i limit) nodes s := by
  have nested := execute_congruence (upTo_congruence le) (fun _ within => ⟨rfl, within⟩) limit
  exact (runAll_congruence (upTo_congruence le) nested traceable
    fun n member => ⟨.statement (formed n member), shown n member⟩).1

/-- The words that messages start with, and the level that each belongs to. -/
def messageLevels : List (String × Nat) :=
  [("execute", 1), ("call", 2), ("set", 2), ("declare", 2), ("if condition", 3)]

def levelOf? (message : String) : Option Nat :=
  (messageLevels.find? fun entry => (entry.1 ++ " ").toList.isPrefixOf message.toList).map Prod.snd

theorem levelOf?_word {word : String} {level : Nat} (listed : (word, level) ∈ messageLevels)
    (rest : String) : levelOf? (word ++ " " ++ rest) = some level := by
  simp only [messageLevels, List.mem_cons, List.not_mem_nil, or_false, Prod.mk.injEq] at listed
  rcases listed with ⟨rfl, rfl⟩ | ⟨rfl, rfl⟩ | ⟨rfl, rfl⟩ | ⟨rfl, rfl⟩ | ⟨rfl, rfl⟩
  all_goals simp [levelOf?, messageLevels, String.toList_append]

theorem levelOf?_pos {message : String} {level : Nat} (found : levelOf? message = some level) :
    0 < level := by
  obtain ⟨entry, listed, rfl⟩ := Option.map_eq_some_iff.mp found
  have positive : ∀ entry ∈ messageLevels, 0 < entry.2 := by decide
  exact positive entry (List.mem_of_find?_eq_some listed)

/-- An event that is a line, or a message with the words of its level. -/
def Event.Leveled : Event → Prop
  | .line _ => True
  | .trace level text => levelOf? text = some level

namespace Outcome

def Leveled (o : Outcome) : Prop := ∀ e ∈ o.events, e.Leveled

theorem leveled_of_silent {o : Outcome} (silent : o.events = []) : o.Leveled := by
  rw [Leveled, silent]
  nofun

theorem leveled_traced (verbosity : Nat) {level : Nat} {text : Unit → Except Fault String}
    (worded : ∀ shown, text () = .ok shown → levelOf? shown = some level) (s : Scope) :
    (traced verbosity level text s).Leveled := by
  unfold traced
  split
  · cases written : text () with
    | error f => exact leveled_of_silent rfl
    | ok shown =>
      intro e inside
      cases List.mem_singleton.mp inside
      exact worded shown written
  · exact leveled_of_silent rfl

theorem Leveled.stamp {o : Outcome} (leveled : o.Leveled) (offset : Datum) :
    (o.stamp offset).Leveled := by
  unfold Outcome.stamp
  split <;> exact leveled

end Outcome

section Words
variable {shown : String}

theorem executeText_level {node : Node} (written : executeText node = .ok shown) :
    levelOf? shown = some 1 := by
  obtain ⟨place, _, done⟩ := bind_eq_ok.mp written
  cases done
  have listed : ("execute", 1) ∈ messageLevels := by decide
  have worded := levelOf?_word listed (node.kind ++ " at offset " ++ place)
  simpa [String.append_assoc] using worded

theorem bindingText_level {verb : String} (listed : (verb, 2) ∈ messageLevels) {name value : Datum}
    (written : bindingText verb name value = .ok shown) : levelOf? shown = some 2 := by
  obtain ⟨named, _, written⟩ := bind_eq_ok.mp written
  obtain ⟨valued, _, done⟩ := bind_eq_ok.mp written
  cases done
  have worded := levelOf?_word listed (named ++ ": " ++ value.typeName ++ " = " ++ valued)
  simpa [String.append_assoc] using worded

theorem callText_level {name : Datum} {args : List Datum}
    (written : callText name args = .ok shown) : levelOf? shown = some 2 := by
  obtain ⟨named, _, written⟩ := bind_eq_ok.mp written
  obtain ⟨texts, _, done⟩ := bind_eq_ok.mp written
  cases done
  have listed : ("call", 2) ∈ messageLevels := by decide
  have worded := levelOf?_word listed (named ++ "(" ++ ", ".intercalate texts ++ ")")
  simpa [String.append_assoc] using worded

theorem testText_level {condition : Datum} {truth : Bool}
    (written : testText condition truth = .ok shown) : levelOf? shown = some 3 := by
  obtain ⟨tested, _, done⟩ := bind_eq_ok.mp written
  cases done
  have listed : ("if condition", 3) ∈ messageLevels := by decide
  have worded := levelOf?_word listed (tested ++ " -> " ++ if truth then "True" else "False")
  simpa [String.append_assoc] using worded

end Words

theorem Node.Traces.level {node : Node} {s : Scope} {level : Nat} {text : Except Fault String}
    (traces : node.Traces s level text) {shown : String} (written : text = .ok shown) :
    levelOf? shown = some level := by
  cases traces with
  | call => exact callText_level written
  | test => exact testText_level written
  | declare | assign => exact bindingText_level (by decide) written

theorem leveled_invariant (verbosity : Nat) :
    Invariant verbosity (fun _ => True) (fun _ => True) (fun _ => True) (fun _ o => o.Leveled) where
  runs _ _ _ := trivial
  child _ := trivial
  done _ := leveled_of_silent rfl
  fail _ _ _ _ := leveled_of_silent rfl
  say _ _ := by
    intro e inside
    cases List.mem_singleton.mp inside
    exact trivial
  set _ _ _ := leveled_of_silent rfl
  executes {_ s} _ _ := leveled_traced verbosity (fun _ => executeText_level) s
  traces {_ _ t _ _} _ _ traces _ := leveled_traced verbosity (fun _ => traces.level) t
  ends _ _ := trivial
  andThen {_ o _} first rest := by
    unfold andThen
    cases ended : o.failure with
    | some f => exact first
    | none => exact List.forall_mem_append.mpr ⟨first, rest ended⟩
  leave _ inside := inside
  stamp offset leveled := leveled.stamp offset

theorem runAll_leveled (verbosity limit : Nat) (nodes : List Node) (s : Scope) :
    (runAll (execute verbosity limit) nodes s).Leveled := by
  have inv := leveled_invariant verbosity
  have nested := execute_invariant inv (fun _ _ => leveled_of_silent rfl) limit
  exact runAll_invariant inv nested trivial fun _ _ => trivial

/-- What the run that traces up to a level shares with a run that traces more. -/
structure Run.Echoes (level : Nat) (quiet loud : Run) : Prop where
  lines : quiet.lines = loud.lines
  globals : quiet.globals = loud.globals
  failure : quiet.failure = loud.failure
  messages : quiet.messages = loud.messages.filter fun m => (levelOf? m).any (· ≤ level)
  silent : level = 0 → quiet.messages = []

theorem lines_filter (i : Nat) (events : List Event) :
    ((events.filter (Event.shows i)).filterMap fun | .line text => some text | .trace .. => none) =
      events.filterMap fun | .line text => some text | .trace .. => none := by
  rw [List.filterMap_filter]
  apply List.filterMap_congr
  intro e _
  cases e with
  | line text => rfl
  | trace level text => simp

theorem messages_filter (i : Nat) {events : List Event} (leveled : ∀ e ∈ events, e.Leveled) :
    ((events.filter (Event.shows i)).filterMap fun | .line _ => none | .trace _ text => some text) =
      (events.filterMap fun | .line _ => none | .trace _ text => some text).filter
        fun m => (levelOf? m).any (· ≤ i) := by
  rw [List.filterMap_filter, List.filter_filterMap]
  apply List.filterMap_congr
  intro e inside
  cases e with
  | line text => rfl
  | trace level text =>
    have known : levelOf? text = some level := leveled _ inside
    simp [Event.shows, Option.filter, known]

theorem Run.echoes {i : Nat} {quiet loud : Run} (same : loud.outcome.upTo i = quiet.outcome)
    (leveled : loud.outcome.Leveled) : quiet.Echoes i loud := by
  have events : quiet.events = loud.events.filter (Event.shows i) := congrArg Outcome.events same.symm
  have messages : quiet.messages = loud.messages.filter fun m => (levelOf? m).any (· ≤ i) := by
    rw [Run.messages, events]
    exact messages_filter i leveled
  refine ⟨?_, (congrArg Outcome.scope same).symm, (congrArg Outcome.failure same).symm, messages, ?_⟩
  · rw [Run.lines, events]
    exact lines_filter i loud.events
  · rintro rfl
    rw [messages]
    apply List.filter_eq_nil_iff.mpr
    intro m _
    cases found : levelOf? m with
    | none => simp
    | some level =>
      have positive := levelOf?_pos found
      simpa using Nat.ne_of_gt positive

theorem executeText_ok {node : Node} {o : Nat} (place : node.offset = atOffset o)
    (small : o < tenTo digitLimit) : ∃ shown, executeText node = .ok shown := by
  have written : node.offset.display = .ok (toString (o : Int)) := by
    rw [place]
    exact (Datum.display_int o).trans (writeWhole_ok small)
  exact ⟨_, by rw [executeText, written]; rfl⟩

/-- The functions of a program can be traced if its nodes can. -/
theorem globalScope_traceable {body : List Node} (formed : ∀ n ∈ body, n.WellFormed)
    (shown : ∀ n ∈ nodesIn body, ∃ text, executeText n = .ok text) {functions : Table Definition}
    (table : functionTable body = .ok functions) : (globalScope functions).Traceable := by
  refine ⟨globalScope_valid formed table, ?_⟩
  intro f frame x entry n inside
  cases List.mem_singleton.mp frame
  rcases mem_functionTable table x entry with defined | old
  · have member : x.2.node ∈ nodesIn body := (mem_definitionsIn_iff x.2 body).mp defined
    have nested : n ∈ x.2.node.nodes := List.mem_cons_of_mem _ inside
    exact shown n (nodesIn_trans nested body member)
  · cases old

/-- A run that traces less says the same, leaves the same variables and ends the same way,
and its trace is the part of the other one that belongs to its level. Only a source of more
than `tenTo digitLimit` characters has an offset that cannot be written. -/
theorem tracing_noninterference {source : List Char} {program : Node}
    (accepted : parse source = .ok program) {i j : Nat} (le : i ≤ j) (limit : Nat) :
    (runSource i limit source).Echoes i (runSource j limit source) ∨
      tenTo digitLimit < source.length ∧ (runSource j limit source).outcome.Faulted := by
  obtain ⟨body, functions, rfl, formed, table, _, loud⟩ := runSource_accepted accepted j limit
  have quiet : (runSource i limit source).outcome =
      runAll (execute i limit) body (globalScope functions) := by
    simp only [runSource, accepted, runNode, table]
  have leveled : (runSource j limit source).outcome.Leveled := by
    rw [loud]
    exact runAll_leveled j limit body (globalScope functions)
  rcases Nat.lt_or_ge (tenTo digitLimit) source.length with long | fits
  · rcases runAll_quiets le limit body (globalScope functions) with same | faulted
    · left
      apply Run.echoes _ leveled
      rw [loud, quiet, same]
    · exact .inr ⟨long, loud ▸ faulted⟩
  · have shown : ∀ n ∈ nodesIn body, ∃ text, executeText n = .ok text := by
      intro n inside
      obtain ⟨o, place, -, before⟩ := (parse_ascending accepted).mem inside
      exact executeText_ok place (before.trans_le fits)
    left
    apply Run.echoes _ leveled
    rw [loud, quiet]
    apply runAll_upTo le limit formed
    · intro statement member n inside
      exact shown n (mem_nodesIn.mpr ⟨statement, member, inside⟩)
    · exact globalScope_traceable formed shown table

/-- A program whose messages are of all levels, and which then fails. -/
def tracedSample : List Char :=
  ("set x = 3\nfunction f(n) \x7b\n say $n\n if n > 2 \x7bset x = 4\x7d\n\x7d\n" ++
    "call f(x)\ndivide(1, 0)").toList

theorem tracing_noninterference_tracedSample : ∃ program, parse tracedSample = .ok program ∧
    (runSource 1 nestingLimit tracedSample).Echoes 1 (runSource 3 nestingLimit tracedSample) := by
  obtain ⟨body, accepted⟩ := parse_of_isOk (show (parse tracedSample).isOk = true by decide +kernel)
  refine ⟨_, accepted, ?_⟩
  have length : tracedSample.length ≤ tenTo 3 := by decide +kernel
  have short := length.trans (tenTo_mono (show 3 ≤ digitLimit by decide))
  have le : 1 ≤ 3 := by decide
  have echoes := tracing_noninterference accepted le nestingLimit
  exact echoes.resolve_right fun long => Nat.not_lt.mpr short long.1

end Primer
