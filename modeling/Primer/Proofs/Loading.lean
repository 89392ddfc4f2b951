import Primer.CommandLine
import Primer.Proofs.Parameters
import Primer.Proofs.Octets
import Primer.Proofs.Storage

/-! What can go wrong when stored data is loaded. A record is looked at in a fixed order: the
fields of its node, the numbers in them and the nodes nested in it. Main statement: loading gives
a tree or a refusal, which the command reports, unless it comes to an infinite number where a
whole one is needed; then the fault is no refusal, and it ends the command. -/
namespace Primer

/-- A list fails at its first member that fails. -/
theorem mapM_eq_error {g : α → Except ε β} {xs : List α} {e : ε} :
    xs.mapM g = .error e ↔ ∃ before x after, xs = before ++ x :: after ∧
      (∀ y ∈ before, ∃ b, g y = .ok b) ∧ g x = .error e := by
  induction xs with
  | nil => simp
  | cons first xs ih =>
    rw [List.mapM_cons]
    constructor
    · intro failed
      rcases bind_eq_error.mp failed with here | ⟨b, passed, failed⟩
      · exact ⟨[], first, xs, rfl, by simp, here⟩
      · rcases bind_eq_error.mp failed with later | ⟨_, _, done⟩
        · obtain ⟨before, x, after, rfl, others, stops⟩ := ih.mp later
          exact ⟨first :: before, x, after, rfl,
            List.forall_mem_cons.mpr ⟨⟨b, passed⟩, others⟩, stops⟩
        · cases done
    · rintro ⟨before, x, after, split, passed, stops⟩
      cases before with
      | nil =>
        cases split
        rw [stops]
        rfl
      | cons _ before =>
        cases split
        obtain ⟨⟨b, here⟩, others⟩ := List.forall_mem_cons.mp passed
        rw [here, ok_bind, ih.mpr ⟨before, x, after, rfl, others, stops⟩]
        rfl

/-- The faults that stored data is refused with: data of a wrong sort, a value that is none of
those known, and a missing field. -/
def Fault.IsRefusal (f : Fault) : Prop := f.family = .sort ∨ f.family = .value ∨ f.family = .field

/-- Reading a datum as a whole number is refused, or the datum is infinite. -/
theorem Datum.whole_error {d : Datum} {f : Fault} (failed : d.whole = .error f) :
    f.IsRefusal ∨ f = .infiniteNumber ∧ ∃ negative, d = .float (.infinite negative) := by
  cases d with
  | float x =>
    cases x with
    | nan label =>
      cases failed
      exact .inl (.inr (.inl rfl))
    | infinite negative =>
      cases failed
      exact .inr ⟨rfl, negative, rfl⟩
    | finite negative m e => cases failed
  | text s =>
    left
    simp only [whole, readLoose] at failed
    split at failed
    · cases failed
      exact .inr (.inl rfl)
    · split at failed
      · cases failed
        exact .inr (.inl rfl)
      · split at failed
        · cases failed
          exact .inr (.inl rfl)
        · cases failed
  | bool | int => cases failed
  | null | list | record =>
    cases failed
    exact .inl (.inl rfl)

theorem Datum.items_error {d : Datum} {f : Fault} (failed : d.items = .error f) : f.IsRefusal := by
  cases d with
  | list | text | record => cases failed
  | null | bool | int | float =>
    cases failed
    exact .inl rfl

theorem Datum.key_error {d : Datum} {f : Fault} (failed : d.key = .error f) : f.IsRefusal := by
  cases d with
  | null | bool | int | float | text => cases failed
  | list | record =>
    cases failed
    exact .inl rfl

theorem functionTable_error {body : List Node} {f : Fault}
    (failed : functionTable body = .error f) : f.IsRefusal := by
  have entering : ∀ (ds : List Definition) (t : Table Definition),
      ds.foldlM (fun t d => do return t.insert (← d.name.key) d) t = .error f → f.IsRefusal := by
    intro ds
    induction ds with
    | nil =>
      intro t failed
      cases failed
    | cons d ds ih =>
      intro t failed
      rw [List.foldlM_cons] at failed
      rcases bind_eq_error.mp failed with here | ⟨_, _, later⟩
      · rcases bind_eq_error.mp here with unnamed | ⟨_, _, done⟩
        · exact Datum.key_error unnamed
        · cases done
      · exact ih _ later
  exact entering _ _ failed

namespace Node

theorem readOperator_error {d : Datum} {f : Fault} (failed : readOperator d = .error f) :
    f.IsRefusal := by
  unfold readOperator at failed
  split at failed
  · split at failed
    · cases failed
    · cases failed
      exact .inr (.inl rfl)
  · rcases bind_eq_error.mp failed with unshown | ⟨_, _, thrown⟩
    · cases inspect_error _ f unshown
      exact .inr (.inl rfl)
    · cases thrown
      exact .inr (.inl rfl)

/-- Loading a list of nodes is loading each of them. -/
theorem loadAll_eq_mapM (ds : List Datum) : loadAll ds = ds.mapM load := by
  induction ds with
  | nil => rfl
  | cons d ds ih =>
    rw [loadAll, List.mapM_cons, ih]

section Records
variable (fields : List (String × Datum))

theorem lookup_loadFields (name : String) :
    (loadFields fields).lookup name =
      (fields.lookup name).map fun d => ⟨d, load d, loadMembers d⟩ := by
  induction fields with
  | nil => rfl
  | cons field fields ih =>
    obtain ⟨other, d⟩ := field
    simp only [loadFields, List.lookup_cons, ih]
    split <;> rfl

variable {fields}

theorem need_eq_ok {name : String} {field : Field} :
    need (loadFields fields) name = .ok field ↔
      ∃ d, fields.lookup name = some d ∧ field = ⟨d, load d, loadMembers d⟩ := by
  rw [need, lookup_loadFields]
  cases fields.lookup name with
  | none => simp
  | some d => simp [eq_comm]

theorem need_found {name : String} {d : Datum} (found : fields.lookup name = some d) :
    need (loadFields fields) name = .ok ⟨d, load d, loadMembers d⟩ :=
  need_eq_ok.mpr ⟨d, found, rfl⟩

theorem need_error {name : String} {f : Fault} (failed : need (loadFields fields) name = .error f) :
    f.IsRefusal := by
  unfold need at failed
  split at failed
  · cases failed
  · cases failed
    exact .inr (.inr rfl)

/-- A record is that of a node of a kind. -/
def HasKind (fields : List (String × Datum)) (kind : String) : Prop :=
  fields.lookup "type" = some (.text kind)

theorem hasKind_iff {kind : String} :
    HasKind fields kind ↔ dataOr (loadFields fields) "type" = .text kind := by
  rw [HasKind, dataOr, lookup_loadFields]
  cases fields.lookup "type" with
  | none => simp
  | some d => simp

end Records

/-- Loading a record comes to read a datum in it as a whole number. -/
inductive ReadsNumber (fields : List (String × Datum)) : Datum → Prop
  | count {d : Datum} : HasKind fields "Repeat" → fields.lookup "count" = some d →
      ReadsNumber fields d
  | operand {name operands d : Datum} {op : Operator} {before after : List Datum} :
      HasKind fields "MathOp" → fields.lookup "operator" = some name → readOperator name = .ok op →
      fields.lookup "operands" = some operands → operands.items = .ok (before ++ d :: after) →
      (∀ e ∈ before, ∃ n, e.whole = .ok n) → ReadsNumber fields d

/-- Loading a record comes to load a datum in it: what is looked at before is as it should be. -/
inductive LoadsInner (fields : List (String × Datum)) : Datum → Prop
  | statement {kind name : String} {d : Datum} {before after : List Datum} :
      (kind, name) ∈ [("Program", "body"), ("Block", "statements")] → HasKind fields kind →
      fields.lookup name = some (.list (before ++ d :: after)) →
      (∀ e ∈ before, ∃ n, load e = .ok n) → LoadsInner fields d
  | round {count d : Datum} {n : Int} : HasKind fields "Repeat" →
      fields.lookup "count" = some count → count.whole = .ok n → fields.lookup "body" = some d →
      LoadsInner fields d
  | body {name params d : Datum} {items : List Datum} : HasKind fields "FunctionDef" →
      fields.lookup "name" = some name → fields.lookup "parameters" = some params →
      params.items = .ok items → fields.lookup "body" = some d → LoadsInner fields d
  | yes {condition d : Datum} : HasKind fields "If" → fields.lookup "condition" = some condition →
      fields.lookup "then_branch" = some d → LoadsInner fields d
  | no {condition yes d : Datum} {node : Node} : HasKind fields "If" →
      fields.lookup "condition" = some condition → fields.lookup "then_branch" = some yes →
      load yes = .ok node → fields.lookup "else_branch" = some d → LoadsInner fields d

/-- Loading a datum comes to an infinite number where a whole one is needed. -/
inductive MeetsInfinity : Datum → Prop
  | here {fields : List (String × Datum)} {negative : Bool} :
      ReadsNumber fields (.float (.infinite negative)) → MeetsInfinity (.record fields)
  | inside {fields : List (String × Datum)} {d : Datum} : LoadsInner fields d → MeetsInfinity d →
      MeetsInfinity (.record fields)

section Steps
variable {fields : List (String × Datum)} {d : Datum} {f : Fault}

theorem load_of_number (reads : ReadsNumber fields d) (failed : d.whole = .error f) :
    load (.record fields) = .error f := by
  cases reads with
  | count kind found =>
    simp only [load, assemble, hasKind_iff.mp kind, need_found found, ok_bind, failed, error_bind]
  | @operand _ _ _ _ before after kind named read listed split passed =>
    have stops := mapM_eq_error.mpr ⟨before, d, after, rfl, passed, failed⟩
    simp only [load, assemble, hasKind_iff.mp kind, need_found named, need_found listed, ok_bind,
      read, wholes, split, stops, error_bind]

theorem load_of_inner (comes : LoadsInner fields d) (failed : load d = .error f) :
    load (.record fields) = .error f := by
  cases comes with
  | @statement _ name _ before after pair kind found passed =>
    have stops : loadMembers (.list (before ++ d :: after)) = .error f := by
      rw [loadMembers, loadAll_eq_mapM]
      exact mapM_eq_error.mpr ⟨before, d, after, rfl, passed, failed⟩
    simp only [List.mem_cons, Prod.mk.injEq, List.not_mem_nil, or_false] at pair
    rcases pair with ⟨rfl, rfl⟩ | ⟨rfl, rfl⟩
    · simp only [load, assemble, hasKind_iff.mp kind, need_found found, ok_bind, stops, error_bind]
    · simp only [load, assemble, hasKind_iff.mp kind, need_found found, ok_bind, stops, error_bind]
  | round kind counted read found =>
    simp only [load, assemble, hasKind_iff.mp kind, need_found counted, need_found found, ok_bind,
      read, failed, error_bind]
  | body kind named listed read found =>
    simp only [load, assemble, hasKind_iff.mp kind, need_found named, need_found listed,
      need_found found, ok_bind, read, failed, error_bind]
  | yes kind tested found =>
    simp only [load, assemble, hasKind_iff.mp kind, need_found tested, need_found found, ok_bind,
      failed, error_bind]
  | no kind tested first read found =>
    simp only [load, assemble, hasKind_iff.mp kind, need_found tested, need_found first,
      lookup_loadFields, found, Option.map_some, ok_bind, read, failed, error_bind]

theorem wholes_error (failed : wholes d = .error f) :
    f.IsRefusal ∨ ∃ before e after, d.items = .ok (before ++ e :: after) ∧
      (∀ x ∈ before, ∃ n, x.whole = .ok n) ∧ e.whole = .error f := by
  rcases bind_eq_error.mp failed with unlisted | ⟨items, listed, failed⟩
  · exact .inl (Datum.items_error unlisted)
  · obtain ⟨before, e, after, rfl, passed, stops⟩ := mapM_eq_error.mp failed
    exact .inr ⟨before, e, after, listed, passed, stops⟩

theorem loadMembers_error (failed : loadMembers d = .error f) :
    f.IsRefusal ∨ ∃ before e after, d = .list (before ++ e :: after) ∧
      (∀ x ∈ before, ∃ n, load x = .ok n) ∧ load e = .error f := by
  cases d with
  | list items =>
    rw [loadMembers, loadAll_eq_mapM] at failed
    obtain ⟨before, e, after, rfl, passed, stops⟩ := mapM_eq_error.mp failed
    exact .inr ⟨before, e, after, rfl, passed, stops⟩
  | text s =>
    rw [loadMembers] at failed
    split at failed <;> cases failed
    exact .inl (.inl rfl)
  | record fields =>
    rw [loadMembers] at failed
    split at failed <;> cases failed
    exact .inl (.inl rfl)
  | null | bool | int | float =>
    cases failed
    exact .inl (.inl rfl)

/-- A fault that loading a record takes over from a number it reads or a datum it loads. -/
def PassesOn (fields : List (String × Datum)) (f : Fault) : Prop :=
  (∃ d, ReadsNumber fields d ∧ d.whole = .error f) ∨ ∃ d, LoadsInner fields d ∧ load d = .error f

/-- A result of which every fault is a refusal or was taken over. -/
def Explained (fields : List (String × Datum)) (r : Except Fault α) : Prop :=
  ∀ f, r = .error f → f.IsRefusal ∨ PassesOn fields f

namespace Explained

theorem ok (a : α) : Explained fields (.ok a) := nofun

theorem refusal {r : Except Fault α} (refused : ∀ {f}, r = .error f → f.IsRefusal) :
    Explained fields r := fun _ failed => .inl (refused failed)

theorem bind {r : Except Fault α} {next : α → Except Fault β} (first : Explained fields r)
    (rest : ∀ a, r = .ok a → Explained fields (next a)) : Explained fields (r >>= next) := by
  intro f failed
  rcases bind_eq_error.mp failed with here | ⟨a, passed, later⟩
  · exact first f here
  · exact rest a passed f later

theorem need {name : String} {next : Field → Except Fault α}
    (rest : ∀ d, fields.lookup name = some d →
      Explained fields (next ⟨d, load d, loadMembers d⟩)) :
    Explained fields (Node.need (loadFields fields) name >>= next) := by
  refine bind (refusal need_error) fun field needed => ?_
  obtain ⟨d, found, rfl⟩ := need_eq_ok.mp needed
  exact rest d found

theorem inner (comes : LoadsInner fields d) : Explained fields (load d) :=
  fun _ failed => .inr (.inr ⟨d, comes, failed⟩)

theorem members {kind name : String}
    (pair : (kind, name) ∈ [("Program", "body"), ("Block", "statements")])
    (isKind : HasKind fields kind) (found : fields.lookup name = some d) :
    Explained fields (loadMembers d) := by
  intro f failed
  rcases loadMembers_error failed with refused | ⟨before, e, after, rfl, passed, stops⟩
  · exact .inl refused
  · exact .inr (.inr ⟨e, .statement pair isKind found passed, stops⟩)

end Explained

theorem load_record_explained (fields : List (String × Datum)) :
    Explained fields (load (.record fields)) := by
  rw [load, assemble]
  dsimp only
  -- one case for each kind of node, and one for records of no kind that is known
  split
  · rename_i type
    refine .need fun d found => .bind (.members (by simp) (hasKind_iff.mpr type) found) ?_
    exact fun body _ => .bind (.refusal functionTable_error) fun _ _ => .ok _
  · exact .need fun _ _ => .ok _
  · rename_i type
    refine .need fun name named => .bind (.refusal readOperator_error) fun op read => ?_
    refine .need fun operands found => .bind ?_ fun _ _ => .ok _
    intro f failed
    rcases wholes_error failed with refused | ⟨before, e, after, split, passed, stops⟩
    · exact .inl refused
    · exact .inr (.inl ⟨e, .operand (hasKind_iff.mpr type) named read found split passed, stops⟩)
  · rename_i type
    refine .need fun d found => .bind (.members (by simp) (hasKind_iff.mpr type) found) ?_
    exact fun _ _ => .ok _
  · rename_i type
    have kind := hasKind_iff.mpr type
    refine .need fun count counted => .bind ?_ fun n read => ?_
    · exact fun f failed => .inr (.inl ⟨count, .count kind counted, failed⟩)
    · exact .need fun d found => .bind (.inner (.round kind counted read found)) fun _ _ => .ok _
  · rename_i type
    have kind := hasKind_iff.mpr type
    refine .need fun name named => .need fun params listed => ?_
    refine .bind (.refusal Datum.items_error) fun items read => ?_
    exact .need fun d found => .bind (.inner (.body kind named listed read found)) fun _ _ => .ok _
  · refine .need fun _ _ => .need fun _ _ => ?_
    exact .bind (.refusal Datum.items_error) fun _ _ => .ok _
  · exact .need fun _ _ => .need fun _ _ => .ok _
  · rename_i type
    have kind := hasKind_iff.mpr type
    refine .need fun condition tested => .need fun yes found => ?_
    refine .bind (.inner (.yes kind tested found)) fun node first => ?_
    rw [lookup_loadFields]
    cases other : fields.lookup "else_branch" with
    | none => exact .ok _
    | some d => exact .bind (.inner (.no kind tested found first other)) fun _ _ => .ok _
  · exact .need fun _ _ => .need fun _ _ => .ok _
  · intro f failed
    left
    rcases bind_eq_error.mp failed with unshown | ⟨_, _, thrown⟩
    · cases display_error unshown
      exact .inr (.inl rfl)
    · cases thrown
      exact .inr (.inl rfl)

end Steps

/-- What is loaded inside a record is smaller than the record. -/
theorem LoadsInner.sizeOf_lt {fields : List (String × Datum)} {d : Datum}
    (comes : LoadsInner fields d) : sizeOf d < sizeOf (Datum.record fields) := by
  have field {name : String} {e : Datum} (found : fields.lookup name = some e) :
      sizeOf e < sizeOf (Datum.record fields) := by
    obtain ⟨before, after, split, _⟩ := List.lookup_eq_some_iff.mp found
    have inside : (name, e) ∈ fields := split ▸ List.mem_append_right before List.mem_cons_self
    have smaller := List.sizeOf_lt_of_mem inside
    simp only [Prod.mk.sizeOf_spec, Datum.record.sizeOf_spec] at smaller ⊢
    omega
  cases comes with
  | @statement _ _ _ before after _ _ found _ =>
    have inside : d ∈ before ++ d :: after := List.mem_append_right before List.mem_cons_self
    have smaller := List.sizeOf_lt_of_mem inside
    have whole := field found
    simp only [Datum.list.sizeOf_spec] at whole
    omega
  | round _ _ _ found | body _ _ _ _ found | yes _ _ found | no _ _ _ _ found => exact field found

theorem load_of_meetsInfinity {d : Datum} (meets : MeetsInfinity d) :
    load d = .error .infiniteNumber := by
  induction meets with
  | here reads => exact load_of_number reads rfl
  | inside comes _ ih => exact load_of_inner comes ih

/-- A fault of loading is a refusal, unless an infinite number is come to. -/
theorem load_error {d : Datum} {f : Fault} (failed : load d = .error f) :
    f.IsRefusal ∨ f = .infiniteNumber ∧ MeetsInfinity d := by
  cases d with
  | record fields =>
    rcases load_record_explained fields f failed with
      refused | ⟨e, reads, unread⟩ | ⟨e, comes, inside⟩
    · exact .inl refused
    · rcases Datum.whole_error unread with refused | ⟨rfl, negative, rfl⟩
      · exact .inl refused
      · exact .inr ⟨rfl, .here reads⟩
    · have smaller := comes.sizeOf_lt
      exact (load_error inside).imp_right fun ⟨infinite, meets⟩ => ⟨infinite, .inside comes meets⟩
  | null => cases failed
  | bool | int | float | text | list =>
    cases failed
    exact .inl (.inl rfl)
termination_by sizeOf d

end Node

namespace CommandLine

/-- A file holds a datum, written as JSON text. -/
def HoldsDatum (octets : List UInt8) (d : Datum) : Prop :=
  ∃ text, decodeOctets octets = .ok text ∧ Json.read (unifyNewlines text) = .ok d

theorem HoldsDatum.readStored {octets : List UInt8} {d : Datum} (holds : HoldsDatum octets d) :
    readStored octets = Node.load d := by
  obtain ⟨text, decoded, read⟩ := holds
  rw [CommandLine.readStored, decoded, ok_bind]
  dsimp only
  rw [read, ok_bind]

theorem isReported_of_isRefusal {f : Fault} (refused : f.IsRefusal) : isReported f = true := by
  unfold isReported
  rcases refused with family | family | family <;> rw [family]

/-- Loading a datum gives a tree or a refusal just if it comes to no infinite number where a
whole one is needed. The command runs the tree and reports the refusal; the infinite number
ends it. -/
theorem loading_settles (d : Datum) :
    ((∃ program, Node.load d = .ok program) ∨ (∃ f, Node.load d = .error f ∧ f.IsRefusal) ↔
      ¬ Node.MeetsInfinity d) ∧
    ∀ octets, HoldsDatum octets d → ∀ verbosity limit look path,
      let result := (Task.load path).perform verbosity limit octets look
      (∃ program, Node.load d = .ok program ∧
        result = finish verbosity none (runNode verbosity limit program)) ∨
      (∃ f, Node.load d = .error f ∧ f.IsRefusal ∧
        result = .error ("invalid AST file " ++ path ++ ": " ++ f.message)) ∨
      Node.MeetsInfinity d ∧ result = { status := .error .infiniteNumber } := by
  constructor
  · constructor
    · rintro (⟨program, loaded⟩ | ⟨f, failed, refused⟩) meets
      · cases loaded.symm.trans (Node.load_of_meetsInfinity meets)
      · cases failed.symm.trans (Node.load_of_meetsInfinity meets)
        rcases refused with family | family | family <;> cases family
    · intro finite
      cases loaded : Node.load d with
      | ok program => exact .inl ⟨program, rfl⟩
      | error f =>
        have refused := (Node.load_error loaded).resolve_right fun meets => finite meets.2
        exact .inr ⟨f, rfl, refused⟩
  · intro octets holds verbosity limit look path
    simp only [Task.perform, holds.readStored]
    cases loaded : Node.load d with
    | ok program => exact .inl ⟨program, rfl, rfl⟩
    | error f =>
      rcases Node.load_error loaded with refused | ⟨rfl, meets⟩
      · refine .inr (.inl ⟨f, rfl, refused, ?_⟩)
        simp only [isReported_of_isRefusal refused, if_true]
      · exact .inr (.inr ⟨meets, rfl⟩)

/-- A stored loop whose count is too large for any finite number. -/
def endlessLoop : String := "\x7b\"type\": \"Repeat\", \"count\": 1e999, \"body\": null\x7d"

theorem run_endlessLoop :
    (run nestingLimit ["--ast", "a.json"] fun _ => .file (fileOctets endlessLoop)).status =
      .error .infiniteNumber ∧ ¬ Fault.infiniteNumber.IsRefusal := by
  constructor
  · decide +kernel
  · rintro (family | family | family) <;> cases family

end CommandLine
end Primer
