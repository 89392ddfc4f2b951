import Primer.Proofs.JsonScalars

/-! Data as JSON text over several lines. Main statement: plain data are read back from the
text they are written as. -/
namespace Primer

/-- Data without fractions and truth values, whose numbers can be written and whose
records have no name twice. -/
inductive Datum.IsPlain : Datum → Prop
  | null : IsPlain .null
  | int {n : Int} : n.natAbs < tenTo digitLimit → IsPlain (.int n)
  | text {s : String} : IsPlain (.text s)
  | list {items : List Datum} : (∀ d ∈ items, IsPlain d) → IsPlain (.list items)
  | record {fields : List (String × Datum)} : (fields.map Prod.fst).Nodup →
      (∀ f ∈ fields, IsPlain f.2) → IsPlain (.record fields)

namespace Json

/-- Where the text of a value may start: at no gap and at no closing bracket. -/
def startsValue (c : Char) : Bool := !isGap c && c != ']' && c != '\ufeff'

theorem skipGap_newLine (depth pos : Nat) {rest : List Char} (stop : Stops isGap rest) :
    skipGap ⟨pos, (newLine depth).toList ++ rest⟩ = ⟨pos + (newLine depth).toList.length, rest⟩ := by
  apply Cursor.skipWhile_append pos _ _ stop
  intro c inside
  rw [newLine, String.toList_ofList] at inside
  rcases List.mem_cons.mp inside with rfl | later
  · rfl
  · rw [List.eq_of_mem_replicate later]
    rfl

theorem stops_newLine (depth : Nat) (rest : List Char) :
    Stops isNumeral ((newLine depth).toList ++ rest) := by
  rw [newLine, String.toList_ofList]
  exact stops_cons rfl

theorem skipGap_stops {rest : List Char} (pos : Nat) (stop : Stops isGap rest) :
    skipGap ⟨pos, rest⟩ = ⟨pos, rest⟩ :=
  Cursor.skipWhile_append pos [] (by simp) stop

theorem writeItems_cons (depth : Nat) (d : Datum) (ds : List Datum) (rest : List Char) :
    (writeItems depth (d :: ds)).toList ++ rest = ',' :: ((newLine depth).toList ++
      ((writeAt depth d).toList ++ ((writeItems depth ds).toList ++ rest))) := by
  simp [writeItems]

/-- A text that starts as the text of a value does. -/
def Starts (text : List Char) : Prop := ∃ c cs, text = c :: cs ∧ startsValue c = true

theorem Starts.stops {text : List Char} (starts : Starts text) (rest : List Char) :
    Stops isGap (text ++ rest) := by
  obtain ⟨c, cs, rfl, start⟩ := starts
  simp only [startsValue, Bool.and_eq_true, Bool.not_eq_true'] at start
  exact stops_cons start.1.1

theorem Starts.not_close {text : List Char} (starts : Starts text) (pos : Nat) (rest : List Char) :
    Cursor.peek ⟨pos, text ++ rest⟩ ≠ some ']' := by
  obtain ⟨c, cs, rfl, start⟩ := starts
  intro close
  cases close
  cases start

theorem stops_comma (rest : List Char) : Stops isNumeral (',' :: rest) := stops_cons rfl

theorem advance_one (pos : Nat) (c : Char) (rest : List Char) :
    Cursor.advance ⟨pos, c :: rest⟩ 1 = ⟨pos + 1, rest⟩ := Cursor.advance_append pos [c] rest

section Lists
variable {read : ValueReader} {depth : Nat}

/-- The members of a list are read up to its end, if each of them is. -/
theorem readElements_written {d : Datum} {ds : List Datum}
    (nested : ∀ e ∈ d :: ds, Reads read (writeAt depth e).toList e)
    (starts : ∀ e ∈ d :: ds, Starts (writeAt depth e).toList)
    {bound : Nat} (enough : ds.length < bound) (outer pos : Nat) (rest : List Char) :
    ∃ next, readElements read bound ⟨pos, (writeAt depth d).toList ++ ((writeItems depth ds).toList ++
      ((newLine outer).toList ++ ']' :: rest))⟩ = .ok (d :: ds, ⟨next, rest⟩) := by
  induction ds generalizing d bound pos with
  | nil =>
    obtain ⟨bound, rfl⟩ := Nat.exists_eq_add_of_lt enough
    have close : Stops isGap (']' :: rest) := stops_cons rfl
    obtain ⟨middle, first⟩ := nested d List.mem_cons_self pos _ (stops_newLine outer (']' :: rest))
    simp only [writeItems, String.toList_empty, List.nil_append, readElements, first, ok_bind,
      skipGap_newLine outer middle close]
    exact ⟨_, rfl⟩
  | cons e ds ih =>
    obtain ⟨bound, rfl⟩ := Nat.exists_eq_add_of_lt (Nat.zero_lt_of_lt enough)
    have later : ds.length < 0 + bound := by simp at enough; omega
    have others := List.forall_mem_cons.mp nested
    have heads := List.forall_mem_cons.mp starts
    rw [writeItems_cons]
    generalize after : (writeItems depth ds).toList ++ ((newLine outer).toList ++ ']' :: rest) = tail at ih ⊢
    obtain ⟨middle, first⟩ := others.1 pos
      (',' :: ((newLine depth).toList ++ ((writeAt depth e).toList ++ tail))) (stops_comma _)
    obtain ⟨next, second⟩ := ih others.2 heads.2 later (middle + 1 + (newLine depth).toList.length)
    have comma : ∀ text, skipGap ⟨middle, ',' :: text⟩ = ⟨middle, ',' :: text⟩ :=
      fun text => skipGap_stops middle (stops_cons rfl)
    have gap := skipGap_newLine depth (middle + 1) ((heads.2 e List.mem_cons_self).stops tail)
    refine ⟨next, ?_⟩
    simp only [readElements, first, ok_bind, comma, Cursor.peek, List.head?_cons, advance_one, gap, second]
    rfl

end Lists

theorem putField_fresh {fields : List (String × Datum)} {name : String}
    (fresh : name ∉ fields.map Prod.fst) (d : Datum) : putField fields name d = fields ++ [(name, d)] := by
  induction fields with
  | nil => rfl
  | cons field fields ih =>
    obtain ⟨other, later⟩ := not_or.mp (fresh ∘ List.mem_cons.mpr)
    have differs : field.1 ≠ name := fun same => other same.symm
    rw [putField, if_neg differs, ih later]
    rfl

theorem fresh_name {field : String × Datum} {fields acc : List (String × Datum)}
    (distinct : ((acc ++ field :: fields).map Prod.fst).Nodup) : field.1 ∉ acc.map Prod.fst := by
  rw [List.map_append, List.nodup_append] at distinct
  exact fun inside => distinct.2.2 _ inside field.1 List.mem_cons_self rfl

/-- A field of a record as text, in front of other text. -/
def fieldText (depth : Nat) (field : String × Datum) (rest : List Char) : List Char :=
  (writeString field.1).toList ++ ':' :: ' ' :: ((writeAt depth field.2).toList ++ rest)

theorem writeFields_cons (depth : Nat) (field : String × Datum) (fields : List (String × Datum))
    (rest : List Char) : (writeFields depth (field :: fields)).toList ++ rest =
      ',' :: ((newLine depth).toList ++ fieldText depth field ((writeFields depth fields).toList ++ rest)) := by
  simp [writeFields, fieldText]

theorem fieldText_head (depth : Nat) (field : String × Datum) (rest : List Char) :
    ∃ cs, fieldText depth field rest = '"' :: cs := by
  simp [fieldText, writeString]

section Records
variable {read : ValueReader} {depth : Nat}

/-- A name and its value are read, and then what ends the field. -/
theorem readFields_field {name : String} {d : Datum} {acc : List (String × Datum)}
    (value : Reads read (writeAt depth d).toList d) (starts : Starts (writeAt depth d).toList)
    (fresh : name ∉ acc.map Prod.fst) (bound pos : Nat) {rest : List Char} (stop : Stops isNumeral rest) :
    ∃ next, readFields read (bound + 1) acc ⟨pos, fieldText depth (name, d) rest⟩ =
      match (skipGap ⟨next, rest⟩).peek with
      | some '}' => .ok (acc ++ [(name, d)], (skipGap ⟨next, rest⟩).advance 1)
      | some ',' => readFields read bound (acc ++ [(name, d)]) (skipGap ((skipGap ⟨next, rest⟩).advance 1))
      | _ => expecting "',' delimiter" (skipGap ⟨next, rest⟩) := by
  obtain ⟨colon, named⟩ := readString_written pos name
    (':' :: ' ' :: ((writeAt depth d).toList ++ rest))
  obtain ⟨next, valued⟩ := value (colon + 1 + 1) rest stop
  have opens : Cursor.peek ⟨pos, fieldText depth (name, d) rest⟩ = some '"' := by
    obtain ⟨cs, text⟩ := fieldText_head depth (name, d) rest
    rw [text]
    rfl
  have atColon : ∀ text, skipGap ⟨colon, ':' :: text⟩ = ⟨colon, ':' :: text⟩ :=
    fun text => skipGap_stops colon (stops_cons rfl)
  have space : skipGap ⟨colon + 1, ' ' :: ((writeAt depth d).toList ++ rest)⟩ =
      ⟨colon + 1 + 1, (writeAt depth d).toList ++ rest⟩ :=
    Cursor.skipWhile_append (colon + 1) [' '] (List.forall_mem_singleton.mpr rfl) (starts.stops rest)
  refine ⟨next, ?_⟩
  simp only [readFields, opens, ne_eq, not_true_eq_false, if_false]
  rw [fieldText, named, ok_bind]
  dsimp only
  rw [atColon]
  simp only [Cursor.peek, List.head?_cons, not_true_eq_false, if_false, advance_one, space, valued,
    ok_bind, putField_fresh fresh]
  rfl

/-- The fields of a record are read up to its end, after those that were read before. -/
theorem readFields_written (acc : List (String × Datum)) {field : String × Datum}
    {fields : List (String × Datum)}
    (nested : ∀ f ∈ field :: fields, Reads read (writeAt depth f.2).toList f.2)
    (starts : ∀ f ∈ field :: fields, Starts (writeAt depth f.2).toList)
    (distinct : ((acc ++ field :: fields).map Prod.fst).Nodup)
    {bound : Nat} (enough : fields.length < bound) (outer pos : Nat) (rest : List Char) :
    ∃ next, readFields read bound acc ⟨pos, fieldText depth field ((writeFields depth fields).toList ++
      ((newLine outer).toList ++ '}' :: rest))⟩ = .ok (acc ++ field :: fields, ⟨next, rest⟩) := by
  induction fields generalizing field acc bound pos with
  | nil =>
    obtain ⟨bound, rfl⟩ := Nat.exists_eq_add_of_lt enough
    obtain ⟨next, read⟩ := readFields_field (nested field List.mem_cons_self)
      (starts field List.mem_cons_self) (fresh_name distinct) (0 + bound) pos
      (stops_newLine outer ('}' :: rest))
    have close : Stops isGap ('}' :: rest) := stops_cons rfl
    simp only [skipGap_newLine outer next close] at read
    exact ⟨_, read⟩
  | cons other fields ih =>
    obtain ⟨bound, rfl⟩ := Nat.exists_eq_add_of_lt (Nat.zero_lt_of_lt enough)
    have later : fields.length < 0 + bound := by simp at enough; omega
    have others := List.forall_mem_cons.mp nested
    have heads := List.forall_mem_cons.mp starts
    have regrouped : acc ++ field :: other :: fields = (acc ++ [field]) ++ other :: fields := by simp
    rw [regrouped] at distinct ⊢
    rw [writeFields_cons]
    generalize after : (writeFields depth fields).toList ++ ((newLine outer).toList ++ '}' :: rest) = tail
      at ih ⊢
    obtain ⟨middle, first⟩ := readFields_field others.1 heads.1
      (fresh_name (regrouped ▸ distinct)) (0 + bound) pos
      (stops_comma ((newLine depth).toList ++ fieldText depth other tail))
    obtain ⟨next, second⟩ := ih (acc ++ [field]) others.2 heads.2 distinct later
      (middle + 1 + (newLine depth).toList.length)
    obtain ⟨cs, quote⟩ := fieldText_head depth other tail
    have stop : Stops isGap (fieldText depth other tail) := quote ▸ stops_cons rfl
    have comma : ∀ text, skipGap ⟨middle, ',' :: text⟩ = ⟨middle, ',' :: text⟩ :=
      fun text => skipGap_stops middle (stops_cons rfl)
    simp only [comma, Cursor.peek, List.head?_cons, advance_one, skipGap_newLine depth (middle + 1) stop,
      second] at first
    exact ⟨next, first⟩

end Records

theorem writeAt_list (depth : Nat) (d : Datum) (ds : List Datum) (rest : List Char) :
    (writeAt depth (.list (d :: ds))).toList ++ rest = '[' :: ((newLine (depth + 1)).toList ++
      ((writeAt (depth + 1) d).toList ++ ((writeItems (depth + 1) ds).toList ++
        ((newLine depth).toList ++ ']' :: rest)))) := by
  simp [writeAt]

theorem writeAt_record (depth : Nat) (field : String × Datum) (fields : List (String × Datum))
    (rest : List Char) : (writeAt depth (.record (field :: fields))).toList ++ rest =
      '\x7b' :: ((newLine (depth + 1)).toList ++ fieldText (depth + 1) field
        ((writeFields (depth + 1) fields).toList ++ ((newLine depth).toList ++ '\x7d' :: rest))) := by
  simp [writeAt, fieldText]

/-- A list and each of its members are no longer than their text. -/
theorem length_writeItems (depth : Nat) (ds : List Datum) :
    ds.length ≤ (writeItems depth ds).toList.length ∧
      ∀ d ∈ ds, (writeAt depth d).toList.length ≤ (writeItems depth ds).toList.length := by
  induction ds with
  | nil => simp
  | cons d ds ih =>
    have text := congrArg List.length (writeItems_cons depth d ds [])
    simp only [List.append_nil, List.length_cons, List.length_append] at text
    constructor
    · rw [List.length_cons]
      omega
    · intro e inside
      rcases List.mem_cons.mp inside with rfl | later
      · omega
      · have shorter := ih.2 e later
        omega

theorem length_writeFields (depth : Nat) (fields : List (String × Datum)) :
    fields.length ≤ (writeFields depth fields).toList.length ∧
      ∀ f ∈ fields, (writeAt depth f.2).toList.length ≤ (writeFields depth fields).toList.length := by
  induction fields with
  | nil => simp
  | cons field fields ih =>
    have text := congrArg List.length (writeFields_cons depth field fields [])
    simp only [List.append_nil, List.length_cons, List.length_append, fieldText] at text
    constructor
    · rw [List.length_cons]
      omega
    · intro f inside
      rcases List.mem_cons.mp inside with rfl | later
      · omega
      · have shorter := ih.2 f later
        omega

theorem length_item {items : List Datum} {d : Datum} (inside : d ∈ items) (depth : Nat) :
    (writeAt (depth + 1) d).toList.length < (writeAt depth (.list items)).toList.length := by
  cases items with
  | nil => cases inside
  | cons first others =>
    have text := congrArg List.length (writeAt_list depth first others [])
    simp only [List.append_nil, List.length_cons, List.length_append] at text
    rcases List.mem_cons.mp inside with rfl | later
    · omega
    · have shorter := (length_writeItems (depth + 1) others).2 d later
      omega

theorem length_field {fields : List (String × Datum)} {f : String × Datum} (inside : f ∈ fields)
    (depth : Nat) :
    (writeAt (depth + 1) f.2).toList.length < (writeAt depth (.record fields)).toList.length := by
  cases fields with
  | nil => cases inside
  | cons first others =>
    have text := congrArg List.length (writeAt_record depth first others [])
    simp only [List.append_nil, List.length_cons, List.length_append, fieldText] at text
    rcases List.mem_cons.mp inside with rfl | later
    · omega
    · have shorter := (length_writeFields (depth + 1) others).2 f later
      omega

theorem starts_written {d : Datum} (plain : d.IsPlain) (depth : Nat) : Starts (writeAt depth d).toList := by
  cases plain with
  | null => simp [writeAt, Starts, startsValue, isGap]
  | @int n =>
    obtain ⟨c, cs, digit, form⟩ := toString_head n []
    rw [List.append_nil] at form
    rw [writeAt]
    rcases form with text | text
    · refine ⟨c, cs, text, ?_⟩
      have other : ∀ x, isDigit x = false → c ≠ x := fun _ letter => (digit_ne digit letter).symm
      simp [startsValue, isGap, other ' ' rfl, other '\t' rfl, other '\n' rfl, other '\r' rfl,
        other ']' rfl, other '\ufeff' rfl]
    · exact ⟨'-', _, text, rfl⟩
  | @text s => simp [writeAt, writeString, Starts, startsValue, isGap]
  | @list items _ =>
    cases items with
    | nil => simp [writeAt, Starts, startsValue, isGap]
    | cons d ds => exact ⟨'[', _, by simpa using writeAt_list depth d ds [], rfl⟩
  | @record fields _ _ =>
    cases fields with
    | nil => simp [writeAt, Starts, startsValue, isGap]
    | cons field fields => exact ⟨'\x7b', _, by simpa using writeAt_record depth field fields [], rfl⟩

section Nested
variable {read : ValueReader} {depth : Nat}

theorem reads_list {items : List Datum}
    (nested : ∀ d ∈ items, Reads read (writeAt (depth + 1) d).toList d)
    (starts : ∀ d ∈ items, Starts (writeAt (depth + 1) d).toList) :
    Reads (readValueWith read) (writeAt depth (.list items)).toList (.list items) := by
  intro pos rest _
  cases items with
  | nil =>
    have text : (writeAt depth (.list [])).toList ++ rest = '[' :: ']' :: rest := by simp [writeAt]
    rw [text]
    exact ⟨_, rfl⟩
  | cons d ds =>
    rw [writeAt_list]
    generalize after : (writeItems (depth + 1) ds).toList ++ ((newLine depth).toList ++ ']' :: rest) = tail
    have first := starts d List.mem_cons_self
    have gap := skipGap_newLine (depth + 1) (pos + 1) (first.stops tail)
    have enough : ds.length < ((writeAt (depth + 1) d).toList ++ tail).length + 1 := by
      have least := (length_writeItems (depth + 1) ds).1
      simp only [← after, List.length_append]
      omega
    obtain ⟨next, members⟩ := readElements_written nested starts enough depth
      (pos + 1 + (newLine (depth + 1)).toList.length) rest
    rw [after] at members
    have opened : Cursor.peek ⟨pos + 1 + (newLine (depth + 1)).toList.length,
      (writeAt (depth + 1) d).toList ++ tail⟩ ≠ some ']' := first.not_close _ tail
    refine ⟨next, ?_⟩
    unfold readValueWith
    simp only [Cursor.peek, List.head?_cons, advance_one, gap] at opened ⊢
    rw [if_neg opened, members]
    rfl

/-- The names and values of a record are read if its values are. -/
theorem reads_record {fields : List (String × Datum)} (distinct : (fields.map Prod.fst).Nodup)
    (nested : ∀ f ∈ fields, Reads read (writeAt (depth + 1) f.2).toList f.2)
    (starts : ∀ f ∈ fields, Starts (writeAt (depth + 1) f.2).toList) :
    Reads (readValueWith read) (writeAt depth (.record fields)).toList (.record fields) := by
  intro pos rest _
  cases fields with
  | nil =>
    have text : (writeAt depth (.record [])).toList ++ rest = '\x7b' :: '\x7d' :: rest := by simp [writeAt]
    rw [text]
    exact ⟨_, rfl⟩
  | cons field fields =>
    rw [writeAt_record]
    generalize after : (writeFields (depth + 1) fields).toList ++
      ((newLine depth).toList ++ '\x7d' :: rest) = tail
    obtain ⟨cs, quote⟩ := fieldText_head (depth + 1) field tail
    have stop : Stops isGap (fieldText (depth + 1) field tail) := quote ▸ stops_cons rfl
    have gap := skipGap_newLine (depth + 1) (pos + 1) stop
    have enough : fields.length < (fieldText (depth + 1) field tail).length + 1 := by
      have least := (length_writeFields (depth + 1) fields).1
      simp only [← after, fieldText, List.length_append, List.length_cons]
      omega
    obtain ⟨next, members⟩ := readFields_written [] nested starts distinct enough depth
      (pos + 1 + (newLine (depth + 1)).toList.length) rest
    rw [after] at members
    have opened : (fieldText (depth + 1) field tail).head? ≠ some '\x7d' := by
      rw [quote]
      simp
    refine ⟨next, ?_⟩
    unfold readValueWith
    simp only [Cursor.peek, List.head?_cons, advance_one, gap]
    rw [if_neg opened, members]
    rfl

end Nested

theorem reads_nested {d : Datum} (plain : d.IsPlain) {bound depth : Nat}
    (deep : (writeAt depth d).toList.length ≤ bound)
    (inner : ∀ b, bound = b + 1 → Reads (readValueWith (readValue b)) (writeAt depth d).toList d) :
    Reads (readValue bound) (writeAt depth d).toList d := by
  obtain ⟨c, cs, text, _⟩ := starts_written plain depth
  cases bound with
  | zero => simp [text] at deep
  | succ b => exact inner b rfl

/-- A plain datum is read back from its text by a reader that may nest as deep as the
text is long. -/
theorem reads_written {d : Datum} (plain : d.IsPlain) {bound depth : Nat}
    (deep : (writeAt depth d).toList.length ≤ bound) :
    Reads (readValue bound) (writeAt depth d).toList d := by
  induction plain generalizing bound depth with
  | null =>
    apply reads_nested .null deep
    intro b _
    rw [writeAt]
    exact reads_null _
  | int small =>
    apply reads_nested (.int small) deep
    intro b _
    rw [writeAt]
    exact reads_int _ small
  | @text s =>
    apply reads_nested .text deep
    intro b _
    rw [writeAt]
    exact reads_text _ s
  | list all ih =>
    apply reads_nested (.list all) deep
    rintro b rfl
    apply reads_list
    · intro e inside
      have shorter := length_item inside depth
      exact ih e inside (by omega)
    · exact fun e inside => starts_written (all e inside) _
  | record distinct all ih =>
    apply reads_nested (.record distinct all) deep
    rintro b rfl
    apply reads_record distinct
    · intro f inside
      have shorter := length_field inside depth
      exact ih f inside (by omega)
    · exact fun f inside => starts_written (all f inside) _

/-- Plain data are read back from the text they are written as. -/
theorem read_write {d : Datum} (plain : d.IsPlain) : Json.read (write d).toList = .ok d := by
  have starts := starts_written plain 0
  have deep : (writeAt 0 d).toList.length ≤ (writeAt 0 d).toList.length + 1 := Nat.le_succ _
  obtain ⟨next, value⟩ := reads_written plain deep 0 [] stops_nil
  have gap := skipGap_stops 0 (starts.stops [])
  rw [List.append_nil] at value gap
  have mark : (write d).toList.head? ≠ some '\ufeff' := by
    obtain ⟨c, cs, text, start⟩ := starts
    rw [write, text]
    intro same
    cases same
    cases start
  have whole : readWholeText (write d).toList = .ok d := by
    unfold readWholeText
    rw [if_neg mark]
    simp only [write, Cursor.start, gap, value, ok_bind, skipGap_stops next stops_nil]
    rfl
  rw [Json.read, whole]

theorem escapeChar_noReturn (c : Char) : '\r' ∉ escapeChar c := by
  have hexadecimals : ∀ n < 0x20, '\r' ∉ hexadecimal 4 n := by decide +kernel
  unfold escapeChar
  split
  iterate 7 decide
  rename_i _ _ _ other _ _ _
  split
  · rename_i control
    simpa using hexadecimals c.toNat control
  · exact fun inside => other (List.mem_singleton.mp inside).symm

theorem writeString_noReturn (s : String) : '\r' ∉ (writeString s).toList := by
  simp [writeString, escapeChar_noReturn]

theorem newLine_noReturn (depth : Nat) : '\r' ∉ (newLine depth).toList := by
  simp [newLine]

theorem writeItems_noReturn {depth : Nat} {ds : List Datum}
    (each : ∀ d ∈ ds, '\r' ∉ (writeAt depth d).toList) : '\r' ∉ (writeItems depth ds).toList := by
  induction ds with
  | nil => simp [writeItems]
  | cons d ds ih =>
    obtain ⟨first, others⟩ := List.forall_mem_cons.mp each
    simp [writeItems, newLine_noReturn, first, ih others]

theorem writeFields_noReturn {depth : Nat} {fields : List (String × Datum)}
    (each : ∀ f ∈ fields, '\r' ∉ (writeAt depth f.2).toList) :
    '\r' ∉ (writeFields depth fields).toList := by
  induction fields with
  | nil => simp [writeFields]
  | cons field fields ih =>
    obtain ⟨first, others⟩ := List.forall_mem_cons.mp each
    simp [writeFields, newLine_noReturn, writeString_noReturn, first, ih others]

/-- The lines of a JSON text end in newlines only. -/
theorem writeAt_noReturn {d : Datum} (plain : d.IsPlain) (depth : Nat) :
    '\r' ∉ (writeAt depth d).toList := by
  induction plain generalizing depth with
  | null => simp [writeAt]
  | @int n _ =>
    have digits := List.all_eq_true.mp (toDigits_all_isDigit n.natAbs)
    have none : '\r' ∉ Nat.toDigits 10 n.natAbs := fun inside => absurd (digits _ inside) (by decide)
    rw [writeAt, toList_toString_int]
    split <;> simp [none]
  | text => simp [writeAt, writeString_noReturn]
  | @list items _ ih =>
    cases items with
    | nil => simp [writeAt]
    | cons d ds =>
      have each := List.forall_mem_cons.mp fun e inside => ih e inside (depth + 1)
      simp [writeAt, newLine_noReturn, each.1, writeItems_noReturn each.2]
  | @record fields _ _ ih =>
    cases fields with
    | nil => simp [writeAt]
    | cons field fields =>
      have each := List.forall_mem_cons.mp fun f inside => ih f inside (depth + 1)
      simp [writeAt, newLine_noReturn, writeString_noReturn, each.1, writeFields_noReturn each.2]

end Json
end Primer
