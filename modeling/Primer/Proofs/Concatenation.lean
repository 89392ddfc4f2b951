import Primer.Proofs.Embedding

/-! Two sources, one below the other. Main statement: if the first is a program, the second
is read as on its own, at the place where it stands, unless it starts with an `else`. -/
namespace Primer

open Site

/-- The first of two sources, the second standing below it. -/
def above (source below : List Char) : Site := ⟨0, source.length, '\n' :: below⟩

/-- The second of two sources, with nothing after it. -/
def beneath (source below : List Char) : Site := ⟨source.length + 1, below.length, []⟩

theorem above_apart (source : List Char) {below : List Char}
    (noElse : lower (Cursor.start below).nextWord ≠ ['e', 'l', 's', 'e']) :
    (above source below).Apart :=
  ⟨nofun, noElse⟩

theorem beneath_blank (source below : List Char) : (beneath source below).Blank := nofun

/-- Nothing follows the second source, so each of its offsets moves by the same number. -/
theorem beneath_moves {source below : List Char} {offset moved : Nat}
    (moves : (beneath source below).Moves offset moved) : moved = offset + (source.length + 1) :=
  Nat.le_antisymm moves.most moves.least

theorem readBody_append {source below : List Char} {body : List Node}
    (accepted : readBody source = .ok body)
    (noElse : lower (Cursor.start below).nextWord ≠ ['e', 'l', 's', 'e']) :
    ∃ r, readBody (source ++ '\n' :: below) = r.map (body ++ ·) ∧
      (beneath source below).Carried
        (fun nodes moved => moved = Node.shiftAll (source.length + 1) nodes) (readBody below) r := by
  let whole := source ++ '\n' :: below
  have length : whole.length = source.length + (below.length + 1) := List.length_append
  have first : source.length + 1 ≤ whole.length + 1 := by omega
  have second : below.length + 1 ≤ whole.length + 1 := by omega
  have apart := above_apart source noElse
  obtain ⟨left, count, fewer, read⟩ := readUntilEnd_append apart (readStatement_carriesOver apart first)
    0 first ((above source below).beside_start rfl) accepted
  have enough : below.length + 1 ≤ left := by omega
  have later := readBody_carried (beneath_blank source below) rfl second enough
  have place : (beneath source below).put (.start below) = ⟨source.length + 1, below⟩ := by
    simp [put, beneath, Cursor.start]
  have newline : Cursor.skipBlanks ⟨source.length, '\n' :: below⟩ =
      Cursor.skipBlanks ⟨source.length + 1, below⟩ :=
    Cursor.skipWhile_run (List.forall_mem_singleton.mpr rfl) source.length below
  rw [place] at later
  refine ⟨_, ?_, later⟩
  calc readBody whole
      = (readUntilEnd (readStatement (whole.length + 1) 0) left ⟨source.length, '\n' :: below⟩).map
          (Node.shiftAll 0 body ++ ·) := read
    _ = (readUntilEnd (readStatement (whole.length + 1) 0) left ⟨source.length + 1, below⟩).map
          (body ++ ·) := by
      rw [Node.shiftAll_zero, readUntilEnd_congr (Nat.lt_of_lt_of_le (Nat.succ_pos _) enough) newline]

/-- A program and a source below it are read one after the other. What is read of the second
is moved by the length of the first and the newline, and so is a diagnostic of it. -/
theorem parse_append {source below : List Char} {body : List Node}
    (accepted : parse source = .ok (.program body))
    (noElse : lower (Cursor.start below).nextWord ≠ ['e', 'l', 's', 'e']) :
    (∀ rest, parse below = .ok (.program rest) →
      parse (source ++ '\n' :: below) =
        .ok (.program (body ++ Node.shiftAll (source.length + 1) rest))) ∧
    (∀ d, parse below = .error (.diagnostic d) →
      ∃ offset e, d.offset = atOffset offset ∧
        parse (source ++ '\n' :: below) = .error (.diagnostic e) ∧
        e.problem = d.problem ∧ e.offset = atOffset (offset + (source.length + 1))) ∧
    (∀ f, parse below = .error (.fault f) → parse (source ++ '\n' :: below) = .error (.fault f)) := by
  obtain ⟨r, whole, second⟩ := readBody_append (parse_eq_ok.mp accepted) noElse
  refine ⟨fun rest read => ?_, fun d failed => ?_, fun f failed => ?_⟩
  · rw [parse_eq_ok.mp read] at second
    obtain ⟨moved, rfl, rfl⟩ := second.of_ok
    exact parse_eq_ok.mpr whole
  · obtain ⟨p, offset, rejected, rfl⟩ := parse_eq_diagnostic.mp failed
    rw [rejected] at second
    obtain ⟨moved, rfl, moves⟩ := second.of_problem (beneath_blank source below)
    rw [beneath_moves moves] at whole
    exact ⟨offset, _, rfl, parse_eq_diagnostic.mpr ⟨p, _, whole, rfl⟩, rfl, rfl⟩
  · rw [parse_eq_fault.mp failed] at second
    rw [second.of_fault (beneath_blank source below)] at whole
    exact parse_eq_fault.mpr whole

/-- A conditional that an `else` could follow. -/
def openBranch : List Char := "if $x > 0 \x7b\n  say $x\n\x7d".toList

theorem parse_append_openBranch :
    ∃ body rest, parse openBranch = .ok (.program body) ∧ parse "say else".toList = .ok (.program rest) ∧
      parse (openBranch ++ '\n' :: "say else".toList) =
        .ok (.program (body ++ Node.shiftAll 23 rest)) := by
  obtain ⟨body, accepted⟩ := parse_of_isOk (show (parse openBranch).isOk = true by decide +kernel)
  obtain ⟨rest, below⟩ := parse_of_isOk (show (parse "say else".toList).isOk = true by decide +kernel)
  exact ⟨body, rest, accepted, below, (parse_append accepted (by decide +kernel)).1 rest below⟩

end Primer
