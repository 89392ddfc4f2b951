import Primer.Datum
import Primer.Position
import Primer.Problem

/-! The ways in which reading or running a program can fail, and diagnostics as they
are shown. A diagnostic says what went wrong and where; a report is its text, with the
source line when the source is at hand. -/
namespace Primer

/-- A problem and where it arose. The offset is null where no statement gave
one, and the context is a snippet made when the source was at hand. -/
structure Diagnostic where
  problem : Problem
  offset : Datum
  context : Option String
  deriving Repr

inductive Failure
  | diagnostic (d : Diagnostic)
  | fault (f : Fault)
  /-- The nesting of statements under execution went past its limit. -/
  | tooDeep
  deriving Repr

/-- A problem found while running, before a statement gave it an offset. -/
def Failure.ofProblem (p : Problem) : Failure := .diagnostic ⟨p, .null, none⟩

structure Report where
  name : String
  message : String
  offset : Datum
  context : Option String
  deriving Repr

def Diagnostic.report (d : Diagnostic) : Report :=
  ⟨d.problem.kind.name, d.problem.message, d.offset, d.context⟩

namespace Report

def headline (r : Report) : String := s!"{r.name}: {r.message}"

/-- The context of a report, unless it is empty. -/
def context? (r : Report) : Option String := r.context.filter fun c => !c.isEmpty

/-- The whole text of a report. A source gives it a place, if it has an offset;
a context made earlier is preferred to a new one. -/
def format (r : Report) (source : Option (List Char)) : String :=
  match r.offset, source with
  | .int offset, some source =>
    let place := placeOf source offset
    s!"{r.headline}\n  at line {place.line}, column {place.column}\n" ++
      r.context?.getD (snippet source offset)
  | _, _ =>
    match r.context? with
    | some context => r.headline ++ "\n" ++ context
    | none => r.headline

def inspect (r : Report) : Except Fault String := do
  return s!"Error(name={quoted r.name}, message={quoted r.message}, offset=" ++
    (← r.offset.inspect) ++ ")"

def summary (r : Report) : String := s!"KinderError: {r.headline}"

/-- A report on a place in a source, which is at most its end. -/
def locate (source : List Char) (name message : String) (offset : Int) : Report :=
  let offset := min offset source.length
  ⟨name, message, .int offset, some (snippet source offset)⟩

end Report
end Primer
