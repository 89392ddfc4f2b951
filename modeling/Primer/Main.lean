import Primer.CommandLine

/-! The command as an executable: it reads one file, if it needs one, and writes
what the command's result says. -/
namespace Primer.CommandLine

/-- What a failed look at a path says about it. A system call reports its error by
number or by the negative of the number. -/
def Entry.ofError : IO.Error → Entry
  | .inappropriateType _ code _ => if code = 21 || code = 0 - 21 then .directory else .missing
  | .invalidArgument _ code _ => if code = 36 || code = 0 - 36 then .tooLong else .missing
  | _ => .missing

def lookAt (path : String) : IO Entry := do
  try
    return .file (← IO.FS.readBinFile path).toList
  catch e => return .ofError e

def Result.act (r : Result) : IO UInt32 := do
  for (path, content) in r.created do
    IO.FS.writeFile path content
  IO.print r.stdout
  IO.eprint r.stderr
  match r.status with
  | .ok status => return status.toUInt32
  | .error f =>
    IO.eprintln f.message
    return 1

def act (args : List String) : IO UInt32 := do
  match Options.parse args >>= fun o => o.task with
  | .error stop => stop.result.act
  | .ok task =>
    let entry ← lookAt task.path
    let target ← match task.target? with
      | some path => lookAt path
      | none => pure .missing
    (run nestingLimit args fun path => if path = task.path then entry else target).act

end Primer.CommandLine

def main (args : List String) : IO UInt32 := Primer.CommandLine.act args
