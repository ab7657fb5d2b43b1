import RingBridge.Command.Run
/-!
The command over the files of the system.
-/
namespace RingBridge.Command

abbrev SystemRun := ExceptT Failure IO

namespace SystemRun

def fault? : IO.Error → Option FileFault
  | .noFileOrDirectory .. | .noSuchThing .. => some .missing
  | .inappropriateType .. => some .directory
  | _ => none

def ofSystem {α : Type} (action : IO α) : SystemRun α := ExceptT.mk do
  match ← action.toBaseIO with
  | .ok a => return .ok a
  | .error e =>
    match fault? e with
    | some f => return .error (.file f)
    | none => throw e

def isPresent (path : String) : SystemRun Bool := ExceptT.mk do
  match ← (IO.FS.realPath path).toBaseIO with
  | .ok _ => return .ok true
  | .error _ => return .ok false

instance : Host SystemRun where
  isPresent := isPresent
  readText path := ofSystem (IO.FS.readFile path)
  writeText path text := ofSystem (IO.FS.writeFile path text)
  printLine line := ofSystem (IO.println line)
  fail f := throw f
  attempt run := ExceptT.mk (Except.ok <$> run.run)

end SystemRun

def usage : String :=
  "usage: ring-bridge INPUT [-o OUTPUT] [--prefix PREFIX] [--ignore NAME ...] [--docs PATH] [--dump-ir PATH]"

end RingBridge.Command

open RingBridge Command in
/-- Exit codes: 0 after a run, 1 after a failure, 2 for options that make no sense. -/
def main (args : List String) : IO UInt32 := do
  match Options.parse args with
  | .error .help =>
    IO.println usage
    return 0
  | .error _ =>
    IO.eprintln usage
    return 2
  | .ok o =>
    match ← (execute (m := SystemRun) o).run with
    | .ok code => return code
    | .error _ =>
      IO.eprintln "the run ended early: a file could not be opened, or the document is malformed"
      return 1
