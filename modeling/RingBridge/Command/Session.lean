import RingBridge.Command.Run
/-!
Runs over a tree of files in memory. What was done before a failure stays.
-/
namespace RingBridge.Command

structure Session where
  files : Files := {}
  printed : List String := []

abbrev Session.Run := EStateM Failure Session

namespace Session

def print (s : Session) (line : String) : Session := { s with printed := s.printed ++ [line] }

def output (s : Session) : String := "".intercalate (s.printed.map (· ++ "\n"))

def Run.readText (path : String) : Run String := fun s =>
  match s.files.read path with
  | .ok text => .ok text s
  | .error f => .error (.file f) s

def Run.writeText (path text : String) : Run Unit := fun s =>
  match s.files.write path text with
  | .ok files => .ok () { s with files }
  | .error f => .error (.file f) s

def Run.attempt {α : Type} (run : Run α) : Run (Except Failure α) := fun s =>
  match run s with
  | .ok a s => .ok (.ok a) s
  | .error f s => .ok (.error f) s

instance : Host Run where
  isPresent path s := .ok (s.files.isPresent path) s
  readText := Run.readText
  writeText := Run.writeText
  printLine line s := .ok () (s.print line)
  fail f s := .error f s
  attempt := Run.attempt

end Session

/-- How a run over files in memory ends: its exit code or a failure without a report, and what it leaves. -/
def executeOn (files : Files) (o : Options) : Except Failure UInt32 × Session :=
  match execute (m := Session.Run) o { files } with
  | .ok code s => (.ok code, s)
  | .error f s => (.error f, s)

end RingBridge.Command
