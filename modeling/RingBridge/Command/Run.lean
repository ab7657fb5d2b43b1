import RingBridge.Command.Load
import RingBridge.Command.Options
import RingBridge.Document.Writing
import RingBridge.Module.Reference
import RingBridge.Value.Printer
/-!
The run of the command, over any surroundings that hold files and take lines of output. The document is written
out first, if that is asked for; then the input is read anew, and its code and its reference are written.
-/
namespace RingBridge.Command

class Host (m : Type → Type) extends Monad m where
  isPresent (path : String) : m Bool
  readText (path : String) : m String
  writeText (path text : String) : m Unit
  printLine (line : String) : m Unit
  fail {α : Type} (f : Failure) : m α
  attempt {α : Type} (run : m α) : m (Except Failure α)

section
variable {m : Type → Type} [Host m]
open Host

def orFail {α : Type} : Except Failure α → m α
  | .ok a => pure a
  | .error f => fail f

def printLines : List String → m Unit
  | [] => pure ()
  | line :: r => do printLine line; printLines r

def readInput (path : String) : m (Document Value) := do
  if ← isPresent path then
    let l := load path (← readText path)
    printLines (l.notices.map Source.Notice.text)
    orFail l.document
  else fail (.noSuchFile path)

def given? (option : Option String) : Option String := option.filter fun s => !s.isEmpty

namespace Options

def settings (o : Options) : Settings := Settings.ignore {} o.ignored

def outputPath (o : Options) : String := (given? o.output).getD (Path.defaultOutput o.input)

def prefixed (o : Options) (d : Document Value) : Document Value :=
  match o.modulePrefix with
  | some p => { d with modulePrefix := .text p }
  | none => d

end Options

def documentText (d : Document Value) : String := d.toValue.indented 0 ++ "\n"

def dump (o : Options) (path : String) : m Unit := do
  let d ← readInput o.input
  writeText path (documentText (o.prefixed d))

def arrow (source target : String) : String := "  " ++ source ++ " => " ++ target

def writeReference (path : String) (r : Except TextError String) : m Unit := do
  match r with
  | .ok text => writeText path text
  | .error e =>
    writeText path ""
    fail (.text e)

def generate (o : Options) : m Unit := do
  printLine "=== Generating Ring bindings:"
  let d ← readInput o.input
  printLine (arrow o.input o.outputPath)
  let r ← orFail ((o.settings.generate d o.modulePrefix).mapError .text)
  if r.registrations.isEmpty then printLine ("  >> warning: " ++ o.input ++ " has nothing to bind")
  writeText o.outputPath r.code
  match given? o.docs with
  | some path =>
    printLine (arrow o.input path)
    writeReference path (Reference.render r)
  | none => pure ()

def run (o : Options) : m Unit := do
  match given? o.dump with
  | some path => dump o path
  | none => pure ()
  generate o

def execute (o : Options) : m UInt32 := do
  match ← attempt (run o) with
  | .ok _ => pure 0
  | .error f =>
    match f.report? with
    | some r =>
      printLine ("Error: " ++ r.message)
      pure 1
    | none => fail f

end

end RingBridge.Command
