import RingBridge.Document.Reading
import RingBridge.Document.Text
import RingBridge.Files
import RingBridge.Source.Cursor
import RingBridge.Value.Reader
/-!
What can end a run. Failures of the input are reported with their place; the others are mistakes in a document that
are not looked for, or files that cannot be opened.
-/
namespace RingBridge

inductive Failure where
  | noSuchFile (path : String)
  | json (path : String) (cause : Value.SyntaxCause) (line : Nat)
  | document (e : DocumentError)
  | source (f : Source.Fault)
  | text (e : TextError)
  | file (f : FileFault)

structure Report where
  text : String
  line : Option Nat := none

def Report.message (r : Report) : String :=
  match r.line with
  | some n => "line " ++ toString n ++ ": " ++ r.text
  | none => r.text

namespace Failure

def report? : Failure → Option Report
  | noSuchFile path => some ⟨path ++ ": no such file", none⟩
  | json path cause line => some ⟨path ++ ": " ++ cause.message, some line⟩
  | document e => e.message?.map fun text => ⟨text, none⟩
  | source (.error cause line) => some ⟨cause.message, some line⟩
  | source .noGroup | source .nothingLeft | text _ | file _ => none

end Failure
end RingBridge
