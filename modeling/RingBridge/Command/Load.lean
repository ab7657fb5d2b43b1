import RingBridge.Command.Failure
import RingBridge.Source.Item
import RingBridge.Text.LineEnd
/-!
Inputs of the command: JSON documents by their extension, source text under any other name.
-/
namespace RingBridge.Command

structure Loading where
  document : Except Failure (Document Value)
  notices : List Source.Notice := []

def loadJson (path : String) (text : List Char) : Except Failure (Document Value) :=
  match Value.ofJson text with
  | .error e => .error (.json path e.cause (e.line text))
  | .ok v => (Document.ofValue v).mapError .document

def loadSource (path : String) (text : List Char) : Loading :=
  let r := Source.readSource (String.ofList text) (Path.moduleName path)
  ⟨(r.document.map fun d => d.map Value.text).mapError .source, r.notices⟩

def isJson (path : String) : Bool := ".json".toList.isSuffixOf path.toList

def load (path text : String) : Loading :=
  let text := Text.unifyLineEnds text.toList
  if isJson path then ⟨loadJson path text, []⟩ else loadSource path text

end RingBridge.Command
