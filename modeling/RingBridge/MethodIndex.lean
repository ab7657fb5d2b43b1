import RingBridge.Document.Text
/-!
The methods of all impls of a document, whether public or not, by the base name of their struct.
-/
namespace RingBridge

structure MethodIndex where
  pairs : List (String × Key) := []

namespace MethodIndex

def add (m : MethodIndex) (struct : String) (method : Key) : MethodIndex :=
  let pair := (Spelling.baseName struct, method)
  if m.pairs.contains pair then m else ⟨m.pairs ++ [pair]⟩

def has (m : MethodIndex) (struct : String) (method : Key) : Bool := m.pairs.contains (Spelling.baseName struct, method)

def hasText (m : MethodIndex) (struct method : String) : Bool := m.has struct (.text method)

def hasNew (m : MethodIndex) (struct : String) : Bool := m.hasText struct "new"

def size (m : MethodIndex) : Nat := m.pairs.length

def addNamed (m : MethodIndex) (struct method : Value) : Except TextError MethodIndex := do
  return m.add (← Document.nameText struct) (← Document.nameKey method)

def ofDocument (d : Document Value) : Except TextError MethodIndex :=
  d.impls.foldlM (fun m i => i.methods.foldlM (fun m f => m.addNamed i.name f.name) m) {}

end MethodIndex
end RingBridge
