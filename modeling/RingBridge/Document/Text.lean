import RingBridge.Code.Name
import RingBridge.Document
import RingBridge.Value.Key
/-!
Names and types as text. Those of a document from data may be any values; one is an error as soon as code depends
on it, and not before.
-/
namespace RingBridge

/-- What is found where text is needed. A name that is a list or a record is an error where names are compared. -/
inductive TextError where
  | name (found : Value)
  | compound (found : Value)
  | param (found : Value)
  | type (found : Value)
  | modulePrefix (found : Value)
  | comment (found : Value)

namespace Document

def nameText : Value → Except TextError String
  | .text s => .ok s
  | v => .error (.name v)

def typeText : Value → Except TextError String
  | .text s => .ok s
  | v => .error (.type v)

def nameKey (v : Value) : Except TextError Key :=
  match v.key? with
  | some k => .ok k
  | none => .error (.compound v)

def paramText : Value → Except TextError String
  | .text s => .ok s
  | v => do
    -- The name is compared with the names that are taken before it is used as text.
    let _ ← nameKey v
    throw (.param v)

def paramTypes (ps : List (Param Value)) : Except TextError (List String) := ps.mapM fun p => typeText p.type

def paramNames (ps : List (Param Value)) : Except TextError (List String) := ps.mapM fun p => paramText p.name

def functionText (f : Function Value) : Except TextError (Function String) := do
  let name ← nameText f.name
  -- A type that is no text is found before any name of a parameter.
  let types ← paramTypes f.params
  let result ← f.result.mapM typeText
  let names ← paramNames f.params
  return ⟨name, List.zipWith Param.mk names types, result, f.isPublic, f.receiver, f.comment⟩

def joinedPrefix (d : Document Value) : Option String → Except TextError String
  | some p => .ok (Name.joining p)
  | none =>
    match d.modulePrefix with
    | .text s => .ok (Name.joining s)
    | v => if v.isTrue then .error (.modulePrefix v) else .ok ""

end Document
end RingBridge
