import RingBridge.Document
/-!
Documents from data. What a key is missing for has a default; what has the wrong form is an error with its cause.
Declarations of a kind that is not known are passed over.
-/
namespace RingBridge

inductive Named where
  | struct | impl | function
deriving DecidableEq

def Named.text : Named → String
  | struct => "struct"
  | impl => "impl"
  | function => "function"

inductive Entry where
  | field (struct : String)
  | param (function : String)
deriving DecidableEq

def Entry.text : Entry → String
  | field s => "field of struct " ++ s
  | param f => "parameter of " ++ f

inductive DocumentError where
  | notRecord
  | declaration (found : Value)
  | unnamed (what : Named)
  | entry (what : Entry) (found : Value)
  | entryWithout (what : Entry) (key : String)
  | receiver (function : String) (found : Value)
  | notIterable
  | methodNotRecord

/-- The report of an error; two of them come from a mistake in the data that is not looked for. -/
def DocumentError.message? : DocumentError → Option String
  | notRecord => some "IR document must be a JSON object"
  | declaration v => some ("declaration must be an object, got " ++ v.display)
  | unnamed w => some (w.text ++ " declaration without a name")
  | entry e v => some (e.text ++ " must be an object, got " ++ v.display)
  | entryWithout e key => some (e.text ++ " without a " ++ key)
  | receiver f v => some (f ++ ": unknown receiver " ++ v.display)
  | notIterable | methodNotRecord => none

namespace Document

abbrev Fields := List (String × Value)

def fieldOr (fs : Fields) (key : String) (default : Value) : Value := (Value.field? fs key).getD default

def itemsOf : Value → Except DocumentError (List Value)
  | .list vs => .ok vs
  | .record fs => .ok (fs.map fun f => .text f.1)
  | .text s => .ok (s.toList.map fun c => .text (String.singleton c))
  | _ => .error .notIterable

def itemsAt (fs : Fields) (key : String) : Except DocumentError (List Value) := itemsOf (fieldOr fs key (.list []))

def nameOf (what : Named) (fs : Fields) : Except DocumentError Value :=
  let name := fieldOr fs "name" .null
  if name.isTrue then .ok name else .error (.unnamed what)

def entryOf (what : Entry) : Value → Except DocumentError (Param Value × Fields)
  | .record fs =>
    let name := fieldOr fs "name" .null
    let type := fieldOr fs "type" .null
    if !name.isTrue then .error (.entryWithout what "name")
    else if !type.isTrue then .error (.entryWithout what "type")
    else .ok (⟨name, type⟩, fs)
  | v => .error (.entry what v)

def fieldOf (struct : String) (v : Value) : Except DocumentError (Field Value) := do
  let (p, fs) ← entryOf (.field struct) v
  return ⟨p.name, p.type, fieldOr fs "public" (.boolean true)⟩

def paramOf (function : String) (v : Value) : Except DocumentError (Param Value) := do
  return (← entryOf (.param function) v).1

def structOf (fs : Fields) : Except DocumentError (Struct Value) := do
  let name ← nameOf .struct fs
  let fields ← (← itemsAt fs "fields").mapM (fieldOf name.plain)
  return ⟨name, fields, fieldOr fs "public" (.boolean true), fieldOr fs "comment" (.text "")⟩

def receiverOf (function : String) : Value → Except DocumentError Receiver
  | .text s =>
    match Receiver.ofName? s with
    | some r => .ok r
    | none => .error (.receiver function (.text s))
  | v => .error (.receiver function v)

def resultOf : Value → Option Value
  | .null => none
  | v => some v

def functionOf (fs : Fields) : Except DocumentError (Function Value) := do
  let name ← nameOf .function fs
  let params ← (← itemsAt fs "params").mapM (paramOf name.plain)
  let receiver ← receiverOf name.plain (fieldOr fs "receiver" (.text "none"))
  return ⟨name, params, resultOf (fieldOr fs "result" .null), fieldOr fs "public" (.boolean true), receiver,
    fieldOr fs "comment" (.text "")⟩

def methodOf : Value → Except DocumentError (Function Value)
  | .record fs => functionOf fs
  | _ => .error .methodNotRecord

def implOf (fs : Fields) : Except DocumentError (Impl Value) := do
  let name ← nameOf .impl fs
  let methods ← (← itemsAt fs "methods").mapM methodOf
  return ⟨name, methods⟩

def declarationOf : Value → Except DocumentError (Option (Declaration Value))
  | .record fs =>
    match fieldOr fs "kind" .null with
    | .text kind =>
      if kind = "struct" then return some (.struct (← structOf fs))
      else if kind = "impl" then return some (.impl (← implOf fs))
      else if kind = "func" then return some (.func (← functionOf fs))
      else return none
    | _ => return none
  | v => .error (.declaration v)

def ofValue : Value → Except DocumentError (Document Value)
  | .record fs => do
    let decls ← (← itemsAt fs "decls").mapM declarationOf
    return ⟨fieldOr fs "module" (.text ""), fieldOr fs "prefix" (.text ""), decls.filterMap id,
      fieldOr fs "comment" (.text "")⟩
  | _ => .error .notRecord

end Document
end RingBridge
