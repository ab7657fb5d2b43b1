import RingBridge.Number.Binary64
import RingBridge.Table
import RingBridge.Text.Printable
/-!
Values of a JSON document, their truth, and the text that shows them in a message.
-/
namespace RingBridge

inductive Value where
  | null
  | boolean (b : Bool)
  | integer (n : Int)
  | real (r : Binary64)
  | text (s : String)
  | list (items : List Value)
  | record (fields : List (String × Value))
deriving Inhabited

namespace Value

/-- Null, zero and everything empty count as false. -/
def isTrue : Value → Bool
  | null => false
  | boolean b => b
  | integer n => n != 0
  | real r => !r.isZero
  | text s => !s.isEmpty
  | list xs => !xs.isEmpty
  | record fs => !fs.isEmpty

def field? (fields : List (String × Value)) (key : String) : Option Value :=
  (fields.find? fun f => f.1 = key).map (·.2)

def hexDigits (width n : Nat) : List Char :=
  let ds := Nat.toDigits 16 n
  List.replicate (width - ds.length) '0' ++ ds

def displayChar (quote c : Char) : List Char :=
  if c == quote || c == '\\' then ['\\', c]
  else if c == '\n' then ['\\', 'n']
  else if c == '\r' then ['\\', 'r']
  else if c == '\t' then ['\\', 't']
  else if Text.isPrintable c then [c]
  else if c.toNat < 0x100 then '\\' :: 'x' :: hexDigits 2 c.toNat
  else if c.toNat < 0x10000 then '\\' :: 'u' :: hexDigits 4 c.toNat
  else '\\' :: 'U' :: hexDigits 8 c.toNat

def displayText (s : String) : String :=
  let quote := if s.toList.contains '\'' && !s.toList.contains '"' then '"' else '\''
  String.ofList (quote :: s.toList.flatMap (displayChar quote) ++ [quote])

def displayReal : Binary64 → String
  | .finite negative m e => Binary64.finiteText negative m e
  | .infinite true => "-inf"
  | .infinite false => "inf"
  | .nan => "nan"

mutual

def display : Value → String
  | null => "None"
  | boolean true => "True"
  | boolean false => "False"
  | integer n => toString n
  | real r => displayReal r
  | text s => displayText s
  | list xs => "[" ++ ", ".intercalate (displayEach xs) ++ "]"
  | record fs => "\x7b" ++ ", ".intercalate (displayFields fs) ++ "\x7d"

def displayEach : List Value → List String
  | [] => []
  | v :: vs => display v :: displayEach vs

def displayFields : List (String × Value) → List String
  | [] => []
  | (k, v) :: fs => (displayText k ++ ": " ++ display v) :: displayFields fs

end

def plain : Value → String
  | text s => s
  | v => display v

end Value
end RingBridge
