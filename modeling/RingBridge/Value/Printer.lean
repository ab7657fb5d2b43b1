import RingBridge.Value
/-!
JSON text of a value in ASCII, on one line or indented by two blanks for each level.
-/
namespace RingBridge.Value

def escapeUnit (n : Nat) : List Char := '\\' :: 'u' :: hexDigits 4 n

def escapeChar (c : Char) : List Char :=
  if c == '"' || c == '\\' then ['\\', c]
  else if c == '\n' then ['\\', 'n']
  else if c == '\r' then ['\\', 'r']
  else if c == '\t' then ['\\', 't']
  else if c.toNat == 8 then ['\\', 'b']
  else if c.toNat == 12 then ['\\', 'f']
  else if ' ' ≤ c && c ≤ '~' then [c]
  else if c.toNat < 0x10000 then escapeUnit c.toNat
  else escapeUnit (0xD800 + (c.toNat - 0x10000) / 0x400) ++ escapeUnit (0xDC00 + (c.toNat - 0x10000) % 0x400)

def jsonText (s : String) : String := String.ofList ('"' :: s.toList.flatMap escapeChar ++ ['"'])

def jsonReal : Binary64 → String
  | .finite negative m e => Binary64.finiteText negative m e
  | .infinite true => "-Infinity"
  | .infinite false => "Infinity"
  | .nan => "NaN"

mutual

def compact : Value → String
  | null => "null"
  | boolean true => "true"
  | boolean false => "false"
  | integer n => toString n
  | real r => jsonReal r
  | text s => jsonText s
  | list xs => "[" ++ ",".intercalate (compactEach xs) ++ "]"
  | record fs => "\x7b" ++ ",".intercalate (compactFields fs) ++ "\x7d"

def compactEach : List Value → List String
  | [] => []
  | v :: vs => compact v :: compactEach vs

def compactFields : List (String × Value) → List String
  | [] => []
  | (k, v) :: fs => (jsonText k ++ ":" ++ compact v) :: compactFields fs

end

def breakTo (depth : Nat) : String := String.ofList ('\n' :: List.replicate (2 * depth) ' ')

def enclose (opener closer : String) (depth : Nat) : List String → String
  | [] => opener ++ closer
  | xs => opener ++ breakTo (depth + 1) ++ ("," ++ breakTo (depth + 1)).intercalate xs ++ breakTo depth ++ closer

mutual

def indented (depth : Nat) : Value → String
  | null => "null"
  | boolean true => "true"
  | boolean false => "false"
  | integer n => toString n
  | real r => jsonReal r
  | text s => jsonText s
  | list xs => enclose "[" "]" depth (indentedEach (depth + 1) xs)
  | record fs => enclose "\x7b" "\x7d" depth (indentedFields (depth + 1) fs)

def indentedEach (depth : Nat) : List Value → List String
  | [] => []
  | v :: vs => indented depth v :: indentedEach depth vs

def indentedFields (depth : Nat) : List (String × Value) → List String
  | [] => []
  | (k, v) :: fs => (jsonText k ++ ": " ++ indented depth v) :: indentedFields depth fs

end

end RingBridge.Value
