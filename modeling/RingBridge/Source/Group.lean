import RingBridge.Source.Lexer
/-!
Groups: the tokens between matching delimiters. A cell is a token that knows, if it opens a group, how many
tokens stand inside it.
-/
namespace RingBridge.Source

inductive Delimiter where
  | paren | bracket | brace
deriving DecidableEq, Repr

namespace Delimiter

def all : List Delimiter := [paren, bracket, brace]

def opening : Delimiter → String
  | paren => "("
  | bracket => "["
  | brace => "\x7b"

def closing : Delimiter → String
  | paren => ")"
  | bracket => "]"
  | brace => "\x7d"

end Delimiter

def isOpeningText (s : String) : Bool := Delimiter.all.any fun d => d.opening == s

def Token.opens? (t : Token) : Option Delimiter :=
  if t.kind = .punct then Delimiter.all.find? fun d => d.opening == t.text else none

def Token.closes? (t : Token) : Option Delimiter :=
  if t.kind = .punct then Delimiter.all.find? fun d => d.closing == t.text else none

structure Opening where
  index : Nat
  delimiter : Delimiter
  line : Nat
deriving DecidableEq

inductive GroupCause where
  | unmatched (closer : Delimiter)
  | crossed (opener : Opening) (closer : Delimiter)
  | unclosed (opener : Delimiter)
deriving DecidableEq

def GroupCause.message : GroupCause → String
  | unmatched d => "unmatched '" ++ d.closing ++ "'"
  | crossed o d => "'" ++ o.delimiter.opening ++ "' opened on line " ++ toString o.line ++ " closed by '" ++ d.closing ++ "'"
  | unclosed d => "unclosed '" ++ d.opening ++ "'"

structure GroupError where
  cause : GroupCause
  line : Nat
deriving DecidableEq

def groupsFrom (stack : List Opening) (index : Nat) : List Token → Except GroupError (List (Nat × Nat))
  | [] =>
    match stack with
    | [] => .ok []
    | o :: _ => .error ⟨.unclosed o.delimiter, o.line⟩
  | t :: ts =>
    match t.opens?, t.closes? with
    | some d, _ => groupsFrom (⟨index, d, t.line⟩ :: stack) (index + 1) ts
    | none, some d =>
      match stack with
      | [] => .error ⟨.unmatched d, t.line⟩
      | o :: rest =>
        if o.delimiter = d then
          match groupsFrom rest (index + 1) ts with
          | .ok pairs => .ok ((o.index, index) :: pairs)
          | .error e => .error e
        else .error ⟨.crossed o d, t.line⟩
    | none, none => groupsFrom stack (index + 1) ts

def groups (ts : List Token) : Except GroupError (List (Nat × Nat)) := groupsFrom [] 0 ts

/-- A token, with the number of tokens inside the group that it opens. -/
structure Cell where
  token : Token
  inside : Option Nat
deriving DecidableEq

def insideOf (pairs : List (Nat × Nat)) (index : Nat) : Option Nat :=
  (pairs.find? fun p => p.1 == index).map fun p => p.2 - p.1 - 1

def cells (ts : List Token) : Except GroupError (List Cell) :=
  match groups ts with
  | .ok pairs => .ok (ts.zipIdx.map fun (t, i) => ⟨t, insideOf pairs i⟩)
  | .error e => .error e

end RingBridge.Source
