import RingBridge.Converter
import RingBridge.Document
/-!
Wrappers: the functions that the scripting side calls, with what is registered for each. The checks of all
arguments come before any of them is read.
-/
namespace RingBridge
open Code Layout

structure Registration where
  name : String
  wrapper : String
  params : List (String × String) := []
  result : String := "nothing"
  owner : Option String := none
  comment : Value := .text ""

/-- A wrapper in its parts. With a receiver, the first argument is a handle to that struct. -/
structure Wrapper where
  registration : Registration
  count : Nat
  receiver : Option String := none
  bindings : List Binding := []
  answer : Code

namespace Wrapper

def receiverChecks : Option String → List Stmt
  | some _ => [.check .pointer 1]
  | none => []

def receive : Option String → Code
  | some struct => .receive "obj" struct
  | none => .skip

def body (w : Wrapper) : Code :=
  .seq (Code.lines (.checkCount w.count :: receiverChecks w.receiver ++ w.bindings.flatMap Binding.checks))
    (.seq (receive w.receiver)
      (.seq (.ofList ((w.bindings.flatMap Binding.gets).map .fragment)) w.answer))

/-- The structs whose tags a wrapper uses: first those of its bindings, then the receiver, then the answer. -/
def structs (w : Wrapper) : List String :=
  w.bindings.flatMap Binding.structs ++ (receive w.receiver).structs ++ w.answer.structs

def ops (w : Wrapper) : List Op :=
  .enter ("ring_func!(" ++ w.registration.wrapper ++ ", |p| \x7b") "\x7d);" :: w.body.ops ++ [.leave, .line ""]

def text (w : Wrapper) : String := write w.ops

def isReserved (name : String) : Bool := ["p", "obj", "ptr", "_"].contains name

def isLocalName (cs : List Char) : Bool :=
  Text.isPlainName cs || (cs.getLast? == some '\n' && Text.isPlainName cs.dropLast)

/-- The local variable of a parameter: its name, or one made from the position where the name cannot be used. -/
def localName (name : String) (idx : Int) : String :=
  if isReserved name || "__".toList.isPrefixOf name.toList || !isLocalName name.toList then s!"__arg{idx}"
  else name

/-- What a wrapper is made for. Shapes stand beside the parameters in order. -/
structure Operation where
  exported : String
  params : List (Param String) := []
  shapes : List Shape := []
  call : List Expr → Call
  result : Option String := none
  resultShape : Option Shape := none
  struct : Option String := none
  takesReceiver : Bool := false
  comment : Value := .text ""

namespace Operation

/-- The struct of the receiver; a struct without a name has no handle. -/
def receiver (o : Operation) : Option String :=
  if o.takesReceiver then o.struct.filter fun s => !s.isEmpty else none

def offset (o : Operation) : Nat := if o.receiver.isSome then 1 else 0

def bindings (c : Converter) (offset : Nat) (params : List (Param String × Shape)) : List Binding :=
  params.zipIdx.map fun ((p, s), i) =>
    let idx := i + 1 + offset
    c.bind p.type (localName p.name idx) idx (some s)

def selfParam : Option String → List (String × String)
  | some s => [("self", s ++ " pointer")]
  | none => []

def registration (c : Converter) (o : Operation) : Registration where
  name := o.exported
  wrapper := Name.wrapper o.exported
  params := selfParam o.receiver
    ++ (o.params.zip o.shapes).map fun (p, s) => (p.name, c.kindText (some p.type) (some s))
  result := c.kindText o.result (Converter.shapeOf o.result o.resultShape)
  owner := o.struct
  comment := o.comment

def wrapper (c : Converter) (o : Operation) : Wrapper :=
  let bindings := bindings c o.offset (o.params.zip o.shapes)
  { registration := registration c o
    count := o.params.length + o.offset
    receiver := o.receiver
    bindings
    answer := (c.answer o.result (o.call (bindings.map Binding.arg)) (Converter.shapeOf o.result o.resultShape)).1 }

end Operation

end Wrapper
end RingBridge
