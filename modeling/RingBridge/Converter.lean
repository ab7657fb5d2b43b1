import RingBridge.Answer
import RingBridge.Binding
import RingBridge.Handle
import RingBridge.Shape.Classify
import RingBridge.Text.Replace
/-!
Conversion of types: by a handler where one is registered for the spelling, by shape elsewhere.
-/
namespace RingBridge
open Spelling

/-- Where a handler is asked for code: the argument position (0 for results), the variable, the type as it is
    written, and the prefix of the module. -/
structure Site where
  idx : Int
  var : String
  type : String
  modulePrefix : String

structure Handler where
  bind : Site → Binding
  answer : Site → Code
  kind : String

structure Template where
  checks : List String := []
  gets : List String := []
  arg : String := "\x7bvar\x7d"
  answer : String := ""
  kind : String := ""

namespace Template

def tagPlace : String := "\x7btag\x7d"

/-- Fills the places of a site in order; the tag comes last, and only where it is asked for. -/
def fill (site : Site) (text : String) : String × List String :=
  let text := Text.replace "\x7bidx\x7d" (toString site.idx) text
  let text := Text.replace "\x7bvar\x7d" site.var text
  let text := Text.replace "\x7btype\x7d" site.type text
  let text := Text.replace "\x7bprefix\x7d" site.modulePrefix text
  if Text.occursIn tagPlace.toList text.toList then
    (Text.replace tagPlace (Name.tag site.type) text, [site.type])
  else (text, [])

def stmt (site : Site) (text : String) : Stmt := .verbatim (fill site text).1 (fill site text).2

def handler (t : Template) : Handler where
  bind site := {
    checks := t.checks.map (stmt site)
    gets := t.gets.map fun g => .line (stmt site g)
    arg := .verbatim (fill site t.arg).1 (fill site t.arg).2 }
  answer site := .line (stmt site t.answer)
  kind := t.kind

end Template

structure Converter where
  modulePrefix : String := ""
  handlers : Table (List Char) Handler := {}

namespace Converter

def register (c : Converter) (type : String) (h : Handler) : Converter :=
  { c with handlers := c.handlers.put (normalize type.toList) h }

def handler? (c : Converter) (type : String) : Option Handler := c.handlers.find? (normalize type.toList)

def hasHandler (c : Converter) (type : String) : Bool := c.handlers.contains (normalize type.toList)

def resultHandler? (c : Converter) : Option String → Option (String × Handler)
  | some type => if type.isEmpty then none else (c.handler? type).map fun h => (type, h)
  | none => none

def bind (c : Converter) (type name : String) (idx : Int) (shape : Option Shape := none) : Binding :=
  match c.handler? type with
  | some h => h.bind ⟨idx, name, type, c.modulePrefix⟩
  | none => .ofShape name idx (shape.getD (.ofSpelling type))

def shapeOf (type : Option String) (shape : Option Shape) : Option Shape :=
  shape.or (type.map .ofSpelling)

def answer (c : Converter) (type : Option String) (call : Call) (shape : Option Shape := none)
    (n : NameScope := {}) : Code × NameScope :=
  match c.resultHandler? type with
  | some (type, h) =>
    let (result, n) := n.fresh "result"
    (.seq (.line (.bindCall result call)) (.fragment (h.answer ⟨0, result, type, c.modulePrefix⟩)), n)
  | none => Answer.ofCall (shapeOf type shape) call n

def kindText (c : Converter) (type : Option String) (shape : Option Shape := none) : String :=
  match c.resultHandler? type with
  | some (_, h) => h.kind
  | none => Shape.kindText? (shapeOf type shape)

end Converter
end RingBridge
