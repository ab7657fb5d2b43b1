import RingBridge.Text.Blank
/-!
Pages of indented lines and the operations that write them. A splice keeps the relative indentation of the lines
it adds; leaving the outermost level does nothing.
-/
namespace RingBridge.Layout

inductive Op where
  | line (text : String)
  | splice (text : String)
  | indent
  | dedent
  | enter (header footer : String)
  | leave
deriving DecidableEq

/-- Lines written so far, the current level, and the footers of the blocks that are open. -/
structure Page where
  lines : Array String := #[]
  depth : Nat := 0
  footers : List String := []

def indentation (depth : Nat) : String := String.ofList (List.replicate (4 * depth) ' ')

def placed (depth : Nat) (text : String) : String :=
  if text.isEmpty then "" else indentation depth ++ text

namespace Page

def addLine (p : Page) (text : String) : Page := { p with lines := p.lines.push (placed p.depth text) }

def spliced (text : String) : List String :=
  if text.isEmpty then [] else (Text.lines text.toList).map String.ofList

def step (p : Page) : Op → Page
  | .line text => p.addLine text
  | .splice text => (spliced text).foldl addLine p
  | .indent => { p with depth := p.depth + 1 }
  | .dedent => { p with depth := p.depth - 1 }
  | .enter header footer =>
    { p.addLine header with depth := p.depth + 1, footers := footer :: p.footers }
  | .leave =>
    match p.footers with
    | [] => p
    | footer :: rest => { p with depth := p.depth - 1, footers := rest }.addLine footer

def run (p : Page) (ops : List Op) : Page := ops.foldl step p

def text (p : Page) : String := "\n".intercalate p.lines.toList

theorem run_append (p : Page) (u v : List Op) : p.run (u ++ v) = (p.run u).run v := List.foldl_append ..

end Page

def write (ops : List Op) : String := (Page.run {} ops).text

end RingBridge.Layout
