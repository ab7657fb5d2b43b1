import RingBridge.Code.Expr
import RingBridge.Layout
/-!
Statements and structured code of a wrapper body, and their layout on a page.
-/
namespace RingBridge
open Layout

/-- A value on its way to the scripting side. A pointer gives up its box. -/
inductive Outgoing where
  | number (value : Expr)
  | truth (value : Expr)
  | text (value : Expr)
  | pointer (box : Expr) (struct : String)

inductive Stmt where
  | verbatim (code : String) (structs : List String)
  | checkCount (count : Nat)
  | check (kind : Kind) (idx : Int)
  | bind (mutable : Bool) (name : String) (value : Expr)
  | bindViews (mutable : Bool) (name vec : String)
  | bindTuple (names : List String) (value : Expr)
  | bindCall (name : String) (call : Call)
  | perform (call : Call)
  | push (vec : String) (value : Expr)
  | yield (value : Expr)
  | invalidPointer (struct : String)
  | leave
  | free (ptr struct : String)
  | clearHandle
  | answer (value : Outgoing)
  | answerList (list : String)
  | append (list : String) (value : Outgoing)
  | appendHole (list : String)

inductive Missing where
  | nothing
  | hole (list : String)
  | raise (error : String)

/-- Code of a wrapper body. `letIf` and `letChain` bind a name to the value that the branch taken yields. -/
inductive Code where
  | skip
  | line (stmt : Stmt)
  | seq (first second : Code)
  | fragment (body : Code)
  | when (test : Test) (body : Code)
  | letIf (name : String) (test : Test) (yes no : Code)
  | letChain (name : String) (test₁ : Test) (yes₁ : Code) (test₂ : Test) (yes₂ no : Code)
  | items (index list : String) (body : Code)
  | each (name : String) (value : Expr) (body : Code)
  | eachPair (key value : String) (source : Expr) (body : Code)
  | matchOption (value : Expr) (name : String) (body : Code) (missing : Missing)
  | matchResult (value : Expr) (name : String) (body : Code) (missing : Missing)
  | matchDone (value : Expr) (missing : Missing)
  | receive (name struct : String)

namespace Outgoing

def answerCode : Outgoing → String
  | number e => s!"ring_ret_number!(p, {e.code} as f64);"
  | truth e => s!"ring_ret_number!(p, if {e.code} \x7b 1.0 \x7d else \x7b 0.0 \x7d);"
  | text e => s!"ring_ret_string!(p, &{e.code});"
  | pointer b struct => s!"ring_ret_cpointer!(p, Box::into_raw({b.code}), {Name.tag struct});"

def appendCode (target : String) : Outgoing → String
  | number e => s!"ring_list_adddouble({target}, {e.code} as f64);"
  | truth e => s!"ring_list_adddouble({target}, if {e.code} \x7b 1.0 \x7d else \x7b 0.0 \x7d);"
  | text e => s!"ring_list_addstring_str({target}, &{e.code});"
  | pointer b struct =>
    s!"ring_list_addcpointer({target}, Box::into_raw({b.code}) as *mut std::ffi::c_void, {Name.tag struct});"

def structs : Outgoing → List String
  | number e | truth e | text e => e.structs
  | pointer b struct => b.structs ++ [struct]

end Outgoing

namespace Stmt

def letCode (mutable : Bool) : String := if mutable then "let mut" else "let"

def tuplePattern : List String → String
  | [n] => s!"({n},)"
  | ns => "(" ++ ", ".intercalate ns ++ ")"

def code : Stmt → String
  | verbatim c _ => c
  | checkCount n => s!"ring_check_paracount!(p, {n});"
  | check k idx => s!"{k.check}(p, {idx});"
  | bind m name e => s!"{letCode m} {name} = {e.code};"
  | bindViews m name vec => s!"{letCode m} {name}: Vec<&str> = {(Expr.views vec).code};"
  | bindTuple names e => s!"let {tuplePattern names} = {e.code};"
  | bindCall name call => s!"let {name} = {call.code};"
  | perform call => s!"{call.code};"
  | push vec e => s!"{vec}.push({e.code});"
  | yield e => e.code
  | invalidPointer struct => "ring_error!(p, " ++ quoteLiteral s!"Invalid {struct} pointer" ++ ");"
  | leave => "return;"
  | free ptr struct => s!"unsafe \x7b let _ = Box::from_raw({ptr} as *mut {struct}); \x7d"
  | clearHandle => "ring_api_setnullpointer(p, 1);"
  | answer v => v.answerCode
  | answerList l => s!"ring_ret_list!(p, {l});"
  | append l v => v.appendCode l
  | appendHole l => s!"ring_list_newitem({l});"

def structs : Stmt → List String
  | verbatim _ ss => ss
  | bind _ _ e | bindTuple _ e | push _ e | yield e => e.structs
  | bindCall _ call | perform call => call.structs
  | answer v | append _ v => v.structs
  | _ => []

end Stmt

def Missing.code (pattern : String) : Missing → String
  | nothing => pattern ++ " => \x7b\x7d"
  | hole l => s!"{pattern} => ring_list_newitem({l}),"
  | raise e => s!"{pattern} => ring_error!(p, &format!(\"\x7b\x7d\", {e})),"

def Missing.errorPattern : Missing → String
  | raise e => s!"Err({e})"
  | _ => "Err(_)"

namespace Code

def ofList : List Code → Code
  | [] => skip
  | [c] => c
  | c :: cs => seq c (ofList cs)

def lines (ss : List Stmt) : Code := ofList (ss.map line)

def reject (struct : String) : Code := seq (line (.invalidPointer struct)) (line .leave)

def turn (header : String) : List Op := [.dedent, .line header, .indent]

def ops : Code → List Op
  | skip => []
  | line s => [.line s.code]
  | seq a b => a.ops ++ b.ops
  | fragment c => [.splice (write c.ops)]
  | when t c => .enter s!"if {t.code} \x7b" "\x7d" :: c.ops ++ [.leave]
  | letIf x t a b =>
    .enter s!"let {x} = if {t.code} \x7b" "\x7d;" :: a.ops ++ turn "\x7d else \x7b" ++ b.ops ++ [.leave]
  | letChain x t₁ a₁ t₂ a₂ b =>
    .enter s!"let {x} = if {t₁.code} \x7b" "\x7d;" :: a₁.ops ++ turn s!"\x7d else if {t₂.code} \x7b" ++ a₂.ops
      ++ turn "\x7d else \x7b" ++ b.ops ++ [.leave]
  | items i l c => .enter s!"for {i} in 1..=ring_list_getsize({l}) \x7b" "\x7d" :: c.ops ++ [.leave]
  | each x e c => .enter s!"for {x} in {e.code} \x7b" "\x7d" :: c.ops ++ [.leave]
  | eachPair k v e c => .enter s!"for ({k}, {v}) in {e.code} \x7b" "\x7d" :: c.ops ++ [.leave]
  | matchOption e x c m =>
    [.enter s!"match {e.code} \x7b" "\x7d", .enter s!"Some({x}) => \x7b" "\x7d"] ++ c.ops
      ++ [.leave, .line (m.code "None"), .leave]
  | matchResult e x c m =>
    [.enter s!"match {e.code} \x7b" "\x7d", .enter s!"Ok({x}) => \x7b" "\x7d"] ++ c.ops
      ++ [.leave, .line (m.code m.errorPattern), .leave]
  | matchDone e m =>
    [.enter s!"match {e.code} \x7b" "\x7d", .line "Ok(_) => \x7b\x7d", .line (m.code m.errorPattern), .leave]
  | receive x struct =>
    [.enter s!"let {x} = match ring_get_pointer!(p, 1, {struct}, {Name.tag struct}) \x7b" "\x7d;",
      .line s!"Some({x}) => {x},", .enter "None => \x7b" "\x7d", .line (Stmt.invalidPointer struct).code,
      .line Stmt.leave.code, .leave, .leave]

def text (c : Code) : String := write c.ops

def structs : Code → List String
  | skip => []
  | line s => s.structs
  | seq a b | letIf _ _ a b => a.structs ++ b.structs
  | fragment c | when _ c | items _ _ c => c.structs
  | each _ e c | eachPair _ _ e c | matchOption e _ c _ | matchResult e _ c _ => e.structs ++ c.structs
  | matchDone e _ => e.structs
  | letChain _ _ a₁ _ a₂ b => a₁.structs ++ a₂.structs ++ b.structs
  | receive _ struct => [struct]

end Code
end RingBridge
