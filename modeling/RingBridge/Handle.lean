import RingBridge.Code
import RingBridge.Table
/-!
Handles: tagged pointers to structs on the heap, the constants that tag them, and the code that makes, reads,
borrows, copies and frees them.
-/
namespace RingBridge

abbrev Tags := Table String String

namespace Tags

/-- Notes that the tag of a struct is used. The first struct of a constant stays. -/
def record (t : Tags) (struct : String) : Tags := t.putNew (Name.tag struct) (Spelling.baseName struct)

def recordAll (t : Tags) (structs : List String) : Tags := structs.foldl record t

def declaration (const struct : String) : String :=
  "const " ++ const ++ ": &[u8] = b\"" ++ struct ++ "\\0\";"

def declarations (t : Tags) : List String := t.entries.map fun e => declaration e.1 e.2

end Tags

namespace Handle
open Code

def guard (ptr struct : String) : Code := .when (.isNull ptr) (reject struct)

def reclaim (struct : String) : Code :=
  .seq (.line (.bind false "ptr" (.handle 1 struct)))
    (.when (.notNull "ptr") (.seq (.line (.free "ptr" struct)) (.line .clearHandle)))

inductive Request where
  | tag (struct : String)
  | intoRaw (value : String)
  | answer (value struct : String)
  | answerBoxed (box struct : String)
  | append (list value struct : String)
  | appendBoxed (list box struct : String)
  | read (ptr : String) (idx : Int) (struct : String)
  | borrow (ptr struct : String) (mutable : Bool)
  | duplicate (ptr struct : String)
  | receive (name struct : String)
  | guard (ptr struct : String)
  | reclaim (struct : String)
  | declare

namespace Request

def given (value : String) : Expr := .verbatim value []

def code? : Request → Option Code
  | answer v s => some (.line (.answer (.pointer (.box (given v)) s)))
  | answerBoxed b s => some (.line (.answer (.pointer (given b) s)))
  | append l v s => some (.line (.append l (.pointer (.box (given v)) s)))
  | appendBoxed l b s => some (.line (.append l (.pointer (given b) s)))
  | read ptr idx s => some (.line (.bind false ptr (.handle idx s)))
  | borrow ptr s m => some (.line (.yield (.borrow ptr s m)))
  | duplicate ptr s => some (.line (.yield (.duplicate ptr s)))
  | receive x s => some (.receive x s)
  | guard ptr s => some (Handle.guard ptr s)
  | reclaim s => some (Handle.reclaim s)
  | tag _ | intoRaw _ | declare => none

def text (t : Tags) : Request → String
  | tag s => Name.tag s
  | intoRaw v => "Box::into_raw(Box::new(" ++ v ++ "))"
  | declare => "\n".intercalate t.declarations
  | r => match r.code? with
    | some c => c.text
    | none => ""

def structs : Request → List String
  | tag s => [s]
  | r => match r.code? with
    | some c => c.structs
    | none => []

def serve (t : Tags) (r : Request) : String × Tags := (r.text t, t.recordAll r.structs)

end Request
end Handle
end RingBridge
