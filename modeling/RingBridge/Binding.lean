import RingBridge.Code
/-!
Parameter bindings: how the argument at one position is checked, read and passed on, by the shape of the
parameter. List items that do not fit are skipped; an optional item that does not fit becomes a `None`.
-/
namespace RingBridge
open Code

/-- Checks come before any reading. Each entry of `gets` is laid out on its own. -/
structure Binding where
  checks : List Stmt := []
  gets : List Code := []
  arg : Expr

def Binding.structs (b : Binding) : List String :=
  b.checks.flatMap Stmt.structs ++ b.gets.flatMap Code.structs ++ b.arg.structs

structure Pointee where
  struct : String
  borrowed : Option Bool

def Shape.pointee? : Shape → Option Pointee
  | .named n _ => some ⟨n, none⟩
  | .reference (.named n _) m _ => some ⟨n, some m⟩
  | _ => none

def Pointee.value (p : Pointee) (ptr : String) : Expr :=
  match p.borrowed with
  | none => .duplicate ptr p.struct
  | some m => .borrow ptr p.struct m

def Shape.scalarKind : Shape → Kind
  | .text _ => .string
  | _ => .number

def Shape.scalar (s : Shape) (slot : Slot) : Expr :=
  match s with
  | .text _ => .text slot
  | .boolean => .number slot .truth
  | .number w => .number slot (.number w)
  | _ => .number slot .inferred

def Shape.isTextView : Shape → Bool
  | .text s => !(Shape.text s).isOwnedText
  | _ => false

namespace Binding

abbrev ItemReader := (target list index : String) → NameScope → Code × NameScope

def listPointer (ptr list index : String) (n : NameScope) : Code × NameScope :=
  let slot := Slot.item list (.var index)
  let (sub, n) := n.fresh "sub"
  (.letChain ptr
    (.isKind .pointer slot) (.line (.yield (.itemPointer list (.var index))))
    (.isKind .list slot)
      (.seq (.line (.bind false sub (.list slot)))
        (.line (.yield (.cond (.isKind .pointer (.item sub .first)) (.itemPointer sub .first) .nullPointer))))
    (.line (.yield .nullPointer)), n)

def fill (item : ItemReader) (vec list : String) (n : NameScope) : Code × NameScope :=
  let (i, n) := n.fresh "i"
  let (body, n) := item vec list i n
  (.seq (.line (.bind true vec .newVec)) (.items i list body), n)

def pushLeaf (s : Shape) (boxes : Nat) : ItemReader := fun vec list i n =>
  match s.pointee? with
  | some p =>
    let (ptr, n) := n.fresh "ptr"
    let (read, n) := listPointer ptr list i n
    (.seq read (.when (.notNull ptr) (.line (.push vec ((p.value ptr).boxes boxes)))), n)
  | none =>
    let slot := Slot.item list (.var i)
    (.when (.isKind s.scalarKind slot) (.line (.push vec ((s.scalar slot).boxes boxes))), n)

def bindLeaf (s : Shape) (boxes : Nat) : ItemReader := fun value list i n =>
  match s.pointee? with
  | some p =>
    let (ptr, n) := n.fresh "ptr"
    let (read, n) := listPointer ptr list i n
    (.seq read (.letIf value (.isNull ptr) (.line (.yield .none))
      (.line (.yield (.some ((p.value ptr).boxes boxes))))), n)
  | none =>
    let slot := Slot.item list (.var i)
    (.line (.bind false value
      (.cond (.isKind s.scalarKind slot) (.some ((s.scalar slot).boxes boxes)) .none)), n)

def nested (item : ItemReader) (list i : String) (finish : Expr → Stmt) (n : NameScope) : Code × NameScope :=
  let (sub, n) := n.fresh "sub"
  let (vec, n) := n.fresh "inner"
  let (body, n) := fill item vec sub n
  (.seq (.line (.bind false sub (.list (.item list (.var i))))) (.seq body (.line (finish (.var vec)))), n)

mutual

def element : Shape → Nat → ItemReader
  | .boxed s _, boxes => element s (boxes + 1)
  | .option s _, boxes => fun vec list i n =>
    let (value, n) := n.fresh "item"
    let (read, n) := optionalItem s 0 value list i n
    (.seq read (.line (.push vec ((Expr.var value).boxes boxes))), n)
  | .vector s _, boxes => fun vec list i n =>
    let (body, n) := nested (element s 0) list i (fun e => .push vec (e.boxes boxes)) n
    (.when (.isKind .list (.item list (.var i))) body, n)
  | s, boxes => pushLeaf s boxes

def optionalItem : Shape → Nat → ItemReader
  | .boxed s _, boxes => optionalItem s (boxes + 1)
  | .vector s _, boxes => fun value list i n =>
    let (body, n) := nested (element s 0) list i (fun e => .yield (.some (e.boxes boxes))) n
    (.letIf value (.isKind .list (.item list (.var i))) body (.line (.yield .none)), n)
  | s, boxes => bindLeaf s boxes

end

def stem (name : String) : String := Text.onText (fun cs => cs.dropWhile (· == '_')) name

/-- Reads the list at a position into `target`. Views of text are collected from a vector that owns it. -/
def collect (target : String) (item : Shape) (idx : Int) (mutable : Bool) (n : NameScope) : Code × NameScope :=
  let (list, n) := n.fresh (stem target ++ "_list")
  let source := Code.line (.bind false list (.list (.argument idx)))
  if item.isTextView then
    let (owner, n) := n.fresh (stem target ++ "_owned")
    let (body, n) := fill (element item 0) owner list n
    (.seq source (.seq body (.line (.bindViews mutable target owner))), n)
  else
    let (body, n) := fill (element item 0) target list n
    let rebind := if mutable then Code.line (.bind true target (.var target)) else .skip
    (.seq source (.seq body rebind), n)

/-- Binds an optional argument: an empty string is `None` for every shape. -/
def optional (name : String) (s : Shape) (idx : Int) (n : NameScope) : Code × NameScope :=
  let slot := Slot.argument idx
  let empty : Code := .line (.yield .none)
  let (s, boxes) := s.unbox
  let (str, n) := n.fresh "s"
  -- A string is tested first, as an empty one is `None` for every shape.
  let chain (kind : Kind) (body : Code) : Code :=
    .letChain name (.isKind .string slot) empty (.isKind kind slot) body empty
  match s with
  | .text sp =>
    let value := if (Shape.text sp).isOwnedText || (Shape.text sp).isOwnedTextRef then Expr.owned (.var str) else .var str
    (.letIf name (.isKind .string slot)
      (.seq (.line (.bind false str (.text slot)))
        (.line (.yield (.cond (.isEmpty str) .none (.some (value.boxes boxes))))))
      empty, n)
  | .vector t _ =>
    let (vec, n) := n.fresh "vec"
    let (body, n) := collect vec t idx false n
    (chain .list (.seq body (.line (.yield (.some ((Expr.var vec).boxes boxes))))), n)
  | .number _ | .boolean => (chain .number (.line (.yield (.some ((s.scalar slot).boxes boxes)))), n)
  | _ =>
    match s.pointee? with
    | some p =>
      let (ptr, n) := n.fresh "ptr"
      (chain .pointer
        (.seq (.line (.bind false ptr (.handle idx p.struct)))
          (.line (.yield (.cond (.isNull ptr) .none (.some ((p.value ptr).boxes boxes)))))), n)
    | none => (chain .number (.line (.yield (.some (.number slot .inferred)))), n)

def textArg (name spelling : String) : Expr :=
  if spelling = "String" then .owned (.var name)
  else if spelling = "&mut String" then .refer true (.owned (.var name))
  else if spelling = "&String" then .refer false (.owned (.var name))
  else .var name

def guardedPointer (ptr : String) (idx : Int) (struct : String) : Code :=
  .seq (.line (.bind false ptr (.handle idx struct))) (.when (.isNull ptr) (reject struct))

def pointerName (name : String) : String := "__ptr_" ++ name

def sliceName (name : String) : String := "__" ++ name ++ "_vec"

def ofShape (name : String) (idx : Int) : Shape → Binding
  | .number w =>
    ⟨[.check .number idx], [.line (.bind false name (.number (.argument idx) (.number w)))], .var name⟩
  | .boolean =>
    ⟨[.check .number idx], [.line (.bind false name (.number (.argument idx) .truth))], .var name⟩
  | .text sp =>
    ⟨[.check .string idx], [.line (.bind false name (.text (.argument idx)))], textArg name sp⟩
  | .named struct _ =>
    let ptr := pointerName name
    ⟨[.check .pointer idx],
      [.seq (guardedPointer ptr idx struct) (.line (.bind false name (.duplicate ptr struct)))], .var name⟩
  | .reference (.named struct _) m _ =>
    let ptr := pointerName name
    ⟨[.check .pointer idx], [guardedPointer ptr idx struct], .borrow ptr struct m⟩
  | .reference t m _ =>
    let inner := ofShape name idx t
    let rebind := if m && inner.arg = .var name then [Code.line (.bind true name (.var name))] else []
    ⟨inner.checks, inner.gets ++ rebind, .refer m inner.arg⟩
  | .vector t _ => ⟨[.check .list idx], [(collect name t idx false {}).1], .var name⟩
  | .slice t m _ =>
    let vec := sliceName name
    ⟨[.check .list idx], [(collect vec t idx m {}).1], .refer m (.full (.var vec))⟩
  | .option t _ => ⟨[], [(optional name t idx {}).1], .var name⟩
  | .boxed t _ =>
    let inner := ofShape name idx t
    ⟨inner.checks, inner.gets, .box inner.arg⟩
  | .unit | .result _ _ | .tuple _ _ | .mapping _ _ _ | .unknown _ =>
    ⟨[.check .number idx], [.line (.bind false name (.number (.argument idx) .inferred))], .var name⟩

end Binding
end RingBridge
