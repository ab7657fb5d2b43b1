import RingBridge.MethodIndex
import RingBridge.Wrapper
/-!
Exports: what declarations offer to the scripting side, and the wrapper of each. An export is all text. A part of a
declaration that is not exported is not read, so it may hold any values.
-/
namespace RingBridge
open Code Wrapper

inductive Export where
  | destructor (struct : String)
  /-- Builds the default value of a struct. -/
  | constructor (struct : String)
  | getter (struct field type : String)
  | setter (struct field type : String)
  | method (struct : String) (f : Function String)
  | function (f : Function String)

namespace Export

def structName (modulePrefix struct op : String) : String :=
  Name.exported modulePrefix [Name.lowerText (Spelling.baseName struct), op]

def name (modulePrefix : String) : Export → String
  | destructor struct => structName modulePrefix struct "delete"
  | constructor struct => structName modulePrefix struct "new"
  | getter struct field _ => structName modulePrefix struct ("get_" ++ field)
  | setter struct field _ => structName modulePrefix struct ("set_" ++ field)
  | method struct f => Name.exported modulePrefix [Name.lowerText struct, f.name]
  | function f => Name.exported modulePrefix [f.name]

/-- The shape of a method's result. A constructor that declares none still yields the struct. -/
def methodResult (struct : String) (f : Function String) : Option Shape :=
  match f.result with
  | some t => some ((Shape.ofSpelling t).resolveSelf (some struct))
  | none => if !f.receiver.isPresent && f.name = "new" then some (.named struct struct) else none

def wrapperAs (c : Converter) (exported : String) : Export → Wrapper
  | destructor struct =>
    { registration :=
        ⟨exported, Name.wrapper exported, [("self", struct ++ " pointer")], "nothing", some struct, .text ""⟩
      count := 1
      bindings := [⟨[.check .pointer 1], [], .none⟩]
      answer := Handle.reclaim struct }
  | constructor struct =>
    { registration := ⟨exported, Name.wrapper exported, [], struct ++ " pointer", some struct, .text ""⟩
      count := 0
      answer := .line (.answer (.pointer (.box (.defaultOf struct)) struct)) }
  | getter struct field type =>
    Operation.wrapper c {
      exported
      call := fun _ => .getField field
      result := some type
      struct := some struct
      takesReceiver := true }
  | setter struct field type =>
    Operation.wrapper c {
      exported
      params := [⟨field, type⟩]
      shapes := [.ofSpelling type]
      call := fun args => .setField field (args.headD .none)
      struct := some struct
      takesReceiver := true }
  | method struct f =>
    Operation.wrapper c {
      exported
      params := f.params
      shapes := f.params.map fun a => (Shape.ofSpelling a.type).resolveSelf (some struct)
      call := if f.receiver.isPresent then .method (f.receiver = .byValue) f.name else .associated struct f.name
      result := f.result
      resultShape := methodResult struct f
      struct := some struct
      takesReceiver := f.receiver.isPresent
      comment := f.comment }
  | function f =>
    Operation.wrapper c {
      exported
      params := f.params
      shapes := f.params.map fun a => .ofSpelling a.type
      call := .function f.name
      result := f.result
      comment := f.comment }

def wrapper (c : Converter) (e : Export) : Wrapper := e.wrapperAs c (e.name c.modulePrefix)

end Export

abbrev Offer := Except TextError Export

structure Plan where
  ignored : List String
  index : MethodIndex

namespace Plan

def ignores (p : Plan) (name : String) : Bool := p.ignored.contains name

def getter (p : Plan) (struct : String) (key : Key) (f : Field Value) : List Offer :=
  if p.index.has struct key || p.index.hasText struct ("get_" ++ f.name.plain) then []
  else [(Document.typeText f.type).map (.getter struct f.name.plain)]

def setterOf (struct : String) (f : Field Value) : Offer := do
  let type ← Document.typeText f.type
  return .setter struct (← Document.paramText f.name) type

def setter (p : Plan) (struct : String) (f : Field Value) : List Offer :=
  if p.index.hasText struct ("set_" ++ f.name.plain) then [] else [setterOf struct f]

def accessors (p : Plan) (struct : String) (f : Field Value) : List Offer :=
  match Document.nameKey f.name with
  | .ok key => p.getter struct key f ++ p.setter struct f
  | .error e => [.error e]

/-- A private struct has its destructor only. -/
def structExports (p : Plan) (struct : String) (s : Struct Value) : List Offer :=
  .ok (.destructor struct) ::
    if s.isPublic.isTrue then
      (if p.index.hasNew struct then [] else [.ok (.constructor struct)])
        ++ s.publicFields.flatMap (p.accessors struct)
    else []

def selectsMethod (p : Plan) (struct : String) (f : Function Value) : Bool :=
  f.isPublic.isTrue && !p.ignores (struct ++ "::" ++ f.name.plain)

def methods (p : Plan) (struct : String) (i : Impl Value) : List Offer :=
  (i.methods.filter (p.selectsMethod struct)).map fun f => (Document.functionText f).map (.method struct)

def named (name : Value) (offers : String → List Offer) : List Offer :=
  match Document.nameText name with
  | .ok s => offers s
  | .error e => [.error e]

def exports (p : Plan) : Declaration Value → List Offer
  | .struct s => named s.name fun name =>
    if p.ignores name then [] else p.structExports (Spelling.baseName name) s
  | .impl i => named i.name fun name =>
    if p.ignores (Spelling.baseName name) then [] else p.methods (Spelling.baseName name) i
  | .func f =>
    if f.isPublic.isTrue then
      named f.name fun name => if p.ignores name then [] else [(Document.functionText f).map .function]
    else []

end Plan
end RingBridge
