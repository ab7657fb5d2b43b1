import RingBridge.Document
/-!
Documents as data. The comment of the document itself is not written.
-/
namespace RingBridge

def Param.toValue (p : Param Value) : Value := .record [("name", p.name), ("type", p.type)]

def Field.toValue (f : Field Value) : Value :=
  .record [("name", f.name), ("type", f.type), ("public", f.isPublic)]

namespace Function

def entries (f : Function Value) : List (String × Value) :=
  [("name", f.name), ("params", .list (f.params.map Param.toValue)), ("result", f.result.getD .null),
    ("receiver", .text f.receiver.name), ("public", f.isPublic), ("comment", f.comment)]

end Function

def Declaration.toValue : Declaration Value → Value
  | struct s =>
    .record [("kind", .text "struct"), ("name", s.name), ("public", s.isPublic), ("comment", s.comment),
      ("fields", .list (s.fields.map Field.toValue))]
  | impl i =>
    .record [("kind", .text "impl"), ("name", i.name),
      ("methods", .list (i.methods.map fun f => .record f.entries))]
  | func f => .record (("kind", .text "func") :: f.entries)

def Document.toValue (d : Document Value) : Value :=
  .record [("module", d.moduleName), ("prefix", d.modulePrefix), ("decls", .list (d.decls.map Declaration.toValue))]

end RingBridge
