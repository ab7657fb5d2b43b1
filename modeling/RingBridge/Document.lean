import RingBridge.Value
/-!
Documents: the declarations of one module. The type of names and types is a parameter: source text gives a document
of text, and a document read from data keeps whatever values stood in their places. Visibility and comments are kept
as they were given, and used by their truth.
-/
namespace RingBridge

inductive Receiver where
  | absent | byValue | byRef | byMutRef
deriving DecidableEq, Repr

namespace Receiver

def name : Receiver → String
  | absent => "none"
  | byValue => "value"
  | byRef => "ref"
  | byMutRef => "mut"

def all : List Receiver := [absent, byValue, byRef, byMutRef]

def ofName? (s : String) : Option Receiver := all.find? fun r => r.name == s

def isPresent (r : Receiver) : Bool := r != absent

end Receiver

structure Field (ν : Type) where
  name : ν
  type : ν
  isPublic : Value := .boolean true

structure Param (ν : Type) where
  name : ν
  type : ν

structure Function (ν : Type) where
  name : ν
  params : List (Param ν) := []
  result : Option ν := none
  isPublic : Value := .boolean true
  receiver : Receiver := .absent
  comment : Value := .text ""

structure Struct (ν : Type) where
  name : ν
  fields : List (Field ν) := []
  isPublic : Value := .boolean true
  comment : Value := .text ""

structure Impl (ν : Type) where
  name : ν
  methods : List (Function ν) := []

inductive Declaration (ν : Type) where
  | struct (s : Struct ν)
  | impl (i : Impl ν)
  | func (f : Function ν)

structure Document (ν : Type) where
  moduleName : Value := .text ""
  modulePrefix : Value := .text ""
  decls : List (Declaration ν) := []
  comment : Value := .text ""

variable {ν μ : Type}

def Struct.publicFields (s : Struct ν) : List (Field ν) := s.fields.filter fun f => f.isPublic.isTrue

namespace Document

def structs (d : Document ν) : List (Struct ν) :=
  d.decls.filterMap fun
    | .struct s => some s
    | _ => none

def impls (d : Document ν) : List (Impl ν) :=
  d.decls.filterMap fun
    | .impl i => some i
    | _ => none

def funcs (d : Document ν) : List (Function ν) :=
  d.decls.filterMap fun
    | .func f => some f
    | _ => none

end Document

def Param.map (g : ν → μ) (p : Param ν) : Param μ := ⟨g p.name, g p.type⟩

def Field.map (g : ν → μ) (f : Field ν) : Field μ := ⟨g f.name, g f.type, f.isPublic⟩

def Function.map (g : ν → μ) (f : Function ν) : Function μ :=
  ⟨g f.name, f.params.map (Param.map g), f.result.map g, f.isPublic, f.receiver, f.comment⟩

def Struct.map (g : ν → μ) (s : Struct ν) : Struct μ :=
  ⟨g s.name, s.fields.map (Field.map g), s.isPublic, s.comment⟩

def Impl.map (g : ν → μ) (i : Impl ν) : Impl μ := ⟨g i.name, i.methods.map (Function.map g)⟩

def Declaration.map (g : ν → μ) : Declaration ν → Declaration μ
  | struct s => struct (s.map g)
  | impl i => impl (i.map g)
  | func f => func (f.map g)

def Document.map (g : ν → μ) (d : Document ν) : Document μ := { d with decls := d.decls.map (Declaration.map g) }

end RingBridge
