import RingBridge.Code.Name
import RingBridge.Shape
/-!
Expressions of the generated code. An argument or a list item is a slot; tests and reads name the slot and
the kind of value they expect in it.
-/
namespace RingBridge
open Spelling

inductive Kind where
  | number | string | list | pointer
deriving DecidableEq, Repr

inductive Index where
  | var (name : String)
  | first
deriving DecidableEq

inductive Slot where
  | argument (idx : Int)
  | item (list : String) (index : Index)
deriving DecidableEq

inductive Test where
  | isKind (kind : Kind) (slot : Slot)
  | isNull (ptr : String)
  | notNull (ptr : String)
  | isEmpty (text : String)
deriving DecidableEq

inductive Cast where
  | number (width : NumberType)
  | truth
  | inferred
deriving DecidableEq

inductive Expr where
  | var (name : String)
  | verbatim (code : String) (structs : List String)
  | number (slot : Slot) (cast : Cast)
  | text (slot : Slot)
  | list (slot : Slot)
  | handle (idx : Int) (struct : String)
  | itemPointer (list : String) (index : Index)
  | nullPointer
  | none
  | some (value : Expr)
  | cond (test : Test) (yes no : Expr)
  | box (value : Expr)
  | owned (value : Expr)
  | refer (mutable : Bool) (value : Expr)
  | full (value : Expr)
  | views (vec : String)
  | borrow (ptr struct : String) (mutable : Bool)
  | duplicate (ptr struct : String)
  | defaultOf (struct : String)
  | clone (value : Expr)
  | deref (value : Expr)
  | toVec (value : Expr)
  | debug (value : Expr)
  | newVec
  | newList
  | subList (list : String)
deriving DecidableEq

def Index.code : Index → String
  | var name => name
  | first => "1"

def Kind.argumentTest : Kind → String
  | number => "ring_api_isnumber"
  | string => "ring_api_isstring"
  | list => "ring_api_islist"
  | pointer => "ring_api_iscpointer"

def Kind.itemTest : Kind → String
  | number => "ring_list_isnumber"
  | string => "ring_list_isstring"
  | list => "ring_list_islist"
  | pointer => "ring_list_ispointer"

def Kind.check : Kind → String
  | number => "ring_check_number!"
  | string => "ring_check_string!"
  | list => "ring_check_list!"
  | pointer => "ring_check_cpointer!"

def Test.code : Test → String
  | isKind k (.argument idx) => s!"{k.argumentTest}(p, {idx})"
  | isKind k (.item list index) => s!"{k.itemTest}({list}, {index.code})"
  | isNull ptr => s!"{ptr}.is_null()"
  | notNull ptr => s!"!{ptr}.is_null()"
  | isEmpty text => s!"{text}.is_empty()"

def Cast.code : Cast → String
  | number w => s!" as {w.name}"
  | truth => " != 0.0"
  | inferred => " as _"

namespace Expr

def code : Expr → String
  | var name => name
  | verbatim c _ => c
  | number (.argument idx) cast => s!"ring_get_number!(p, {idx}){cast.code}"
  | number (.item l index) cast => s!"ring_list_getdouble({l}, {index.code}){cast.code}"
  | text (.argument idx) => s!"ring_get_string!(p, {idx})"
  | text (.item l index) => s!"ring_list_getstring_str({l}, {index.code}).to_string()"
  | list (.argument idx) => s!"ring_get_list!(p, {idx})"
  | list (.item l index) => s!"ring_list_getlist({l}, {index.code})"
  | handle idx struct => s!"ring_get_cpointer!(p, {idx}, {Name.tag struct})"
  | itemPointer l index => s!"ring_list_getpointer({l}, {index.code})"
  | nullPointer => "std::ptr::null_mut()"
  | none => "None"
  | some e => s!"Some({e.code})"
  | cond t a b => s!"if {t.code} \x7b {a.code} \x7d else \x7b {b.code} \x7d"
  | box e => s!"Box::new({e.code})"
  | owned e => s!"{e.code}.to_string()"
  | refer true e => s!"&mut {e.code}"
  | refer false e => s!"&{e.code}"
  | full e => s!"{e.code}[..]"
  | views vec => s!"{vec}.iter().map(|s| s.as_str()).collect()"
  | borrow ptr struct true => s!"unsafe \x7b &mut *({ptr} as *mut {struct}) \x7d"
  | borrow ptr struct false => s!"unsafe \x7b &*({ptr} as *const {struct}) \x7d"
  | duplicate ptr struct => s!"unsafe \x7b (*({ptr} as *const {struct})).clone() \x7d"
  | defaultOf struct => s!"{struct}::default()"
  | clone e => s!"{e.code}.clone()"
  | deref e => s!"(*{e.code})"
  | toVec e => s!"{e.code}.to_vec()"
  | debug e => s!"format!(\"\x7b:?\x7d\", {e.code})"
  | newVec => "Vec::new()"
  | newList => "ring_new_list!(p)"
  | subList l => s!"ring_list_newlist({l})"

def structs : Expr → List String
  | verbatim _ ss => ss
  | handle _ s => [s]
  | some e | box e | owned e | refer _ e | full e | clone e | deref e | toVec e | debug e => e.structs
  | cond _ a b => a.structs ++ b.structs
  | _ => []

def boxes (e : Expr) : Nat → Expr
  | 0 => e
  | n + 1 => (e.boxes n).box

end Expr

inductive Call where
  | verbatim (code : String)
  | function (name : String) (args : List Expr)
  | associated (struct name : String) (args : List Expr)
  | method (byValue : Bool) (name : String) (args : List Expr)
  | getField (name : String)
  | setField (name : String) (value : Expr)

namespace Call

def argsCode (args : List Expr) : String := ", ".intercalate (args.map Expr.code)

def receiverCode (byValue : Bool) : String := if byValue then "obj.clone()" else "obj"

def code : Call → String
  | verbatim c => c
  | function name args => s!"{name}({argsCode args})"
  | associated struct name args => s!"{struct}::{name}({argsCode args})"
  | method byValue name args => s!"{receiverCode byValue}.{name}({argsCode args})"
  | getField name => s!"obj.{name}.clone()"
  | setField name value => s!"obj.{name} = {value.code}"

def structs : Call → List String
  | function _ args | associated _ _ args | method _ _ args => args.flatMap Expr.structs
  | setField _ value => value.structs
  | verbatim _ | getField _ => []

end Call
end RingBridge
