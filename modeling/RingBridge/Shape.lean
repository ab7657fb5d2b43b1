import RingBridge.Spelling.Primitive
/-!
Shapes: the structural category of a type, which decides how a value crosses between the two languages. Every
node keeps the spelling it was read from.
-/
namespace RingBridge
open Spelling

inductive Shape where
  | number (width : NumberType)
  | text (spelling : String)
  | boolean
  | unit
  | vector (inner : Shape) (spelling : String)
  | slice (inner : Shape) (mutable : Bool) (spelling : String)
  | option (inner : Shape) (spelling : String)
  | result (ok : Shape) (spelling : String)
  | tuple (elements : List Shape) (spelling : String)
  | boxed (inner : Shape) (spelling : String)
  | mapping (key value : Shape) (spelling : String)
  | reference (target : Shape) (mutable : Bool) (spelling : String)
  | named (name : String) (spelling : String)
  | unknown (spelling : String)
deriving Inhabited

namespace Shape

def spelling : Shape → String
  | number w => w.name
  | boolean => "bool"
  | unit => "()"
  | text s | vector _ s | slice _ _ s | option _ s | result _ s | tuple _ s | boxed _ s | mapping _ _ s
  | reference _ _ s | named _ s | unknown s => s

def isOwnedText : Shape → Bool
  | text s => s == "String"
  | _ => false

def isOwnedTextRef : Shape → Bool
  | text s => s == "&String" || s == "&mut String"
  | _ => false

def structName? : Shape → Option String
  | named n _ => some n
  | reference (named n _) _ _ => some n
  | _ => none

mutual

/-- Puts the owning struct in the place of `Self`; without one, `Self` has no known shape. -/
def resolveSelf (owner : Option String) : Shape → Shape
  | named n s =>
    if n = "Self" then
      match owner with
      | some o => named o o
      | none => unknown "Self"
    else named n s
  | vector t s => vector (resolveSelf owner t) s
  | slice t m s => slice (resolveSelf owner t) m s
  | option t s => option (resolveSelf owner t) s
  | result t s => result (resolveSelf owner t) s
  | tuple ts s => tuple (resolveSelfEach owner ts) s
  | boxed t s => boxed (resolveSelf owner t) s
  | mapping k v s => mapping (resolveSelf owner k) (resolveSelf owner v) s
  | reference t m s => reference (resolveSelf owner t) m s
  | number w => number w
  | text s => text s
  | boolean => boolean
  | unit => unit
  | unknown s => unknown s

def resolveSelfEach (owner : Option String) : List Shape → List Shape
  | [] => []
  | t :: ts => resolveSelf owner t :: resolveSelfEach owner ts

end

def unbox : Shape → Shape × Nat
  | boxed t _ => ((unbox t).1, (unbox t).2 + 1)
  | t => (t, 0)

def isKeyText : Shape → Bool
  | number _ | text _ | boolean => true
  | _ => false

mutual

def kindText : Shape → String
  | unit => "nothing"
  | number _ | boolean => "number"
  | text _ => "string"
  | vector t _ | slice t _ _ => "list of " ++ kindText t
  | option t _ => kindText t ++ " or nothing"
  | result t _ => kindText t ++ " (raises on error)"
  | tuple ts _ => "list [" ++ ", ".intercalate (kindTexts ts) ++ "]"
  | boxed t _ => kindText t
  | mapping k v _ => "list of [" ++ (if k.isKeyText then kindText k else "string") ++ ", " ++ kindText v ++ "] pairs"
  | reference t _ _ => kindText t
  | named n _ => n ++ " pointer"
  | unknown _ => "number"

def kindTexts : List Shape → List String
  | [] => []
  | t :: ts => kindText t :: kindTexts ts

end

def kindText? : Option Shape → String
  | some s => s.kindText
  | none => "nothing"

end Shape
end RingBridge
