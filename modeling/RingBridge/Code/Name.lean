import RingBridge.Spelling
import RingBridge.Text.Case
/-!
Names in the generated code: temporaries, exported names, wrappers and tag constants.
-/
namespace RingBridge
open Text

/-- The stems for which a temporary was handed out, in order. -/
structure NameScope where
  stems : List String := []

namespace NameScope

def numbered (stem : String) (count : Nat) : String :=
  if count = 0 then "__" ++ stem else "__" ++ stem ++ toString count

def fresh (n : NameScope) (stem : String) : String × NameScope :=
  (numbered stem (n.stems.count stem), ⟨n.stems ++ [stem]⟩)

def freshEach (n : NameScope) : List String → List String × NameScope
  | [] => ([], n)
  | s :: ss => ((n.fresh s).1 :: ((n.fresh s).2.freshEach ss).1, ((n.fresh s).2.freshEach ss).2)

def namesAfter (before : List String) : List String → List String
  | [] => []
  | s :: ss => numbered s (before.count s) :: namesAfter (before ++ [s]) ss

def names (n : NameScope) : List String := namesAfter [] n.stems

end NameScope

namespace Name

/-- The joining form of a module prefix: empty, or with an underscore at its end. -/
def joining (stem : String) : String :=
  if stem.isEmpty then "" else if stem.toList.getLast? == some '_' then stem else stem ++ "_"

def exported (stem : String) (parts : List String) : String := joining stem ++ "_".intercalate parts

def wrapper (exported : String) : String := "ring_" ++ exported

def tag (struct : String) : String := onText upper (Spelling.baseName struct) ++ "_TYPE"

def lowerText (s : String) : String := onText lower s

end Name

def escapeLiteral : List Char → List Char
  | [] => []
  | c :: r => if c == '\\' || c == '"' then '\\' :: c :: escapeLiteral r else c :: escapeLiteral r

def quoteLiteral (s : String) : String := String.ofList ('"' :: escapeLiteral s.toList ++ ['"'])

end RingBridge
