/-!
Replacement of a pattern in a text, from left to right and without overlap.
-/
namespace RingBridge.Text

def replaceAfter (pattern by_ : List Char) (skip : Nat) : List Char → List Char
  | [] => []
  | c :: r =>
    if skip ≠ 0 then replaceAfter pattern by_ (skip - 1) r
    else if pattern.isPrefixOf (c :: r) then by_ ++ replaceAfter pattern by_ (pattern.length - 1) r
    else c :: replaceAfter pattern by_ 0 r

def replace (pattern by_ s : String) : String :=
  if pattern.isEmpty then s else String.ofList (replaceAfter pattern.toList by_.toList 0 s.toList)

def occursIn (pattern : List Char) : List Char → Bool
  | [] => pattern.isEmpty
  | c :: r => pattern.isPrefixOf (c :: r) || occursIn pattern r

end RingBridge.Text
