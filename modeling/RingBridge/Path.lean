import RingBridge.Text.Blank
/-!
Paths as text: their parts, the last component, and what it is without its extension.
-/
namespace RingBridge.Path

def parts (path : String) : List String := (Text.splitWhere (· == '/') path.toList).map String.ofList

def lastPart (cs : List Char) : List Char := (cs.reverse.takeWhile (· != '/')).reverse

def folder (cs : List Char) : List Char := (cs.reverse.dropWhile (· != '/')).reverse

theorem folder_append_lastPart (cs : List Char) : folder cs ++ lastPart cs = cs := by
  rw [folder, lastPart, ← List.reverse_append, List.takeWhile_append_dropWhile, List.reverse_reverse]

def beforePoint (name : List Char) : List Char := (name.reverse.dropWhile (· != '.')).tail.reverse

/-- A name without its extension. Points that begin a name belong to it. -/
def withoutExtension (name : List Char) : List Char :=
  if (beforePoint name).all (· == '.') then name else beforePoint name

def moduleName (path : String) : String := Text.onText (fun cs => withoutExtension (lastPart cs)) path

def defaultOutput (path : String) : String :=
  Text.onText (fun cs => folder cs ++ withoutExtension (lastPart cs)) path ++ "_ring.rs"

end RingBridge.Path
