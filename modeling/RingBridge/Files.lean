import RingBridge.Path
import RingBridge.Table
/-!
Trees of text files below a current directory. A place is the list of names that lead to it, the innermost first;
the directories above the current one are named by `..`, and the root of absolute paths by `/`. Directories are
the places that lead to a file, besides the current one and those above it.
-/
namespace RingBridge

inductive FileFault where
  | missing | directory | notDirectory
deriving DecidableEq, Repr

abbrev Place := List String

structure Files where
  texts : Table Place String := {}

namespace Files

def origin (path : String) : Place := if path.toList.head? = some '/' then ["/"] else []

def isAbove (name : String) : Bool := name == ".." || name == "/"

def parent : Place → Place
  | [] => [".."]
  | name :: r => if name = ".." then ".." :: name :: r else if name = "/" then name :: r else r

def enter (place : Place) (part : String) : Place :=
  if part = "" ∨ part = "." then place else if part = ".." then parent place else part :: place

def placeOf (path : String) : Place := (Path.parts path).foldl enter (origin path)

def ofList (texts : List (String × String)) : Files :=
  ⟨texts.foldl (fun t e => t.put (placeOf e.1) e.2) {}⟩

def text? (f : Files) (place : Place) : Option String := f.texts.find? place

def isDirectory (f : Files) (place : Place) : Bool :=
  place.all isAbove || f.texts.keys.any fun k => place.isSuffixOf k && place.length < k.length

def follow (f : Files) (place : Place) : List String → Except FileFault Place
  | [] => .ok place
  | part :: r =>
    if f.isDirectory place then follow f (enter place part) r
    else .error (if (f.text? place).isSome then .notDirectory else .missing)

def locate (f : Files) (path : String) : Except FileFault Place :=
  if path.isEmpty then .error .missing else f.follow (origin path) (Path.parts path)

def isPresent (f : Files) (path : String) : Bool :=
  match f.locate path with
  | .ok place => (f.text? place).isSome || f.isDirectory place
  | .error _ => false

def read (f : Files) (path : String) : Except FileFault String := do
  let place ← f.locate path
  match f.text? place with
  | some text => .ok text
  | none => .error (if f.isDirectory place then .directory else .missing)

def endsInSlash (path : String) : Bool := path.toList.getLast? == some '/'

def properParts (path : String) : List String := ((Path.parts path).reverse.dropWhile String.isEmpty).reverse

def target (f : Files) (path : String) : Except FileFault Place := do
  if path.isEmpty then .error .missing
  else
    let place ← f.follow (origin path) (properParts path)
    if endsInSlash path || f.isDirectory place then .error .directory else .ok place

def write (f : Files) (path text : String) : Except FileFault Files := do
  return ⟨f.texts.put (← f.target path) text⟩

def changesSince (f earlier : Files) : List (String × String) :=
  (f.texts.entries.filter fun e => !e.1.any isAbove && earlier.text? e.1 != some e.2).map
    fun e => ("/".intercalate e.1.reverse, e.2)

end Files
end RingBridge
