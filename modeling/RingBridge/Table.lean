/-!
Tables in order of first insertion. A later value for a key takes the place of the earlier one.
-/
namespace RingBridge

structure Table (κ α : Type) where
  entries : List (κ × α) := []

namespace Table
variable {κ α : Type} [DecidableEq κ]

def find? (t : Table κ α) (k : κ) : Option α := (t.entries.find? fun e => e.1 = k).map (·.2)

def contains (t : Table κ α) (k : κ) : Bool := t.entries.any fun e => e.1 = k

def putEntry (k : κ) (a : α) : List (κ × α) → List (κ × α)
  | [] => [(k, a)]
  | (j, b) :: es => if j = k then (j, a) :: es else (j, b) :: putEntry k a es

/-- Sets the value of a key, which keeps its place if it has one. -/
def put (t : Table κ α) (k : κ) (a : α) : Table κ α := ⟨putEntry k a t.entries⟩

def putNew (t : Table κ α) (k : κ) (a : α) : Table κ α :=
  if t.contains k then t else ⟨t.entries ++ [(k, a)]⟩

def keys (t : Table κ α) : List κ := t.entries.map (·.1)

end Table
end RingBridge
