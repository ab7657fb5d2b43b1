import RingBridge.Value
/-!
Values as keys. Numbers are the same key when they are the same amount, and a truth value is the number one or zero.
Lists and records are no keys.
-/
namespace RingBridge

inductive Key where
  | null
  | integer (n : Int)
  | real (r : Binary64)
  | text (s : String)
deriving DecidableEq

def Binary64.integer? : Binary64 → Option Int
  | finite negative m e =>
    let sign : Int := if negative then -1 else 1
    if 0 ≤ e then some (sign * (m * exp2 e.toNat : Nat))
    else if m % exp2 (-e).toNat = 0 then some (sign * (m / exp2 (-e).toNat : Nat))
    else none
  | _ => none

def Key.ofReal (r : Binary64) : Key := (r.integer?.map integer).getD (real r)

def Value.key? : Value → Option Key
  | null => some .null
  | boolean b => some (.integer (if b then 1 else 0))
  | integer n => some (.integer n)
  | real r => some (.ofReal r)
  | text s => some (.text s)
  | list _ | record _ => none

end RingBridge
