/-!
Binary floating point numbers of 64 bits as exact integers: reading a decimal to the nearest number, and the
shortest decimal that reads back.
-/
namespace RingBridge

/-- A finite number is `±mantissa · 2 ^ exponent`. The mantissa has 53 bits, fewer only at the least exponent. -/
inductive Binary64 where
  | finite (negative : Bool) (mantissa : Nat) (exponent : Int)
  | infinite (negative : Bool)
  | nan
deriving DecidableEq

namespace Binary64

def exp2 (n : Nat) : Nat := Nat.pow 2 n

def exp10 (n : Nat) : Nat := Nat.pow 10 n

def precision : Nat := exp2 53
def leastExponent : Int := -1074
def greatestExponent : Int := 971

def roundDiv (num den : Nat) : Nat :=
  let q := num / den
  let r := num % den
  if 2 * r < den then q else if den < 2 * r then q + 1 else if q % 2 == 0 then q else q + 1

def unscale (num den : Nat) (q : Int) : Nat × Nat :=
  if 0 ≤ q then (num, den * exp2 q.toNat) else (num * exp2 (-q).toNat, den)

def roundAt (num den : Nat) (q : Int) : Nat := roundDiv (unscale num den q).1 (unscale num den q).2

def pack (negative : Bool) (m : Nat) (q : Int) : Binary64 :=
  if m = precision then
    if greatestExponent < q + 1 then infinite negative else finite negative (m / 2) (q + 1)
  else if greatestExponent < q then infinite negative else finite negative m q

def ofQuotient (negative : Bool) (num den : Nat) : Binary64 :=
  let estimate : Int := (num.log2 : Int) - (den.log2 : Int) - 53
  let q := max estimate leastExponent
  let m := roundAt num den q
  if precision < m then pack negative (roundAt num den (q + 1)) (q + 1) else pack negative m q

def ofDecimal (negative : Bool) (digits count : Nat) (exponent : Int) : Binary64 :=
  if digits = 0 then finite negative 0 leastExponent
  else if 400 < exponent + count then infinite negative
  else if exponent + count < -400 then finite negative 0 leastExponent
  else if 0 ≤ exponent then ofQuotient negative (digits * exp10 exponent.toNat) 1
  else ofQuotient negative digits (exp10 (-exponent).toNat)

def between (lo hi : Nat) (closed : Bool) (q k : Int) (c : Nat) : Bool :=
  let point := c * exp10 k.toNat * exp2 (-q).toNat
  let scale := exp10 (-k).toNat * exp2 q.toNat
  if closed then lo * scale ≤ point && point ≤ hi * scale else lo * scale < point && point < hi * scale

/-- The grid points `10 ^ k` apart next to a quotient: the one that reads back, the nearer one of two. -/
def onGrid? (mid lo hi : Nat) (closed : Bool) (q k : Int) : Option Nat :=
  let num := mid * exp2 q.toNat * exp10 (-k).toNat
  let den := exp2 (-q).toNat * exp10 k.toNat
  let below := num / den
  let rest := num % den
  match between lo hi closed q k below, between lo hi closed q k (below + 1) with
  | true, true => some (if 2 * rest < den || (2 * rest == den && below % 2 == 0) then below else below + 1)
  | true, false => some below
  | false, true => some (below + 1)
  | false, false => none

def digitCount (n : Nat) : Nat := (Nat.toDigits 10 n).length

/-- Position of the decimal point behind the first digits of a quotient: `10 ^ (p - 1) ≤ num / den < 10 ^ p`. -/
def pointPosition (num den : Nat) : Int :=
  if den ≤ num then digitCount (num / den)
  else
    let guess : Int := (digitCount num : Int) - digitCount den
    if den ≤ num * exp10 (1 - guess).toNat then guess else guess - 1

def shortest (m : Nat) (e : Int) : Nat × Int :=
  let lo := if m = precision / 2 && leastExponent < e then 4 * m - 1 else 4 * m - 2
  let closed := m % 2 == 0
  let q := e - 2
  let p := pointPosition (4 * m * exp2 q.toNat) (exp2 (-q).toNat)
  let found := (List.range 17).findSome? fun (n : Nat) =>
    (onGrid? (4 * m) lo (4 * m + 2) closed q (p - 1 - (n : Int))).map fun c => (c, p - 1 - (n : Int))
  found.getD (m, e)

def dropZeros : Nat → Nat × Int → Nat × Int
  | 0, d => d
  | fuel + 1, (c, k) => if c % 10 == 0 && c != 0 then dropZeros fuel (c / 10, k + 1) else (c, k)

/-- Layout of digits with the point behind the first `point` of them: positional from `1e-4` up to `1e16`,
    with an exponent of at least two digits elsewhere. -/
def layout (digits : List Char) (point : Int) : List Char :=
  if -4 < point && point ≤ 16 then
    if point ≤ 0 then ['0', '.'] ++ List.replicate (-point).toNat '0' ++ digits
    else if digits.length ≤ point.toNat then
      digits ++ List.replicate (point.toNat - digits.length) '0' ++ ['.', '0']
    else digits.take point.toNat ++ '.' :: digits.drop point.toNat
  else
    let e := point - 1
    let size := Nat.toDigits 10 e.natAbs
    let body := match digits with
      | [d] => [d]
      | d :: ds => d :: '.' :: ds
      | [] => []
    body ++ ['e', if e < 0 then '-' else '+'] ++ List.replicate (2 - size.length) '0' ++ size

def finiteText (negative : Bool) (m : Nat) (e : Int) : String :=
  let sign := if negative then ['-'] else []
  if m = 0 then String.ofList (sign ++ ['0', '.', '0'])
  else
    let (c, k) := dropZeros 400 (shortest m e)
    let digits := Nat.toDigits 10 c
    String.ofList (sign ++ layout digits (k + digits.length))

def isZero : Binary64 → Bool
  | finite _ 0 _ => true
  | _ => false

end Binary64
end RingBridge
