import RingBridge.Spelling
/-!
The primitive types: numbers and the many spellings of text.
-/
namespace RingBridge.Spelling
open Text

inductive NumberType where
  | i8 | i16 | i32 | i64 | i128 | isize
  | u8 | u16 | u32 | u64 | u128 | usize
  | f32 | f64
deriving DecidableEq, Repr

namespace NumberType

def all : List NumberType :=
  [i8, i16, i32, i64, i128, isize, u8, u16, u32, u64, u128, usize, f32, f64]

def name : NumberType → String
  | i8 => "i8" | i16 => "i16" | i32 => "i32" | i64 => "i64" | i128 => "i128" | isize => "isize"
  | u8 => "u8" | u16 => "u16" | u32 => "u32" | u64 => "u64" | u128 => "u128" | usize => "usize"
  | f32 => "f32" | f64 => "f64"

def ofSpelling? (cs : List Char) : Option NumberType := all.find? fun w => w.name.toList == cs

end NumberType

def isBool (cs : List Char) : Bool := cs == "bool".toList

/-- Some lifetime name is at the front and the text after it passes `p`. Every cut of the word is tried. -/
def someLifetime (p : List Char → Bool) : List Char → Bool
  | [] => false
  | c :: r => isWord c && (p r || someLifetime p r)

def blankThen (p : List Char → Bool) : List Char → Bool
  | [] => p []
  | c :: r => p (c :: r) || (isBlank c && p r)

def lifetimeThen (p : List Char → Bool) : List Char → Bool
  | '\'' :: r => p ('\'' :: r) || someLifetime (blankThen p) r
  | cs => p cs

/-- The word `str` and nothing more, a final line feed apart. -/
def isStr (cs : List Char) : Bool := cs == "str".toList || cs == "str\n".toList

def afterMut? : List Char → Option (List Char)
  | 'm' :: 'u' :: 't' :: c :: r => if isBlank c then some r else none
  | _ => none

def isMutStr (cs : List Char) : Bool :=
  isStr cs || match afterMut? cs with
    | some r => isStr r
    | none => false

def isText (cs : List Char) : Bool :=
  ["String", "&String", "&mut String"].any (fun s => s.toList == cs)
    || match cs with
      | '&' :: r => lifetimeThen isMutStr r
      | _ => lifetimeThen isMutStr cs

def isMutReference : List Char → Bool
  | '&' :: r => lifetimeThen (fun cs => (afterMut? cs).isSome) r
  | _ => false

def dropBlank : List Char → List Char
  | [] => []
  | c :: r => if isBlank c then r else c :: r

def dropLifetime : List Char → List Char
  | '\'' :: c :: r => if isWord c then dropBlank (r.dropWhile isWord) else '\'' :: c :: r
  | cs => cs

/-- What a reference spelling refers to, and whether it may be changed; the argument starts after the `&`. -/
def referent (cs : List Char) : Bool × List Char :=
  match dropLifetime cs with
  | 'm' :: 'u' :: 't' :: r =>
    match r with
    | c :: _ => if isWord c then (false, trim (dropLifetime cs)) else (true, trim (dropBlank r))
    | [] => (true, [])
  | r => (false, trim r)

theorem length_dropBlank_le (cs : List Char) : (dropBlank cs).length ≤ cs.length := by
  cases cs with
  | nil => simp [dropBlank]
  | cons c r => simp only [dropBlank]; split <;> simp

theorem length_dropLifetime_le (cs : List Char) : (dropLifetime cs).length ≤ cs.length := by
  unfold dropLifetime
  split
  · next c r =>
    split
    · have h1 := length_dropBlank_le (r.dropWhile isWord)
      have h2 := length_dropWhile_le isWord r
      simp only [List.length_cons]
      omega
    · exact Nat.le_refl _
  · exact Nat.le_refl _

theorem length_referent_le (cs : List Char) : (referent cs).2.length ≤ cs.length := by
  have h := length_dropLifetime_le cs
  unfold referent
  split
  · next r hr =>
    rw [hr] at h
    split
    · next c t =>
      split
      · have := length_trim_le (dropLifetime cs)
        simp only [hr] at *
        omega
      · have h1 := length_trim_le (dropBlank (c :: t))
        have h2 := length_dropBlank_le (c :: t)
        simp only [List.length_cons] at *
        omega
    · simp
  · exact Nat.le_trans (length_trim_le _) h

end RingBridge.Spelling
