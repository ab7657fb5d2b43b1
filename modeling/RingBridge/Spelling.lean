import RingBridge.Text.Blank
import RingBridge.Text.Word
/-!
Spellings of types as flat texts: one normal form for blanks, cuts that respect brackets, generic heads and
module paths. Nothing here is resolved against real declarations.
-/
namespace RingBridge.Spelling
open Text

def isSeparator (c : Char) : Bool :=
  ['<', '>', '(', ')', ',', '[', ']', '&', ';', ':', '*', '=', '+'].contains c

inductive Piece where
  | sep (c : Char)
  | word (cs : List Char)
deriving DecidableEq

def pieces : List Char → List Piece
  | [] => []
  | c :: r =>
    if isSeparator c then .sep c :: pieces r
    else match pieces r with
      | .word w :: ps => .word (c :: w) :: ps
      | ps => .word [c] :: ps

def spell : List Piece → List Char
  | [] => []
  | .sep c :: ps => c :: spell ps
  | .word w :: ps =>
    match ps with
    | .word _ :: _ => w ++ ' ' :: spell ps
    | _ => w ++ spell ps

/-- The normal form: blanks stay only between two words, one for each gap. -/
def normalize (cs : List Char) : List Char := spell ((words cs).flatMap pieces)

/-- What a character adds to the bracket depth. The `>` of an arrow closes nothing. -/
def nesting (prev : Option Char) (c : Char) : Int :=
  if ['<', '(', '[', '{'].contains c then 1
  else if [')', ']', '}'].contains c then -1
  else if c == '>' && prev != some '-' then -1
  else 0

def splitFrom (sep : Char) (depth : Int) (prev : Option Char) (part : List Char) :
    List Char → List (List Char)
  | [] => if (trim part.reverse).isEmpty then [] else [trim part.reverse]
  | c :: r =>
    let step := nesting prev c
    if step == 0 && c == sep && depth == 0 then
      trim part.reverse :: splitFrom sep depth (some c) [] r
    else splitFrom sep (depth + step) (some c) (c :: part) r

/-- Cuts at the separators outside all brackets. A blank last part is dropped. -/
def splitTop (sep : Char) (cs : List Char) : List (List Char) := splitFrom sep 0 none [] cs

def closer? : Char → Option Char
  | '<' => some '>'
  | '(' => some ')'
  | '[' => some ']'
  | '{' => some '}'
  | _ => none

def closingFrom (opener closer : Char) (depth : Nat) (prev : Char) (i : Nat) : List Char → Option Nat
  | [] => none
  | c :: r =>
    if c == opener then closingFrom opener closer (depth + 1) c (i + 1) r
    else if c == closer && !(c == '>' && prev == '-') then
      if depth ≤ 1 then some i else closingFrom opener closer (depth - 1) c (i + 1) r
    else closingFrom opener closer depth c (i + 1) r

inductive ClosingError where
  | outside
  | noOpener (found : Char)
deriving DecidableEq

/-- The text to search from a start on. A negative start counts from the end, and the search then goes on
    from the front. -/
def searchFrom (cs : List Char) (start : Int) : List Char :=
  if 0 ≤ start then cs.drop start.toNat
  else if cs.length < start.natAbs then []
  else cs.drop (cs.length - start.natAbs) ++ cs

def closing? (cs : List Char) (start : Int) : Except ClosingError (Option Int) :=
  match searchFrom cs start with
  | [] => .error .outside
  | c :: r =>
    match closer? c with
    | none => .error (.noOpener c)
    | some d => .ok ((closingFrom c d 1 c 1 r).map fun i => start + (i : Int))

def name? : List Char → Option (List Char × List Char)
  | [] => none
  | c :: r => if isNameStart c then some (c :: r.takeWhile isWord, r.dropWhile isWord) else none

def afterSegment? (cs : List Char) : Option (List Char) :=
  match name? cs with
  | some (_, ':' :: ':' :: r) => some r
  | _ => none

theorem length_name? {cs n r : List Char} (h : name? cs = some (n, r)) : r.length < cs.length := by
  cases cs with
  | nil => simp [name?] at h
  | cons c t =>
    simp only [name?] at h
    split at h
    · obtain ⟨_, rfl⟩ := Prod.mk.inj (Option.some.inj h)
      have := length_dropWhile_le isWord t
      simp only [List.length_cons]
      omega
    · simp at h

theorem length_afterSegment? {cs r : List Char} (h : afterSegment? cs = some r) : r.length < cs.length := by
  unfold afterSegment? at h
  split at h
  · next r' hn =>
    have := length_name? hn
    simp only [Option.some.injEq] at h
    subst h
    simp only [List.length_cons] at this
    omega
  · simp at h

def stripPath (cs : List Char) : List Char :=
  match _h : afterSegment? cs with
  | some r => stripPath r
  | none => cs
termination_by cs.length
decreasing_by exact length_afterSegment? _h

def base (cs : List Char) : List Char := (stripPath cs).takeWhile (· != '<')

def baseName (s : String) : String := onText base s

def generic? (cs : List Char) : Option (List Char × List (List Char)) :=
  match name? (stripPath cs) with
  | some (head, '<' :: inner) =>
    if closingFrom '<' '>' 1 '<' 1 inner = some inner.length then some (head, splitTop ',' inner.dropLast)
    else none
  | _ => none

def genericArgs? (heads : List (List Char)) (cs : List Char) : Option (List (List Char)) :=
  match generic? cs with
  | some (head, args) => if heads.contains head then some args else none
  | none => none

theorem length_stripPath_le (cs : List Char) : (stripPath cs).length ≤ cs.length := by
  fun_induction stripPath cs with
  | case1 cs r h ih => have := length_afterSegment? h; omega
  | case2 cs h => exact Nat.le_refl _

theorem length_mem_splitFrom {sep : Char} {depth : Int} {prev : Option Char} {part cs p : List Char}
    (h : p ∈ splitFrom sep depth prev part cs) : p.length ≤ part.length + cs.length := by
  have ht := length_trim_le part.reverse
  rw [List.length_reverse] at ht
  induction cs generalizing depth prev part with
  | nil =>
    simp only [splitFrom] at h
    split at h
    · simp at h
    · simp only [List.mem_singleton] at h
      subst h
      simp only [List.length_nil]
      omega
  | cons c r ih =>
    simp only [splitFrom] at h
    split at h
    · rcases List.mem_cons.1 h with rfl | h
      · simp only [List.length_cons]; omega
      · have := ih h (length_trim_le _)
        simp only [List.length_nil, List.length_cons] at *
        omega
    · have := ih h (by have := length_trim_le (c :: part).reverse; simpa using this)
      simp only [List.length_cons] at *
      omega

theorem length_mem_splitTop {sep : Char} {cs p : List Char} (h : p ∈ splitTop sep cs) :
    p.length ≤ cs.length := by
  simpa using length_mem_splitFrom h

theorem length_mem_generic? {cs head p : List Char} {args : List (List Char)}
    (h : generic? cs = some (head, args)) (hp : p ∈ args) : p.length < cs.length := by
  unfold generic? at h
  split at h
  · next hd inner hn =>
    split at h
    · obtain ⟨_, rfl⟩ := Prod.mk.inj (Option.some.inj h)
      have h1 := length_mem_splitTop hp
      have h2 := length_name? hn
      have h3 := length_stripPath_le cs
      simp only [List.length_dropLast, List.length_cons] at *
      omega
    · simp at h
  · simp at h

end RingBridge.Spelling
