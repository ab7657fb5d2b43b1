import RingBridge.Shape
/-!
Classification of spellings. `Form.of` looks at one layer of a spelling, `Shape.classify` follows the parts of
each layer down; every part is shorter than the whole.
-/
namespace RingBridge
open Text Spelling

inductive Form where
  | vector (item : List Char)
  | option (item : List Char)
  | result (ok : List Char)
  | boxed (item : List Char)
  | mapping (key value : List Char)
  | unit
  | group (item : List Char)
  | tuple (items : List (List Char))
  | number (width : NumberType)
  | text
  | boolean
  | slice (item : List Char) (mutable : Bool)
  | reference (target : List Char) (mutable : Bool)
  | named (name : List Char)
  | unknown

namespace Form

def parts : Form → List (List Char)
  | vector t | option t | result t | boxed t | group t | slice t _ | reference t _ => [t]
  | mapping k v => [k, v]
  | tuple ts => ts
  | unit | number _ | text | boolean | named _ | unknown => []

def ofGeneric? (head : List Char) : List (List Char) → Option Form
  | [] => none
  | a :: rest =>
    if head = "Vec".toList then some (vector a)
    else if head = "Option".toList then some (option a)
    else if head = "Result".toList then some (result a)
    else if head = "Box".toList then some (boxed a)
    else if head = "HashMap".toList || head = "BTreeMap".toList then
      match rest with
      | b :: _ => some (mapping a b)
      | [] => none
    else none

def isEnclosed (opener closer : Char) (cs : List Char) : Bool :=
  cs.head? == some opener && 2 ≤ cs.length && cs.getLast? == some closer

def inside (cs : List Char) : List Char := cs.tail.dropLast

/-- Parentheses hold nothing, one type, or a tuple; one type with a comma after it is a tuple. -/
def ofParens (cs : List Char) : Form :=
  match splitTop ',' (trim (inside cs)) with
  | [] => unit
  | [t] => if (trim (inside cs)).getLast? == some ',' then tuple [t] else group t
  | ts => tuple ts

/-- Brackets behind a reference are a slice, unless a semicolon makes them an array. -/
def ofReferent (mutable : Bool) (target : List Char) : Form :=
  if isEnclosed '[' ']' target && !target.contains ';' then slice (inside target) mutable
  else reference target mutable

def isNamed : List Char → Bool
  | [] => false
  | c :: r =>
    let tail := r.dropWhile isWord
    isAsciiUpper c && (tail.isEmpty || isEnclosed '<' '>' tail)

def ofPlain (cs : List Char) : Form :=
  if isEnclosed '(' ')' cs then ofParens cs
  else match NumberType.ofSpelling? cs with
    | some w => number w
    | none =>
      if isText cs then text
      else if isBool cs then boolean
      else match cs with
        | '&' :: r => ofReferent (referent r).1 (referent r).2
        | _ => if isNamed (stripPath cs) then named (stripPath cs) else unknown

def of (cs : List Char) : Form :=
  match generic? cs with
  | some (head, args) => (ofGeneric? head args).getD (ofPlain cs)
  | none => ofPlain cs

theorem mem_parts_ofGeneric? {head : List Char} {args : List (List Char)} {f : Form} {p : List Char}
    (h : ofGeneric? head args = some f) (hp : p ∈ f.parts) : p ∈ args := by
  cases args with
  | nil => simp [ofGeneric?] at h
  | cons a rest =>
    simp only [ofGeneric?] at h
    split at h
    · cases h; simp_all [parts]
    split at h
    · cases h; simp_all [parts]
    split at h
    · cases h; simp_all [parts]
    split at h
    · cases h; simp_all [parts]
    split at h
    · split at h
      · cases h
        simp only [parts, List.mem_cons, List.not_mem_nil, or_false] at hp
        rcases hp with rfl | rfl <;> simp
      · simp at h
    · simp at h

theorem length_inside_lt {opener closer : Char} {cs : List Char} (h : isEnclosed opener closer cs) :
    (inside cs).length < cs.length := by
  simp only [isEnclosed, Bool.and_eq_true, decide_eq_true_eq] at h
  simp only [inside, List.length_dropLast, List.length_tail]
  omega

theorem length_parts_ofParens {cs p : List Char} (h : isEnclosed '(' ')' cs) (hp : p ∈ (ofParens cs).parts) :
    p.length < cs.length := by
  have h1 := length_inside_lt h
  have h2 := length_trim_le (inside cs)
  unfold ofParens at hp
  split at hp
  · simp [parts] at hp
  · next t ht =>
    have : p = t := by split at hp <;> simpa [parts] using hp
    subst this
    have hm : p ∈ splitTop ',' (trim (inside cs)) := by simp [ht]
    have := length_mem_splitTop hm
    omega
  · have hm : p ∈ splitTop ',' (trim (inside cs)) := by simpa [parts] using hp
    have := length_mem_splitTop hm
    omega

theorem length_parts_ofReferent {mutable : Bool} {target p : List Char}
    (hp : p ∈ (ofReferent mutable target).parts) : p.length ≤ target.length := by
  unfold ofReferent at hp
  split at hp
  · next h =>
    simp only [Bool.and_eq_true] at h
    have := length_inside_lt h.1
    simp only [parts, List.mem_singleton] at hp
    subst hp
    omega
  · simp only [parts, List.mem_singleton] at hp
    subst hp
    exact Nat.le_refl _

theorem length_parts_ofPlain {cs p : List Char} (hp : p ∈ (ofPlain cs).parts) : p.length < cs.length := by
  unfold ofPlain at hp
  split at hp
  · next h => exact length_parts_ofParens h hp
  · split at hp
    · simp [parts] at hp
    · split at hp
      · simp [parts] at hp
      · split at hp
        · simp [parts] at hp
        · split at hp
          · next r _ _ _ _ =>
            have h1 := length_parts_ofReferent hp
            have h2 := length_referent_le r
            simp only [List.length_cons]
            omega
          · split at hp <;> simp [parts] at hp

theorem length_parts_of {cs p : List Char} (hp : p ∈ (of cs).parts) : p.length < cs.length := by
  unfold of at hp
  split at hp
  · next head args hg =>
    cases hf : ofGeneric? head args with
    | none => rw [hf] at hp; exact length_parts_ofPlain hp
    | some f =>
      rw [hf] at hp
      exact length_mem_generic? hg (mem_parts_ofGeneric? hf hp)
  · exact length_parts_ofPlain hp

end Form

namespace Shape

def classify (cs : List Char) : Shape :=
  let spelling := String.ofList cs
  match _h : Form.of cs with
  | .vector t => vector (classify t) spelling
  | .option t => option (classify t) spelling
  | .result t => result (classify t) spelling
  | .boxed t => boxed (classify t) spelling
  | .mapping k v => mapping (classify k) (classify v) spelling
  | .unit => unit
  | .group t => classify t
  | .tuple ts => tuple (ts.attach.map fun t => classify t.1) spelling
  | .number w => number w
  | .text => text spelling
  | .boolean => boolean
  | .slice t m => slice (classify t) m spelling
  | .reference t m => reference (classify t) m spelling
  | .named n => named (String.ofList n) spelling
  | .unknown => unknown spelling
termination_by cs.length
decreasing_by
  all_goals exact Form.length_parts_of (by rw [_h]; simp [Form.parts, Subtype.property])

def ofSpelling (s : String) : Shape := classify (normalize s.toList)

end Shape
end RingBridge
