import RingBridge.Proofs.Spelling.Head
import RingBridge.Shape
/-!
Type expressions as trees, with the pieces they are written from and the shape that belongs to each. The texts of
all of them have matching brackets and no comma outside of brackets.
-/
namespace RingBridge
open Text Spelling

def builtinNames : List (List Char) :=
  ["Vec".toList, "Option".toList, "Result".toList, "Box".toList, "HashMap".toList, "BTreeMap".toList, "String".toList]

structure TypeName extends Ident where
  upper : isAsciiUpper toIdent.first = true
  notBuiltin : toIdent.chars ∉ builtinNames

inductive Wrapping where
  | vec | option | box | result
deriving DecidableEq

inductive Pairing where
  | result | hashMap | bTreeMap
deriving DecidableEq

def Wrapping.name : Wrapping → Ident
  | vec => ⟨'V', ['e', 'c'], by decide, by decide⟩
  | option => ⟨'O', ['p', 't', 'i', 'o', 'n'], by decide, by decide⟩
  | box => ⟨'B', ['o', 'x'], by decide, by decide⟩
  | result => ⟨'R', ['e', 's', 'u', 'l', 't'], by decide, by decide⟩

def Pairing.name : Pairing → Ident
  | result => Wrapping.result.name
  | hashMap => ⟨'H', ['a', 's', 'h', 'M', 'a', 'p'], by decide, by decide⟩
  | bTreeMap => ⟨'B', ['T', 'r', 'e', 'e', 'M', 'a', 'p'], by decide, by decide⟩

inductive TypeExpr where
  | number (width : NumberType)
  | boolean
  | string
  | str
  | unit
  | wrapped (path : List Segment) (head : Wrapping) (arg : TypeExpr)
  | paired (path : List Segment) (head : Pairing) (fst snd : TypeExpr)
  | tuple (fst : TypeExpr) (others : List TypeExpr)
  | parens (inner : TypeExpr)
  | reference (lifetime : Option Ident) (mutable : Bool) (target : TypeExpr)
  | slice (lifetime : Option Ident) (mutable : Bool) (item : TypeExpr)
  | named (path : List Segment) (name : TypeName) (lifetimes : List Ident) (args : List TypeExpr)

namespace TypeExpr

@[elab_as_elim, induction_eliminator]
theorem induct {P : TypeExpr → Prop} (number : ∀ w, P (number w)) (boolean : P boolean) (string : P string)
    (str : P str) (unit : P unit) (wrapped : ∀ p h t, P t → P (wrapped p h t))
    (paired : ∀ p h a b, P a → P b → P (paired p h a b))
    (tuple : ∀ t ts, P t → (∀ u ∈ ts, P u) → P (tuple t ts)) (parens : ∀ t, P t → P (parens t))
    (reference : ∀ l m t, P t → P (reference l m t)) (slice : ∀ l m t, P t → P (slice l m t))
    (named : ∀ p n ls ts, (∀ u ∈ ts, P u) → P (named p n ls ts)) : ∀ t, P t
  | .number w => number w
  | .boolean => boolean
  | .string => string
  | .str => str
  | .unit => unit
  | .wrapped p h t =>
    wrapped p h t (induct number boolean string str unit wrapped paired tuple parens reference slice named t)
  | .paired p h a b =>
    paired p h a b (induct number boolean string str unit wrapped paired tuple parens reference slice named a)
      (induct number boolean string str unit wrapped paired tuple parens reference slice named b)
  | .tuple t ts =>
    tuple t ts (induct number boolean string str unit wrapped paired tuple parens reference slice named t)
      fun u _ => induct number boolean string str unit wrapped paired tuple parens reference slice named u
  | .parens t => parens t (induct number boolean string str unit wrapped paired tuple parens reference slice named t)
  | .reference l m t =>
    reference l m t (induct number boolean string str unit wrapped paired tuple parens reference slice named t)
  | .slice l m t => slice l m t (induct number boolean string str unit wrapped paired tuple parens reference slice named t)
  | .named p n ls ts =>
    named p n ls ts fun u _ => induct number boolean string str unit wrapped paired tuple parens reference slice named u

def joined : List (List Piece) → List Piece
  | [] => []
  | [a] => a
  | a :: b :: r => a ++ .sep ',' :: joined (b :: r)

def tupleItems : List (List Piece) → List Piece
  | [a] => a ++ [.sep ',']
  | as => joined as

def genericList : List (List Piece) → List Piece
  | [] => []
  | as => .sep '<' :: (joined as ++ [.sep '>'])

mutual

def pieces : TypeExpr → List Piece
  | number w => [.word w.name.toList]
  | boolean => [.word "bool".toList]
  | string => [.word "String".toList]
  | str => [.word "str".toList]
  | unit => [.sep '(', .sep ')']
  | wrapped p h t => pathPieces p ++ .word h.name.chars :: .sep '<' :: (t.pieces ++ [.sep '>'])
  | paired p h a b => pathPieces p ++ .word h.name.chars :: .sep '<' :: ((a.pieces ++ .sep ',' :: b.pieces) ++ [.sep '>'])
  | tuple t ts => .sep '(' :: (tupleItems (t.pieces :: piecesEach ts) ++ [.sep ')'])
  | parens t => .sep '(' :: (t.pieces ++ [.sep ')'])
  | reference l m t => .sep '&' :: (lifetimePieces l ++ (mutPieces m ++ t.pieces))
  | slice l m t => .sep '&' :: (lifetimePieces l ++ (mutPieces m ++ .sep '[' :: (t.pieces ++ [.sep ']'])))
  | named p n ls ts =>
    pathPieces p ++ .word n.chars :: genericList (ls.map (fun l => [.word ('\'' :: l.chars)]) ++ piecesEach ts)

def piecesEach : List TypeExpr → List (List Piece)
  | [] => []
  | t :: ts => t.pieces :: piecesEach ts

end

theorem piecesEach_eq_map (ts : List TypeExpr) : piecesEach ts = ts.map pieces := by
  induction ts with
  | nil => rfl
  | cons t ts ih => rw [piecesEach, ih, List.map_cons]

def spelling (t : TypeExpr) : String := String.ofList (spell t.pieces)

/-- References to owned text without a lifetime, and all references to `str`, are text. -/
def refersToText (lifetime : Option Ident) : TypeExpr → Bool
  | str => true
  | string => lifetime.isNone
  | _ => false

def namedSpelling (name : TypeName) (lifetimes : List Ident) (args : List TypeExpr) : String :=
  (named [] name lifetimes args).spelling

mutual

def shape : TypeExpr → Shape
  | number w => .number w
  | boolean => .boolean
  | string => .text "String"
  | str => .text "str"
  | unit => .unit
  | wrapped p .vec t => .vector t.shape (wrapped p .vec t).spelling
  | wrapped p .option t => .option t.shape (wrapped p .option t).spelling
  | wrapped p .box t => .boxed t.shape (wrapped p .box t).spelling
  | wrapped p .result t => .result t.shape (wrapped p .result t).spelling
  | paired p .result a b => .result a.shape (paired p .result a b).spelling
  | paired p h a b => .mapping a.shape b.shape (paired p h a b).spelling
  | tuple t ts => .tuple (t.shape :: shapes ts) (tuple t ts).spelling
  | parens t => t.shape
  | reference l m t =>
    if refersToText l t then .text (reference l m t).spelling else .reference t.shape m (reference l m t).spelling
  | slice l m t => .slice t.shape m (slice l m t).spelling
  | named p n ls ts => .named (namedSpelling n ls ts) (named p n ls ts).spelling

def shapes : List TypeExpr → List Shape
  | [] => []
  | t :: ts => t.shape :: shapes ts

end

theorem shapes_eq_map (ts : List TypeExpr) : shapes ts = ts.map shape := by
  induction ts with
  | nil => rfl
  | cons t ts ih => rw [shapes, ih, List.map_cons]

theorem isValid_joined {as : List (List Piece)} (h : ∀ a ∈ as, ∀ p ∈ a, p.IsValid) : ∀ p ∈ joined as, p.IsValid := by
  induction as with
  | nil => simp [joined]
  | cons a r ih =>
    have ha := h a List.mem_cons_self
    cases r with
    | nil => simpa [joined] using ha
    | cons b r =>
      intro p hp
      obtain hp | hp := List.mem_append.1 hp
      · exact ha p hp
      · obtain rfl | hp := List.mem_cons.1 hp
        · show isSeparator ',' = true
          decide
        · exact ih (fun c hc => h c (List.mem_cons_of_mem a hc)) p hp

theorem isValid_tupleItems {as : List (List Piece)} (h : ∀ a ∈ as, ∀ p ∈ a, p.IsValid) :
    ∀ p ∈ tupleItems as, p.IsValid := by
  unfold tupleItems
  split
  · next a =>
    intro p hp
    obtain hp | hp := List.mem_append.1 hp
    · exact h a (by simp) p hp
    · obtain rfl := List.mem_singleton.1 hp
      show isSeparator ',' = true
      decide
  · exact isValid_joined h

theorem isValid_enclosed {o c : Char} (ho : isSeparator o = true) (hc : isSeparator c = true) {ps : List Piece}
    (h : ∀ p ∈ ps, p.IsValid) : ∀ p ∈ .sep o :: (ps ++ [.sep c]), p.IsValid := by
  intro p hp
  obtain rfl | hp := List.mem_cons.1 hp
  · exact ho
  · obtain hp | hp := List.mem_append.1 hp
    · exact h p hp
    · obtain rfl := List.mem_singleton.1 hp
      exact hc

theorem isValid_genericList {as : List (List Piece)} (h : ∀ a ∈ as, ∀ p ∈ a, p.IsValid) :
    ∀ p ∈ genericList as, p.IsValid := by
  unfold genericList
  split
  · simp
  · exact isValid_enclosed (by decide) (by decide) (isValid_joined h)

theorem isValid_path (path : List Segment) : ∀ p ∈ pathPieces path, p.IsValid := by
  intro p hp
  obtain ⟨s, _, hs⟩ := List.mem_flatMap.1 hp
  simp only [List.mem_cons, List.not_mem_nil, or_false] at hs
  obtain rfl | rfl | rfl := hs
  · exact s.isValid
  · show isSeparator ':' = true
    decide
  · show isSeparator ':' = true
    decide

theorem isValid_headed (path : List Segment) (x : Ident) {ps : List Piece} (h : ∀ p ∈ ps, p.IsValid) :
    ∀ p ∈ pathPieces path ++ .word x.chars :: ps, p.IsValid := by
  intro p hp
  obtain hp | hp := List.mem_append.1 hp
  · exact isValid_path path p hp
  · obtain rfl | hp := List.mem_cons.1 hp
    · exact x.isValid
    · exact h p hp

theorem isValid_referred (l : Option Ident) (m : Bool) {ps : List Piece} (h : ∀ p ∈ ps, p.IsValid) :
    ∀ p ∈ .sep '&' :: (lifetimePieces l ++ (mutPieces m ++ ps)), p.IsValid := by
  intro p hp
  obtain rfl | hp := List.mem_cons.1 hp
  · show isSeparator '&' = true
    decide
  · obtain hp | hp := List.mem_append.1 hp
    · exact isValid_lifetimePieces l p hp
    · obtain hp | hp := List.mem_append.1 hp
      · exact isValid_mutPieces m p hp
      · exact h p hp

theorem isValid_pieces (t : TypeExpr) : ∀ p ∈ t.pieces, p.IsValid := by
  induction t with
  | number w => cases w <;> simp only [pieces, List.mem_singleton, forall_eq] <;> exact ⟨by decide, by decide⟩
  | boolean => simp only [pieces, List.mem_singleton, forall_eq]; exact ⟨by decide, by decide⟩
  | string => simp only [pieces, List.mem_singleton, forall_eq]; exact ⟨by decide, by decide⟩
  | str => simp only [pieces, List.mem_singleton, forall_eq]; exact ⟨by decide, by decide⟩
  | unit => exact isValid_enclosed (by decide) (by decide) (List.forall_mem_nil _)
  | wrapped p h t ih => exact isValid_headed p h.name (isValid_enclosed (by decide) (by decide) ih)
  | paired p h a b iha ihb =>
    have hboth : ∀ q ∈ [a.pieces, b.pieces], ∀ p ∈ q, p.IsValid := by simpa using ⟨iha, ihb⟩
    have hab := isValid_joined hboth
    exact isValid_headed p h.name (isValid_enclosed (by decide) (by decide) hab)
  | tuple t ts ih ihs =>
    refine isValid_enclosed (by decide) (by decide) (isValid_tupleItems ?_)
    rw [piecesEach_eq_map]
    simpa using ⟨ih, ihs⟩
  | parens t ih => exact isValid_enclosed (by decide) (by decide) ih
  | reference l m t ih => exact isValid_referred l m ih
  | slice l m t ih => exact isValid_referred l m (isValid_enclosed (by decide) (by decide) ih)
  | named p n ls ts ihs =>
    refine isValid_headed p n.toIdent (isValid_genericList ?_)
    intro a ha
    rw [piecesEach_eq_map] at ha
    obtain ha | ha := List.mem_append.1 ha
    · obtain ⟨l, _, rfl⟩ := List.mem_map.1 ha
      simpa using isValid_lifetime l
    · obtain ⟨u, hu, rfl⟩ := List.mem_map.1 ha
      exact ihs u hu

end TypeExpr
end RingBridge
