import RingBridge.Proofs.Shape.Grammar
import RingBridge.Proofs.Wrapper.Spellings
/-!
The struct in the place of `Self`. It can be put there in the text of a type, or in the shape that the type is read as;
the two agree up to spellings, for types in which `Self` has no arguments and is in none of a named type.
-/
namespace RingBridge
open Spelling

theorem Shape.resolveSelfEach_eq_map (S : Option String) (ts : List Shape) :
    resolveSelfEach S ts = ts.map (resolveSelf S) := by
  induction ts with
  | nil => rfl
  | cons t ts ih => rw [resolveSelfEach, ih, List.map_cons]

def selfName : List Char := "Self".toList

def selfPiece : Piece := .word selfName

def Spelling.Piece.replaceSelf (owner : TypeName) : Piece → Piece
  | .word w => .word (if w = selfName then owner.chars else w)
  | .sep c => .sep c

def Spelling.Segment.replaceSelf (owner : TypeName) (s : Segment) : Segment :=
  if s.chars = selfName then ⟨owner.toIdent, owner.ne_lower _ (by decide)⟩ else s

def TypeName.replaceSelf (name owner : TypeName) : TypeName := if name.chars = selfName then owner else name

namespace TypeExpr

mutual

def replaceSelf (owner : TypeName) : TypeExpr → TypeExpr
  | number w => number w
  | boolean => boolean
  | string => string
  | str => str
  | unit => unit
  | wrapped p h t => wrapped (p.map (Segment.replaceSelf owner)) h (t.replaceSelf owner)
  | paired p h a b => paired (p.map (Segment.replaceSelf owner)) h (a.replaceSelf owner) (b.replaceSelf owner)
  | tuple t ts => tuple (t.replaceSelf owner) (replaceSelfEach owner ts)
  | parens t => parens (t.replaceSelf owner)
  | reference l m t => reference l m (t.replaceSelf owner)
  | slice l m t => slice l m (t.replaceSelf owner)
  | named p n ls ts =>
    named (p.map (Segment.replaceSelf owner)) (n.replaceSelf owner) ls (replaceSelfEach owner ts)

def replaceSelfEach (owner : TypeName) : List TypeExpr → List TypeExpr
  | [] => []
  | t :: ts => t.replaceSelf owner :: replaceSelfEach owner ts

end

mutual

/-- `Self` is not in the arguments of a named type, and has none itself. -/
def SelfApart : TypeExpr → Prop
  | number _ | boolean | string | str | unit => True
  | wrapped _ _ t | parens t | reference _ _ t | slice _ _ t => t.SelfApart
  | paired _ _ a b => a.SelfApart ∧ b.SelfApart
  | tuple t ts => t.SelfApart ∧ SelfApartEach ts
  | named _ n ls ts => (∀ u ∈ ts, selfPiece ∉ u.pieces) ∧ (n.chars = selfName → ls = [] ∧ ts = [])

def SelfApartEach : List TypeExpr → Prop
  | [] => True
  | t :: ts => t.SelfApart ∧ SelfApartEach ts

end

def self : TypeExpr := named [] ⟨⟨'S', ['e', 'l', 'f'], by decide, by decide⟩, by decide, by decide⟩ [] []

theorem selfApart_self : self.SelfApart := ⟨nofun, fun _ => ⟨rfl, rfl⟩⟩

variable {owner : TypeName}

theorem replaceSelfEach_eq_map (ts : List TypeExpr) : replaceSelfEach owner ts = ts.map (replaceSelf owner) := by
  induction ts with
  | nil => rfl
  | cons t ts ih => rw [replaceSelfEach, ih, List.map_cons]

theorem selfApartEach_iff {ts : List TypeExpr} : SelfApartEach ts ↔ ∀ t ∈ ts, t.SelfApart := by
  induction ts with
  | nil => simp [SelfApartEach]
  | cons t ts ih => rw [SelfApartEach, ih, List.forall_mem_cons]

theorem map_joined {f : Piece → Piece} (hf : ∀ c, f (.sep c) = .sep c) (as : List (List Piece)) :
    (joined as).map f = joined (as.map (List.map f)) := by
  induction as with
  | nil => rfl
  | cons a as ih =>
    cases as with
    | nil => rfl
    | cons b bs =>
      rw [joined, List.map_append, List.map_cons, hf, ih]
      rfl

theorem map_tupleItems {f : Piece → Piece} (hf : ∀ c, f (.sep c) = .sep c) (as : List (List Piece)) :
    (tupleItems as).map f = tupleItems (as.map (List.map f)) := by
  obtain _ | ⟨a, _ | ⟨b, bs⟩⟩ := as
  · rfl
  · simp [tupleItems, hf]
  · exact map_joined hf _

theorem map_genericList {f : Piece → Piece} (hf : ∀ c, f (.sep c) = .sep c) (as : List (List Piece)) :
    (genericList as).map f = genericList (as.map (List.map f)) := by
  obtain _ | ⟨a, as⟩ := as
  · rfl
  · simp only [genericList, List.map_cons, List.map_append, List.map_nil, hf, map_joined hf]

theorem map_pathPieces (path : List Segment) :
    (pathPieces path).map (Piece.replaceSelf owner) = pathPieces (path.map (Segment.replaceSelf owner)) := by
  induction path with
  | nil => rfl
  | cons s path ih =>
    have hword : Piece.replaceSelf owner (.word s.chars) = .word (s.replaceSelf owner).chars := by
      rw [Piece.replaceSelf, Segment.replaceSelf]
      split <;> rfl
    show Piece.replaceSelf owner (.word s.chars) :: .sep ':' :: .sep ':' :: (pathPieces path).map _ = _
    rw [hword, ih]
    rfl

/-- A word that does not start as `Self` does stays. -/
theorem replaceSelf_word {w : List Char} (h : w.head? ≠ some 'S') : Piece.replaceSelf owner (.word w) = .word w := by
  rw [Piece.replaceSelf, if_neg]
  rintro rfl
  exact h rfl

theorem replaceSelf_lifetime (l : Ident) :
    Piece.replaceSelf owner (.word ('\'' :: l.chars)) = .word ('\'' :: l.chars) := replaceSelf_word (by simp)

theorem map_lifetimePieces (l : Option Ident) :
    (lifetimePieces l).map (Piece.replaceSelf owner) = lifetimePieces l := by
  cases l with
  | none => rfl
  | some l => exact congrArg (fun p => [p]) (replaceSelf_lifetime l)

theorem map_mutPieces (m : Bool) : (mutPieces m).map (Piece.replaceSelf owner) = mutPieces m := by
  cases m <;> rfl

theorem piecesEach_replaceSelfEach {ts : List TypeExpr}
    (h : ∀ t ∈ ts, (t.replaceSelf owner).pieces = t.pieces.map (Piece.replaceSelf owner)) :
    piecesEach (replaceSelfEach owner ts) = (piecesEach ts).map (List.map (Piece.replaceSelf owner)) := by
  rw [replaceSelfEach_eq_map, piecesEach_eq_map, piecesEach_eq_map, List.map_map, List.map_map]
  exact List.map_congr_left h

/-- The struct stands in the type where the word `Self` stands in its text. -/
theorem pieces_replaceSelf (t : TypeExpr) :
    (t.replaceSelf owner).pieces = t.pieces.map (Piece.replaceSelf owner) := by
  have hsep : ∀ c, Piece.replaceSelf owner (.sep c) = .sep c := fun _ => rfl
  induction t with
  | number w => cases w <;> rfl
  | boolean | string | str | unit => rfl
  | wrapped p w t ih =>
    have hword : Piece.replaceSelf owner (.word w.name.chars) = .word w.name.chars := by
      cases w <;> exact replaceSelf_word (by decide)
    simp only [replaceSelf, pieces, List.map_append, List.map_cons, List.map_nil, map_pathPieces, hsep, hword, ih]
  | paired p w a b iha ihb =>
    have hword : Piece.replaceSelf owner (.word w.name.chars) = .word w.name.chars := by
      cases w <;> exact replaceSelf_word (by decide)
    simp only [replaceSelf, pieces, List.map_append, List.map_cons, List.map_nil, map_pathPieces, hsep, hword, iha, ihb]
  | tuple t ts ih ihs =>
    simp only [replaceSelf, pieces, List.map_append, List.map_cons, List.map_nil, map_tupleItems hsep, hsep, ih,
      piecesEach_replaceSelfEach ihs]
  | parens t ih => simp only [replaceSelf, pieces, List.map_append, List.map_cons, List.map_nil, hsep, ih]
  | reference l m t ih =>
    simp only [replaceSelf, pieces, List.map_append, List.map_cons, map_lifetimePieces, map_mutPieces, hsep, ih]
  | slice l m t ih =>
    simp only [replaceSelf, pieces, List.map_append, List.map_cons, List.map_nil, map_lifetimePieces, map_mutPieces,
      hsep, ih]
  | named p n ls ts ihs =>
    have hname : Piece.replaceSelf owner (.word n.chars) = .word (n.replaceSelf owner).chars := by
      rw [Piece.replaceSelf, TypeName.replaceSelf]
      split <;> rfl
    have hlifetimes : (ls.map fun l => [Piece.word ('\'' :: l.chars)]).map (List.map (Piece.replaceSelf owner)) =
        ls.map fun l => [Piece.word ('\'' :: l.chars)] := by
      rw [List.map_map]
      exact List.map_congr_left fun l _ => congrArg (fun p => [p]) (replaceSelf_lifetime l)
    simp only [replaceSelf, pieces, List.map_append, List.map_cons, map_pathPieces, map_genericList hsep, hname,
      hlifetimes, piecesEach_replaceSelfEach ihs]

theorem replaceSelfEach_eq_self {ts : List TypeExpr} (h : ∀ t ∈ ts, t.replaceSelf owner = t) :
    replaceSelfEach owner ts = ts := by
  rw [replaceSelfEach_eq_map]
  exact (List.map_congr_left h).trans (List.map_id ts)

theorem mem_joined {p : Piece} {a : List Piece} {as : List (List Piece)} (ha : a ∈ as) (hp : p ∈ a) :
    p ∈ joined as := by
  induction as with
  | nil => cases ha
  | cons b bs ih =>
    cases bs with
    | nil => rwa [joined, ← List.mem_singleton.1 ha]
    | cons c cs =>
      rw [joined]
      obtain rfl | ha := List.mem_cons.1 ha
      · exact List.mem_append_left _ hp
      · exact List.mem_append_right _ (List.mem_cons_of_mem _ (ih ha))

theorem mem_tupleItems {p : Piece} {a : List Piece} {as : List (List Piece)} (ha : a ∈ as) (hp : p ∈ a) :
    p ∈ tupleItems as := by
  unfold tupleItems
  split
  · rw [List.mem_singleton.1 ha] at hp
    exact List.mem_append_left _ hp
  · exact mem_joined ha hp

theorem mem_genericList {p : Piece} {a : List Piece} {as : List (List Piece)} (ha : a ∈ as) (hp : p ∈ a) :
    p ∈ genericList as := by
  unfold genericList
  split
  · cases ha
  · exact List.mem_cons_of_mem _ (List.mem_append_left _ (mem_joined ha hp))

theorem replaceSelf_path {path : List Segment} (h : selfPiece ∉ pathPieces path) :
    path.map (Segment.replaceSelf owner) = path := by
  refine List.map_congr_left (fun s hs => ?_) |>.trans (List.map_id path)
  refine if_neg fun hself => h (List.mem_flatMap.2 ⟨s, hs, ?_⟩)
  rw [hself]
  exact List.mem_cons_self ..

/-- Where `Self` does not occur, nothing is replaced. -/
theorem replaceSelf_eq_self {t : TypeExpr} (h : selfPiece ∉ t.pieces) : t.replaceSelf owner = t := by
  induction t with
  | number | boolean | string | str | unit => rfl
  | wrapped p w t ih =>
    simp only [pieces, List.mem_append, List.mem_cons, not_or] at h
    obtain ⟨hp, -, -, ht, -⟩ := h
    rw [replaceSelf, replaceSelf_path hp, ih ht]
  | paired p w a b iha ihb =>
    simp only [pieces, List.mem_append, List.mem_cons, not_or] at h
    obtain ⟨hp, -, -, ⟨ha, -, hb⟩, -⟩ := h
    rw [replaceSelf, replaceSelf_path hp, iha ha, ihb hb]
  | tuple t ts ih ihs =>
    have hitem : ∀ u ∈ t :: ts, selfPiece ∉ u.pieces := by
      intro u hu hself
      refine h (List.mem_cons_of_mem _ (List.mem_append_left _ (mem_tupleItems ?_ hself)))
      rw [piecesEach_eq_map, ← List.map_cons]
      exact List.mem_map_of_mem hu
    rw [replaceSelf, ih (hitem t List.mem_cons_self),
      replaceSelfEach_eq_self fun u hu => ihs u hu (hitem u (List.mem_cons_of_mem _ hu))]
  | parens t ih =>
    simp only [pieces, List.mem_append, List.mem_cons, not_or] at h
    rw [replaceSelf, ih h.2.1]
  | reference l m t ih =>
    simp only [pieces, List.mem_append, List.mem_cons, not_or] at h
    obtain ⟨-, -, -, ht⟩ := h
    rw [replaceSelf, ih ht]
  | slice l m t ih =>
    simp only [pieces, List.mem_append, List.mem_cons, not_or] at h
    obtain ⟨-, -, -, -, ht, -⟩ := h
    rw [replaceSelf, ih ht]
  | named p n ls ts ihs =>
    simp only [pieces, List.mem_append, List.mem_cons, not_or] at h
    obtain ⟨hp, hname, hargs⟩ := h
    have harg : ∀ u ∈ ts, selfPiece ∉ u.pieces := by
      intro u hu hself
      refine hargs (mem_genericList (List.mem_append_right _ ?_) hself)
      rw [piecesEach_eq_map]
      exact List.mem_map_of_mem hu
    rw [replaceSelf, replaceSelf_path hp, TypeName.replaceSelf, if_neg fun hn => hname (congrArg Piece.word hn.symm),
      replaceSelfEach_eq_self fun u hu => ihs u hu (harg u hu)]

theorem namedSpelling_lone (n : TypeName) : namedSpelling n [] [] = String.ofList n.chars := by
  show String.ofList (spell [.word n.chars]) = _
  rw [spell_lone]

theorem refersToText_replaceSelf (l : Option Ident) (t : TypeExpr) :
    refersToText l (t.replaceSelf owner) = refersToText l t := by
  cases t <;> rfl

/-- The struct in the place of `Self`, in the text of a type or in its shape. -/
theorem shape_replaceSelf (howner : owner.chars ≠ selfName) {t : TypeExpr} (h : t.SelfApart) :
    ((t.replaceSelf owner).shape.resolveSelf (some (String.ofList owner.chars))).unspelled =
      (t.shape.resolveSelf (some (String.ofList owner.chars))).unspelled := by
  induction t with
  | number | boolean | string | str | unit => rfl
  | wrapped p w t ih =>
    cases w <;> simp only [replaceSelf, shape, Shape.resolveSelf, Shape.unspelled, ih h]
  | paired p w a b iha ihb =>
    cases w <;> simp only [replaceSelf, shape, Shape.resolveSelf, Shape.unspelled, iha h.1, ihb h.2]
  | tuple t ts ih ihs =>
    simp only [replaceSelf, shape, Shape.resolveSelf, Shape.resolveSelfEach, Shape.unspelled, Shape.unspelledEach,
      ih h.1, replaceSelfEach_eq_map, shapes_eq_map, Shape.resolveSelfEach_eq_map, Shape.unspelledEach_eq_map, List.map_map]
    refine congrArg (fun us => Shape.tuple (_ :: us) "") (List.map_congr_left fun u hu => ?_)
    exact ihs u hu (selfApartEach_iff.1 h.2 u hu)
  | parens t ih => exact ih h
  | reference l m t ih =>
    rw [replaceSelf, shape, shape, refersToText_replaceSelf]
    split
    · next htext =>
      obtain rfl | ⟨-, rfl⟩ := (refersToText_iff l t).1 htext <;> rfl
    · simp only [Shape.resolveSelf, Shape.unspelled, ih h]
  | slice l m t ih => simp only [replaceSelf, shape, Shape.resolveSelf, Shape.unspelled, ih h]
  | named p n ls ts =>
    by_cases hself : n.chars = selfName
    · obtain ⟨rfl, rfl⟩ := h.2 hself
      have howner : String.ofList owner.chars ≠ "Self" := fun ho => howner (String.ofList_injective ho)
      rw [replaceSelf, TypeName.replaceSelf, if_pos hself, replaceSelfEach, shape, shape, namedSpelling_lone,
        namedSpelling_lone, hself, Shape.resolveSelf, if_neg howner]
      rfl
    · rw [replaceSelf, TypeName.replaceSelf, if_neg hself,
        replaceSelfEach_eq_self fun u hu => replaceSelf_eq_self (h.1 u hu)]
      simp only [shape, Shape.resolveSelf]
      split <;> rfl

end TypeExpr
end RingBridge
