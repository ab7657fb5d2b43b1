import RingBridge.Proofs.Shape.TypeExpr
/-!
Types are written with matching brackets. No comma of a part can be taken for one of the whole.
-/
namespace RingBridge
open Text Spelling

theorem TypeName.ne_lower (n : TypeName) {c : Char} (r : List Char) (hc : isAsciiUpper c = false) :
    n.chars ≠ c :: r := by
  intro e
  have hu := n.upper
  rw [(List.cons.inj e).1, hc] at hu
  exact absurd hu (by decide)

namespace Spelling

theorem isPlain_of_isWord {c : Char} (h : isWord c = true) : IsPlain c := by
  intro hc
  simp only [List.mem_cons, List.not_mem_nil, or_false] at hc
  obtain rfl | rfl | rfl | rfl | rfl | rfl | rfl | rfl | rfl | rfl | rfl := hc <;> exact absurd h (by decide)

theorem nested_word {b : Bool} {w : List Char} {ps : List Piece} (hw : ∀ c ∈ w, IsPlain c)
    (h : Nested b (spell ps)) : Nested b (spell (.word w :: ps)) := by
  have hgap : ∀ c ∈ gap ps, IsPlain c := by
    cases ps with
    | nil => simp [gap]
    | cons p ps =>
      cases p with
      | sep c => simp [gap]
      | word v => simpa [gap] using (by decide : IsPlain ' ')
  rw [spell_word]
  exact (Nested.of_plain hw).append ((Nested.of_plain hgap).append h)

theorem nested_ident {b : Bool} (x : Ident) {ps : List Piece} (h : Nested b (spell ps)) :
    Nested b (spell (.word x.chars :: ps)) :=
  nested_word (fun c hc => isPlain_of_isWord (x.isWord_chars c hc)) h

theorem nested_enclosed {b : Bool} {o c : Char} {ps : List Piece} (hc : closer? o = some c)
    (h : Nested true (spell ps)) : Nested b (spell (.sep o :: (ps ++ [.sep c]))) := by
  rw [spell, spell_append_sep]
  exact .bracket hc h

theorem nested_path {b : Bool} (path : List Segment) {ps : List Piece} (h : Nested b (spell ps)) :
    Nested b (spell (pathPieces path ++ ps)) := by
  induction path with
  | nil => exact h
  | cons s path ih =>
    rw [pathPieces, List.flatMap_cons, List.append_assoc, ← pathPieces, List.cons_append]
    exact nested_ident s.toIdent (.plain (by decide) (.plain (by decide) ih))

theorem nested_lifetime {b : Bool} (l : Option Ident) {ps : List Piece} (h : Nested b (spell ps)) :
    Nested b (spell (lifetimePieces l ++ ps)) := by
  cases l with
  | none => exact h
  | some l =>
    refine nested_word (fun c hc => ?_) h
    obtain rfl | hc := List.mem_cons.1 hc
    · decide
    · exact isPlain_of_isWord (l.isWord_chars c hc)

theorem nested_mut {b : Bool} (m : Bool) {ps : List Piece} (h : Nested b (spell ps)) :
    Nested b (spell (mutPieces m ++ ps)) := by
  cases m with
  | false => exact h
  | true => exact nested_word (by decide) h

end Spelling

namespace TypeExpr

/-- Pieces between commas are texts between commas. -/
theorem spell_joined (as : List (List Piece)) : spell (joined as) = [','].intercalate (as.map spell) := by
  induction as with
  | nil => rfl
  | cons a r ih =>
    cases r with
    | nil => exact List.intercalate_singleton.symm
    | cons b r =>
      rw [joined, spell_append_sep, ih, List.map_cons, List.map_cons, List.map_cons, List.intercalate_cons_cons,
        List.append_assoc, List.singleton_append]

theorem nested_joined {as : List (List Piece)} (h : ∀ a ∈ as, Nested true (spell a)) : Nested true (spell (joined as)) := by
  induction as with
  | nil => exact .nil
  | cons a r ih =>
    have ha := h a List.mem_cons_self
    cases r with
    | nil => exact ha
    | cons b r =>
      rw [joined, spell_append_sep]
      exact ha.append (.comma (ih fun c hc => h c (List.mem_cons_of_mem a hc)))

theorem nested_tupleItems {as : List (List Piece)} (h : ∀ a ∈ as, Nested true (spell a)) :
    Nested true (spell (tupleItems as)) := by
  unfold tupleItems
  split
  · rw [spell_append_sep]
    exact (h _ List.mem_cons_self).append (.comma .nil)
  · exact nested_joined h

theorem nested_genericList {b : Bool} {as : List (List Piece)} (h : ∀ a ∈ as, Nested true (spell a)) :
    Nested b (spell (genericList as)) := by
  unfold genericList
  split
  · exact .nil
  · exact nested_enclosed rfl (nested_joined h)

/-- The arguments of a named type: lifetimes, then types. -/
theorem forall_mem_args {P : List Piece → Prop} {ls : List Ident} {ts : List TypeExpr}
    (hl : ∀ l ∈ ls, P [.word ('\'' :: l.chars)]) (ht : ∀ t ∈ ts, P t.pieces) :
    ∀ a ∈ ls.map (fun l => [Piece.word ('\'' :: l.chars)]) ++ piecesEach ts, P a := by
  intro a ha
  rw [piecesEach_eq_map] at ha
  obtain ha | ha := List.mem_append.1 ha
  · obtain ⟨l, hm, rfl⟩ := List.mem_map.1 ha
    exact hl l hm
  · obtain ⟨t, hm, rfl⟩ := List.mem_map.1 ha
    exact ht t hm

theorem nested_pieces (t : TypeExpr) : ∀ b, Nested b (spell t.pieces) := by
  induction t with
  | number w => cases w <;> exact fun b => nested_word (by decide) .nil
  | boolean => exact fun b => nested_word (by decide) .nil
  | string => exact fun b => nested_word (by decide) .nil
  | str => exact fun b => nested_word (by decide) .nil
  | unit =>
    have hnil : Nested true (spell []) := .nil
    exact fun b => nested_enclosed rfl hnil
  | wrapped p h t ih => exact fun b => nested_path p (nested_ident h.name (nested_enclosed rfl (ih true)))
  | paired p h x y ihx ihy =>
    intro b
    refine nested_path p (nested_ident h.name (nested_enclosed rfl ?_))
    rw [spell_append_sep]
    exact (ihx true).append (.comma (ihy true))
  | tuple t ts ih ihs =>
    intro b
    refine nested_enclosed rfl (nested_tupleItems ?_)
    rw [piecesEach_eq_map]
    simpa using ⟨ih true, fun u hu => ihs u hu true⟩
  | parens t ih => exact fun b => nested_enclosed rfl (ih true)
  | reference l m t ih => exact fun b => .plain (by decide) (nested_lifetime l (nested_mut m (ih b)))
  | slice l m t ih =>
    exact fun b => .plain (by decide) (nested_lifetime l (nested_mut m (nested_enclosed rfl (ih true))))
  | named p n ls ts ihs =>
    intro b
    refine nested_path p (nested_ident n.toIdent (nested_genericList (forall_mem_args ?_ fun u hu => ihs u hu true)))
    exact fun l _ => nested_lifetime (some l) .nil

theorem front_ident {w : List Char} {c : Char} {r : List Char} (hw : w = c :: r) (hc : isNameStart c = true)
    (hr : ∀ d ∈ r, isWord d = true) (hne : w ≠ "mut".toList) : Front [.word w] := by
  subst hw
  exact .word ⟨c, r, hc, hr⟩ hne rfl

theorem front_headed (path : List Segment) (x : Ident) (hx : x.chars ≠ "mut".toList) {ps : List Piece}
    (hg : gap ps = []) : Front (pathPieces path ++ .word x.chars :: ps) := by
  cases path with
  | nil => exact .word x hx hg
  | cons s path => exact .word s.toIdent s.notKeyword rfl

theorem gap_genericList (as : List (List Piece)) : gap (genericList as) = [] := by
  unfold genericList
  split <;> rfl

theorem front_pieces (t : TypeExpr) : Front t.pieces := by
  cases t with
  | number w => cases w <;> exact front_ident rfl (by decide) (by decide) (by decide)
  | boolean => exact front_ident rfl (by decide) (by decide) (by decide)
  | string => exact front_ident rfl (by decide) (by decide) (by decide)
  | str => exact front_ident rfl (by decide) (by decide) (by decide)
  | wrapped p h t => exact front_headed p h.name (by cases h <;> decide) rfl
  | paired p h a b => exact front_headed p h.name (by cases h <;> decide) rfl
  | named p n ls ts => exact front_headed p n.toIdent (n.ne_lower _ (by decide)) (gap_genericList _)
  | unit | tuple | parens | reference | slice => exact .sep (by decide)

end TypeExpr
end RingBridge
