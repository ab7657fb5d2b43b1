import RingBridge.Proofs.Shape.Brackets
import RingBridge.Proofs.Spelling.Primitive
import RingBridge.Shape.Classify
/-!
The outermost layer of every type expression. The tests of `Form.of` come in a fixed order, so each layer is shown
to pass by all tests before its own.
-/
namespace RingBridge
open Text Spelling

namespace Form
open TypeExpr

theorem of_generic {path : List Segment} {x : Ident} {ps : List Piece} {f : Form} (hn : Nested true (spell ps))
    (hf : ofGeneric? x.chars (splitTop ',' (spell ps)) = some f) :
    of (spell (pathPieces path ++ .word x.chars :: .sep '<' :: (ps ++ [.sep '>']))) = f := by
  rw [of, generic?_list path x hn]
  simp only [hf, Option.getD_some]

theorem of_plain {cs : List Char} (h : generic? cs = none) : of cs = ofPlain cs := by
  rw [of, h]

theorem splitTop_joined (ts : List TypeExpr) :
    splitTop ',' (spell (joined (ts.map TypeExpr.pieces))) = ts.map fun t => spell t.pieces := by
  rw [spell_joined, List.map_map]
  apply splitTop_intercalate
  intro a ha
  obtain ⟨t, _, rfl⟩ := List.mem_map.1 ha
  exact ⟨t.nested_pieces false, trim_spell t.isValid_pieces, t.front_pieces.ne_nil⟩

theorem of_wrapped (p : List Segment) (h : Wrapping) (t : TypeExpr) :
    of (spell (wrapped p h t).pieces) = match h with
      | .vec => vector (spell t.pieces)
      | .option => option (spell t.pieces)
      | .box => boxed (spell t.pieces)
      | .result => result (spell t.pieces) := by
  have hs : splitTop ',' (spell t.pieces) = [spell t.pieces] := splitTop_joined [t]
  apply of_generic (t.nested_pieces true)
  rw [hs]
  cases h <;> rfl

theorem of_paired (p : List Segment) (h : Pairing) (a b : TypeExpr) :
    of (spell (paired p h a b).pieces) = match h with
      | .result => result (spell a.pieces)
      | .hashMap | .bTreeMap => mapping (spell a.pieces) (spell b.pieces) := by
  have hs : splitTop ',' (spell (a.pieces ++ .sep ',' :: b.pieces)) = [spell a.pieces, spell b.pieces] :=
    splitTop_joined [a, b]
  have hn : Nested true (spell (a.pieces ++ .sep ',' :: b.pieces)) := by
    rw [spell_append_sep]
    exact (a.nested_pieces true).append (.comma (b.nested_pieces true))
  apply of_generic hn
  rw [hs]
  cases h <;> rfl

theorem of_ident (x : Ident) : of (spell [.word x.chars]) = ofPlain x.chars := by
  have h : generic? (spell [.word x.chars]) = none := generic?_word [] x
  rw [of_plain h, spell_lone]

theorem of_number (w : NumberType) : of (spell (TypeExpr.number w).pieces) = number w := by
  have h : ∃ x : Ident, x.chars = w.name.toList := by
    cases w <;> exact ⟨⟨_, _, by decide, by decide⟩, rfl⟩
  obtain ⟨x, hx⟩ := h
  rw [TypeExpr.pieces, ← hx, of_ident, hx]
  cases w <;> rfl

theorem of_boolean : of (spell TypeExpr.boolean.pieces) = boolean :=
  of_ident ⟨'b', ['o', 'o', 'l'], by decide, by decide⟩

theorem of_string : of (spell TypeExpr.string.pieces) = text :=
  of_ident ⟨'S', ['t', 'r', 'i', 'n', 'g'], by decide, by decide⟩

theorem of_str : of (spell TypeExpr.str.pieces) = text :=
  of_ident ⟨'s', ['t', 'r'], by decide, by decide⟩

theorem inside_enclosed (o c : Char) (cs : List Char) : inside (o :: (cs ++ [c])) = cs := by
  simp [inside]

theorem isEnclosed_enclosed (o c : Char) (cs : List Char) : isEnclosed o c (o :: (cs ++ [c])) = true := by
  have hl : (o :: (cs ++ [c])).getLast? = some c := by rw [← List.cons_append, List.getLast?_concat]
  simp [isEnclosed, hl]

theorem isEnclosed_eq_false {o c d : Char} (h : d ≠ o) (cs : List Char) : isEnclosed o c (d :: cs) = false := by
  simp [isEnclosed, h]

theorem spell_enclosed (o c : Char) (ps : List Piece) :
    spell (.sep o :: (ps ++ [.sep c])) = o :: (spell ps ++ [c]) := by
  rw [spell, spell_append_sep]
  rfl

theorem ofParens_eq {cs ts : List Char} (h : trim (inside cs) = ts) : ofParens cs = match splitTop ',' ts with
    | [] => unit
    | [t] => if ts.getLast? == some ',' then tuple [t] else group t
    | us => tuple us := by
  subst h
  rfl

theorem of_enclosed {ps : List Piece} (hv : ∀ p ∈ ps, p.IsValid) :
    of (spell (.sep '(' :: (ps ++ [.sep ')']))) = match splitTop ',' (spell ps) with
      | [] => unit
      | [t] => if (spell ps).getLast? == some ',' then tuple [t] else group t
      | ts => tuple ts := by
  have hinside : trim (inside ('(' :: (spell ps ++ [')']))) = spell ps := by
    rw [inside_enclosed, trim_spell hv]
  rw [spell_enclosed, of_plain (generic?_eq_none (by decide) _)]
  unfold ofPlain
  rw [if_pos (isEnclosed_enclosed _ _ _)]
  exact ofParens_eq hinside

theorem of_unit : of (spell TypeExpr.unit.pieces) = unit := of_enclosed (List.forall_mem_nil _)

theorem of_parens (t : TypeExpr) : of (spell (parens t).pieces) = group (spell t.pieces) := by
  have hs : splitTop ',' (spell t.pieces) = [spell t.pieces] := splitTop_joined [t]
  have hl : (spell t.pieces).getLast? ≠ some ',' := (t.nested_pieces false).getLast?_ne
  rw [TypeExpr.pieces, of_enclosed t.isValid_pieces, hs]
  simp [hl]

theorem of_tuple (t : TypeExpr) (ts : List TypeExpr) :
    of (spell (TypeExpr.tuple t ts).pieces) = tuple (spell t.pieces :: ts.map fun u => spell u.pieces) := by
  have hv : ∀ p ∈ tupleItems (t.pieces :: piecesEach ts), p.IsValid := by
    apply isValid_tupleItems
    rw [piecesEach_eq_map, ← List.map_cons]
    intro a ha
    obtain ⟨u, _, rfl⟩ := List.mem_map.1 ha
    exact u.isValid_pieces
  rw [TypeExpr.pieces, of_enclosed hv, piecesEach_eq_map]
  cases ts with
  | nil =>
    have hs : splitTop ',' (spell t.pieces ++ [',']) = [spell t.pieces] :=
      splitTop_comma (t.nested_pieces false) (trim_spell t.isValid_pieces)
    rw [List.map_nil, tupleItems, spell_append_sep, spell, hs]
    simp
  | cons u ts =>
    have hs : splitTop ',' (spell (joined ((t :: u :: ts).map TypeExpr.pieces))) =
        (t :: u :: ts).map fun v => spell v.pieces := splitTop_joined _
    rw [List.map_cons, List.map_cons] at hs
    rw [List.map_cons, tupleItems, hs]
    · rfl
    · simp

theorem ofSpelling?_eq_none {c : Char} (h : ∀ w : NumberType, w.name.toList.head? ≠ some c) (cs : List Char) :
    NumberType.ofSpelling? (c :: cs) = none := by
  rw [NumberType.ofSpelling?, List.find?_eq_none]
  intro w _ he
  rw [beq_iff_eq] at he
  exact h w (by rw [he]; rfl)

theorem of_reference_marks (r : List Char) :
    of ('&' :: r) = if isText ('&' :: r) then text else ofReferent (referent r).1 (referent r).2 := by
  rw [of_plain (generic?_eq_none (by decide) _), ofPlain, if_neg (by simp [isEnclosed]),
    ofSpelling?_eq_none (by intro w; cases w <;> decide)]
  simp [isBool]

theorem head_ne_bracket (t : TypeExpr) (r : List Char) : spell t.pieces ≠ '[' :: r := by
  have hhead : ∀ (path : List Segment) (x : Ident) (ps : List Piece),
      spell (pathPieces path ++ .word x.chars :: ps) ≠ '[' :: r := by
    intro path x ps e
    have hx : ∀ (y : Ident) (qs : List Piece), spell (.word y.chars :: qs) ≠ '[' :: r := by
      intro y qs e
      rw [spell_word] at e
      have hs := y.starts
      rw [(List.cons.inj e).1] at hs
      exact absurd hs (by decide)
    cases path with
    | nil => exact hx x ps e
    | cons s path => exact hx s.toIdent _ e
  cases t with
  | wrapped p h t => exact hhead p h.name _
  | paired p h a b => exact hhead p h.name _
  | named p n ls ts => exact hhead p n.toIdent _
  | number w => cases w <;> simp [TypeExpr.pieces, spell, NumberType.name]
  | boolean | string | str | unit | tuple | parens | reference | slice => simp [TypeExpr.pieces, spell]

theorem of_reference (l : Option Ident) (m : Bool) (t : TypeExpr) :
    of (spell (TypeExpr.reference l m t).pieces)
      = if isText (spell (TypeExpr.reference l m t).pieces) then text else reference (spell t.pieces) m := by
  have hb : isEnclosed '[' ']' (spell t.pieces) = false := by
    cases h : spell t.pieces with
    | nil => rfl
    | cons c r =>
      apply isEnclosed_eq_false
      rintro rfl
      exact head_ne_bracket t r h
  rw [TypeExpr.pieces, spell, of_reference_marks, referent_pieces l m t.front_pieces t.isValid_pieces]
  simp [ofReferent, hb]

theorem of_slice (l : Option Ident) (m : Bool) (t : TypeExpr) :
    of (spell (TypeExpr.slice l m t).pieces) = slice (spell t.pieces) m := by
  have hf : Front (.sep '[' :: (t.pieces ++ [.sep ']'])) := .sep (by decide)
  have hv := isValid_enclosed (o := '[') (c := ']') (by decide) (by decide) t.isValid_pieces
  have hsemi : ';' ∉ spell t.pieces := (t.nested_pieces true).semicolon
  have ht : isText ('&' :: spell (lifetimePieces l ++ (mutPieces m ++ .sep '[' :: (t.pieces ++ [.sep ']'])))) = false := by
    rw [Bool.eq_false_iff]
    intro h
    obtain h | ⟨_, h⟩ := (isText_referred l m hf hv).1 h <;> simp [strPiece, stringPiece] at h
  rw [TypeExpr.pieces, spell, of_reference_marks, ht, referent_pieces l m hf hv, spell_enclosed]
  simp [ofReferent, isEnclosed_enclosed, inside_enclosed, hsemi]

theorem isTail_genericList (as : List (List Piece)) : IsTail (spell (genericList as)) := by
  unfold genericList
  split
  · exact .inl rfl
  · exact .inr ⟨_, rfl⟩

theorem isNamed_head (n : TypeName) (as : List (List Piece)) : isNamed (n.chars ++ spell (genericList as)) = true := by
  have ht := isTail_genericList as
  have hd := dropWhile_isWord n.continues ht.stopsWord
  have he : (spell (genericList as)).isEmpty = true ∨ isEnclosed '<' '>' (spell (genericList as)) = true := by
    unfold genericList
    split
    · exact .inl rfl
    · right
      rw [spell_enclosed]
      exact isEnclosed_enclosed _ _ _
  simp only [Ident.chars, List.cons_append, isNamed, n.upper, hd, Bool.true_and, Bool.or_eq_true]
  exact he

theorem ofGeneric?_named (n : TypeName) (args : List (List Char)) : ofGeneric? n.chars args = none := by
  have h := n.notBuiltin
  simp only [builtinNames, List.mem_cons, List.not_mem_nil, or_false, not_or] at h
  obtain ⟨hvec, hoption, hresult, hbox, hhash, htree, _⟩ := h
  cases args with
  | nil => rfl
  | cons a r =>
    have hmap : ¬ (decide (n.chars = "HashMap".toList) || decide (n.chars = "BTreeMap".toList)) = true := by
      rw [Bool.or_eq_true, decide_eq_true_eq, decide_eq_true_eq]
      exact fun h => h.elim hhash htree
    simp only [ofGeneric?, if_neg hvec, if_neg hoption, if_neg hresult, if_neg hbox, if_neg hmap]

/-- A named type that starts with a word which no separator follows has no path. -/
theorem word_of_named {p : List Segment} {x : Ident} {qs rs : List Piece} {w : List Char}
    (h : pathPieces p ++ .word x.chars :: qs = .word w :: rs) (hr : ∀ c os, rs ≠ .sep c :: os) : x.chars = w := by
  cases p with
  | nil => exact Piece.word.inj (List.cons.inj h).1
  | cons s p => exact absurd (List.cons.inj h).2.symm (hr ':' _)

theorem generic?_named (p : List Segment) (n : TypeName) {as : List (List Piece)}
    (hn : ∀ a ∈ as, Nested true (spell a)) :
    generic? (spell (pathPieces p ++ .word n.chars :: genericList as)) = none
      ∨ ∃ args, generic? (spell (pathPieces p ++ .word n.chars :: genericList as)) = some (n.chars, args) := by
  unfold genericList
  split
  · exact .inl (generic?_word p n.toIdent)
  · exact .inr ⟨_, generic?_list p n.toIdent (nested_joined hn)⟩

theorem head_named (p : List Segment) (x : Ident) (qs : List Piece) :
    ∃ c r, spell (pathPieces p ++ .word x.chars :: qs) = c :: r ∧ isNameStart c = true := by
  cases p with
  | nil => exact ⟨x.first, _, spell_word _ _, x.starts⟩
  | cons s p => exact ⟨s.first, _, spell_word _ _, s.starts⟩

theorem ofPlain_named (p : List Segment) (n : TypeName) (as : List (List Piece))
    (hv : ∀ q ∈ pathPieces p ++ .word n.chars :: genericList as, q.IsValid) :
    ofPlain (spell (pathPieces p ++ .word n.chars :: genericList as))
      = named (n.chars ++ spell (genericList as)) := by
  have hpath := stripPath_head p n.toIdent (gap_genericList as) (isTail_genericList as)
  obtain ⟨c, r, hcr, hc⟩ := head_named p n.toIdent (genericList as)
  -- no text that starts with a lower case word and ends there is a named type
  have hword : ∀ {d : Char} {w : List Char} {rs : List Piece}, isAsciiUpper d = false → (∀ e os, rs ≠ .sep e :: os) →
      pathPieces p ++ .word n.chars :: genericList as ≠ .word (d :: w) :: rs :=
    fun hd hr e => n.ne_lower _ hd (word_of_named e hr)
  have hstring : pathPieces p ++ .word n.chars :: genericList as ≠ [stringPiece] := by
    intro e
    exact n.notBuiltin (word_of_named e (by simp) ▸ by decide)
  have hhead : ∀ {d : Char}, isNameStart d = false → ∀ r,
      spell (pathPieces p ++ .word n.chars :: genericList as) ≠ d :: r := by
    intro d hd r e
    rw [hcr] at e
    rw [(List.cons.inj e).1, hd] at hc
    exact absurd hc (by decide)
  generalize pathPieces p ++ .word n.chars :: genericList as = ps at *
  have hnumber : NumberType.ofSpelling? (spell ps) = none := by
    rw [NumberType.ofSpelling?, List.find?_eq_none]
    intro w _ he
    rw [beq_iff_eq] at he
    have hps := eq_of_spell_word hv (w := w.name.toList) (by cases w <;> exact ⟨by decide, by decide⟩) he.symm
    cases w <;> exact absurd hps (hword (by decide) (by simp))
  have htext : isText (spell ps) = false := by
    rw [Bool.eq_false_iff]
    intro h
    obtain h | ⟨m, h⟩ := pieces_isText hv (hhead (by decide)) (hhead (by decide)) h
    · exact absurd h hstring
    · cases m with
      | false => exact absurd h (hword (by decide) (by simp))
      | true => exact absurd h (hword (by decide) (by simp [strPiece]))
  have hbool : isBool (spell ps) = false := by
    rw [Bool.eq_false_iff]
    intro h
    have hps := eq_of_spell_word hv (w := "bool".toList) ⟨by decide, by decide⟩ (beq_iff_eq.1 h)
    exact absurd hps (hword (by decide) (by simp))
  have hparen : isEnclosed '(' ')' (spell ps) = false := by
    rw [hcr]
    exact isEnclosed_eq_false (by rintro rfl; exact absurd hc (by decide)) r
  unfold ofPlain
  simp only [hparen, hnumber, htext, hbool, Bool.false_eq_true, if_false]
  split
  · next r h => exact absurd h (hhead (by decide) r)
  · rw [hpath, if_pos (isNamed_head n as)]

theorem of_named (p : List Segment) (n : TypeName) (ls : List Ident) (ts : List TypeExpr) :
    of (spell (TypeExpr.named p n ls ts).pieces) = named (spell (TypeExpr.named [] n ls ts).pieces) := by
  have hn : ∀ a ∈ ls.map (fun l => [Piece.word ('\'' :: l.chars)]) ++ piecesEach ts, Nested true (spell a) :=
    forall_mem_args (fun l _ => nested_lifetime (some l) .nil) fun t _ => t.nested_pieces true
  have hplain := ofPlain_named p n _ (TypeExpr.named p n ls ts).isValid_pieces
  have hhead := spell_head n.toIdent (gap_genericList (ls.map (fun l => [Piece.word ('\'' :: l.chars)]) ++ piecesEach ts))
  have hof : of (spell (TypeExpr.named p n ls ts).pieces) = ofPlain (spell (TypeExpr.named p n ls ts).pieces) := by
    rw [TypeExpr.pieces]
    obtain h | ⟨args, h⟩ := generic?_named p n hn
    · exact of_plain h
    · rw [of, h]
      simp only [ofGeneric?_named, Option.getD_none]
  rw [hof, TypeExpr.pieces, hplain, TypeExpr.pieces, pathPieces, List.flatMap_nil, List.nil_append, hhead]

end Form
end RingBridge
