import RingBridge.Proofs.Shape.Form
/-!
Classification reads every type expression back, however deep it is and however blanks are set in it.
-/
namespace RingBridge
open Text Spelling

namespace Shape

mutual

def isKnown : Shape → Bool
  | unknown _ => false
  | number _ | text _ | boolean | unit | named _ _ => true
  | vector t _ | slice t _ _ | option t _ | result t _ | boxed t _ | reference t _ _ => t.isKnown
  | mapping k v _ => k.isKnown && v.isKnown
  | tuple ts _ => areKnown ts

def areKnown : List Shape → Bool
  | [] => true
  | t :: ts => t.isKnown && areKnown ts

end

theorem areKnown_eq_all (ts : List Shape) : areKnown ts = ts.all isKnown := by
  induction ts with
  | nil => rfl
  | cons t ts ih => rw [areKnown, ih, List.all_cons]

def ofForm (spelling : String) : Form → Shape
  | .vector t => vector (classify t) spelling
  | .option t => option (classify t) spelling
  | .result t => result (classify t) spelling
  | .boxed t => boxed (classify t) spelling
  | .mapping k v => mapping (classify k) (classify v) spelling
  | .unit => unit
  | .group t => classify t
  | .tuple ts => tuple (ts.map classify) spelling
  | .number w => number w
  | .text => text spelling
  | .boolean => boolean
  | .slice t m => slice (classify t) m spelling
  | .reference t m => reference (classify t) m spelling
  | .named n => named (String.ofList n) spelling
  | .unknown => unknown spelling

theorem classify_eq (cs : List Char) : classify cs = ofForm (String.ofList cs) (Form.of cs) := by
  rw [classify]
  split
  all_goals rename_i h; rw [h, ofForm]
  rw [List.attach_map_val]

end Shape

namespace TypeExpr
open Shape

/-- No type but `str` is written as the word `str`. -/
theorem pieces_eq_str {t : TypeExpr} : t.pieces = [strPiece] ↔ t = str := by
  constructor
  · intro h
    cases t with
    | str => rfl
    | number w => cases w <;> exact absurd h (by decide)
    | boolean | string => exact absurd h (by decide)
    | wrapped p w t => cases w <;> exact absurd (Form.word_of_named h (by simp)) (by decide)
    | paired p w a b => cases w <;> exact absurd (Form.word_of_named h (by simp)) (by decide)
    | named p n ls ts => exact absurd (Form.word_of_named h (by simp)) (n.ne_lower _ (by decide))
    | unit | tuple | parens | reference | slice => simp [pieces, strPiece] at h
  · rintro rfl
    rfl

theorem pieces_eq_string {t : TypeExpr} : t.pieces = [stringPiece] ↔ t = string := by
  constructor
  · intro h
    cases t with
    | string => rfl
    | number w => cases w <;> exact absurd h (by decide)
    | boolean | str => exact absurd h (by decide)
    | wrapped p w t => cases w <;> exact absurd (Form.word_of_named h (by simp)) (by decide)
    | paired p w a b => cases w <;> exact absurd (Form.word_of_named h (by simp)) (by decide)
    | named p n ls ts => exact absurd (Form.word_of_named h (by simp) ▸ by decide) n.notBuiltin
    | unit | tuple | parens | reference | slice => simp [pieces, stringPiece] at h
  · rintro rfl
    rfl

theorem refersToText_iff (l : Option Ident) (t : TypeExpr) :
    refersToText l t = true ↔ t = str ∨ (l = none ∧ t = string) := by
  cases t <;> simp [refersToText]

theorem isText_reference (l : Option Ident) (m : Bool) (t : TypeExpr) :
    isText (spell (reference l m t).pieces) = refersToText l t := by
  rw [Bool.eq_iff_iff, refersToText_iff, pieces, spell, isText_referred l m t.front_pieces t.isValid_pieces,
    pieces_eq_str, pieces_eq_string]

theorem classify_pieces (t : TypeExpr) : classify (spell t.pieces) = t.shape := by
  induction t with
  | number w => rw [classify_eq, Form.of_number, ofForm, shape]
  | boolean => rw [classify_eq, Form.of_boolean, ofForm, shape]
  | string => rw [classify_eq, Form.of_string, ofForm, shape]; rfl
  | str => rw [classify_eq, Form.of_str, ofForm, shape]; rfl
  | unit => rw [classify_eq, Form.of_unit, ofForm, shape]
  | wrapped p h t ih =>
    rw [classify_eq, Form.of_wrapped]
    cases h <;> simp only [ofForm, ih, shape, spelling]
  | paired p h a b iha ihb =>
    rw [classify_eq, Form.of_paired]
    cases h <;> simp only [ofForm, iha, ihb, shape, spelling]
  | tuple t ts ih ihs =>
    have hs : (ts.map fun u => spell u.pieces).map classify = shapes ts := by
      rw [List.map_map, shapes_eq_map]
      exact List.map_congr_left ihs
    rw [classify_eq, Form.of_tuple, ofForm, List.map_cons, ih, hs]
    rfl
  | parens t ih => rw [classify_eq, Form.of_parens, ofForm, ih, shape]
  | reference l m t ih =>
    rw [classify_eq, Form.of_reference, isText_reference, shape]
    cases refersToText l t with
    | false => simp only [Bool.false_eq_true, if_false, ofForm, ih, spelling]
    | true => simp only [if_true, ofForm, spelling]
  | slice l m t ih => rw [classify_eq, Form.of_slice, ofForm, ih]; rfl
  | named p n ls ts ihs => rw [classify_eq, Form.of_named, ofForm]; rfl

theorem isKnown_shape (t : TypeExpr) : t.shape.isKnown = true := by
  induction t with
  | number | boolean | string | str | unit => rfl
  | named p n ls ts ihs => rfl
  | wrapped p h t ih => cases h <;> exact ih
  | paired p h a b iha ihb =>
    cases h with
    | result => exact iha
    | hashMap | bTreeMap => simp only [shape, isKnown, iha, ihb, Bool.and_self]
  | tuple t ts ih ihs =>
    have hs : areKnown (shapes ts) = true := by
      rw [areKnown_eq_all, shapes_eq_map, List.all_map, List.all_eq_true]
      exact ihs
    simp only [shape, isKnown, areKnown, ih, hs, Bool.and_self]
  | parens t ih => exact ih
  | reference l m t ih =>
    rw [shape]
    split
    · rfl
    · exact ih
  | slice l m t ih => exact ih

theorem ofSpelling_of_spaced (t : TypeExpr) {s : String} (h : Spaced t.pieces s.toList) : ofSpelling s = t.shape := by
  rw [ofSpelling, normalize_spaced h t.isValid_pieces, classify_pieces]

theorem ofSpelling_spelling (t : TypeExpr) : ofSpelling t.spelling = t.shape := by
  apply ofSpelling_of_spaced
  rw [spelling, String.toList_ofList]
  exact spaced_spell t.isValid_pieces

/-- Every type is classified as its shape from its spelling and from any other text with the same pieces. -/
theorem ofSpelling_eq_shape (t : TypeExpr) :
    ofSpelling t.spelling = t.shape ∧ (∀ s : String, Spaced t.pieces s.toList → ofSpelling s = t.shape)
      ∧ t.shape.isKnown = true :=
  ⟨ofSpelling_spelling t, fun _ h => ofSpelling_of_spaced t h, isKnown_shape t⟩

theorem ofSpelling_loosely_spaced :
    ofSpelling "std::vec::Vec< &mut  str >" = .vector (.text "&mut str") "std::vec::Vec<&mut str>" := by
  have hs : Spaced (wrapped [⟨⟨'s', ['t', 'd'], by decide, by decide⟩, by decide⟩,
      ⟨⟨'v', ['e', 'c'], by decide, by decide⟩, by decide⟩] .vec (reference none true str)).pieces
      "std::vec::Vec< &mut  str >".toList :=
    .word (w := ['s', 't', 'd']) (endsWord_sep rfl _) <| .sep <| .sep <|
    .word (w := ['v', 'e', 'c']) (endsWord_sep rfl _) <| .sep <| .sep <|
    .word (w := ['V', 'e', 'c']) (endsWord_sep rfl _) <| .sep <| .blank rfl <| .sep <|
    .word (w := ['m', 'u', 't']) (endsWord_blank rfl _) <| .blank rfl <| .blank rfl <|
    .word (w := ['s', 't', 'r']) (endsWord_blank rfl _) <| .blank rfl <| .sep .nil
  exact (ofSpelling_eq_shape _).2.1 _ hs

end TypeExpr
end RingBridge
