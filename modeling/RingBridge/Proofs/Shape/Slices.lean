import RingBridge.Proofs.Shape.Grammar
import RingBridge.Proofs.Shape.Spacing
import RingBridge.Proofs.Spelling.Parts
/-!
References to something in brackets. Whatever stands in the brackets, they are a slice as long as no semicolon occurs
there, at any depth; otherwise they are a reference to a type of no known shape.
-/
namespace RingBridge
open Text Spelling

namespace Spelling

/-- Blanks aside, a text has the characters of its pieces. -/
theorem Spaced.mem_iff {ps : List Piece} {cs : List Char} (h : Spaced ps cs) {c : Char} (hc : isBlank c = false) :
    c ∈ cs ↔ ∃ p ∈ ps, c ∈ p.chars := by
  induction h with
  | nil => simp
  | @blank ps cs b hb h ih =>
    have hne : c ≠ b := by
      rintro rfl
      exact absurd (hc.symm.trans hb) (by decide)
    rw [List.mem_cons, or_iff_right hne, ih]
  | sep h ih => simp [ih, Piece.chars]
  | word he h ih => simp [ih, Piece.chars]

theorem mem_normalize_iff {c : Char} (hc : isBlank c = false) (cs : List Char) : c ∈ normalize cs ↔ c ∈ cs := by
  rw [normalize_eq, (spaced_spell (isValid_piecesOf cs)).mem_iff hc, (spaced_piecesOf cs).mem_iff hc]

def bracketed (l : Option Ident) (m : Bool) (ps : List Piece) : List Piece :=
  .sep '&' :: (lifetimePieces l ++ (mutPieces m ++ .sep '[' :: (ps ++ [.sep ']'])))

theorem isValid_bracketed (l : Option Ident) (m : Bool) {ps : List Piece} (h : ∀ p ∈ ps, p.IsValid) :
    ∀ p ∈ bracketed l m ps, p.IsValid :=
  TypeExpr.isValid_referred l m (TypeExpr.isValid_enclosed (by decide) (by decide) h)

end Spelling

namespace Form

theorem of_brackets (cs : List Char) : of ('[' :: cs) = unknown := by
  have hpath : stripPath ('[' :: cs) = '[' :: cs :=
    stripPath_eq_self (by rw [afterSegment?, name?_eq_none (by decide)])
  have htext : isText ('[' :: cs) = false := by
    have hstr : lifetimeThen isMutStr ('[' :: cs) = false := rfl
    simp [isText, hstr]
  rw [of_plain (generic?_eq_none (by decide) _), ofPlain, isEnclosed_eq_false (by decide),
    ofSpelling?_eq_none (by intro w; cases w <;> decide), htext, show isBool ('[' :: cs) = false from rfl, hpath]
  · rfl
  · exact fun _ h => absurd (List.cons.inj h).1 (by decide)

/-- The test for a semicolon looks at the whole text in the brackets. -/
theorem of_bracketed (l : Option Ident) (m : Bool) {ps : List Piece} (hv : ∀ p ∈ ps, p.IsValid) :
    of (spell (bracketed l m ps))
      = if ';' ∈ spell ps then reference ('[' :: (spell ps ++ [']'])) m else slice (spell ps) m := by
  have hf : Front (.sep '[' :: (ps ++ [.sep ']'])) := .sep (by decide)
  have hv := TypeExpr.isValid_enclosed (o := '[') (c := ']') (by decide) (by decide) hv
  have ht : isText ('&' :: spell (lifetimePieces l ++ (mutPieces m ++ .sep '[' :: (ps ++ [.sep ']'])))) = false := by
    rw [Bool.eq_false_iff]
    intro h
    obtain h | ⟨_, h⟩ := (isText_referred l m hf hv).1 h <;> simp [strPiece, stringPiece] at h
  rw [bracketed, spell, of_reference_marks, ht, referent_pieces l m hf hv, spell_enclosed]
  by_cases hsemi : ';' ∈ spell ps <;> simp [ofReferent, isEnclosed_enclosed, inside_enclosed, hsemi]

end Form

namespace Shape

theorem classify_bracketed (l : Option Ident) (m : Bool) (cs : List Char) :
    classify (spell (bracketed l m (piecesOf cs)))
      = if ';' ∈ cs then reference (unknown (String.ofList ('[' :: (normalize cs ++ [']'])))) m
          (String.ofList (spell (bracketed l m (piecesOf cs))))
        else slice (classify (normalize cs)) m (String.ofList (spell (bracketed l m (piecesOf cs)))) := by
  have hsemi := mem_normalize_iff (by decide : isBlank ';' = false) cs
  rw [normalize_eq] at hsemi
  rw [classify_eq, Form.of_bracketed l m (isValid_piecesOf cs)]
  simp only [hsemi]
  split
  · rw [ofForm, classify_eq, Form.of_brackets, ofForm, normalize_eq]
  · rw [ofForm, normalize_eq]

/-- A reference to something in brackets is a slice of what stands in them exactly if no semicolon does. -/
theorem ofSpelling_bracketed (l : Option Ident) (m : Bool) (t : String) {s : String}
    (h : Spaced (bracketed l m (piecesOf t.toList)) s.toList) :
    ofSpelling s = if ';' ∈ t.toList then
        reference (unknown (String.ofList ('[' :: (normalize t.toList ++ [']'])))) m (onText normalize s)
      else slice (ofSpelling t) m (onText normalize s) := by
  rw [onText, ofSpelling, normalize_spaced h (isValid_bracketed l m (isValid_piecesOf t.toList)), classify_bracketed]
  rfl

theorem ofSpelling_bracketed_rows :
    ofSpelling "&'a mut [ Vec< u8 > ]" = .slice (.vector (.number .u8) "Vec<u8>") true "&'a mut[Vec<u8>]" := by
  have h := ofSpelling_bracketed (some ⟨'a', [], by decide, by decide⟩) true "Vec<u8>" (s := "&'a mut [ Vec< u8 > ]")
    (.sep <| .word (w := ['\'', 'a']) (endsWord_blank rfl _) <| .blank rfl <|
      .word (w := ['m', 'u', 't']) (endsWord_blank rfl _) <| .blank rfl <| .sep <| .blank rfl <|
      .word (w := ['V', 'e', 'c']) (endsWord_sep rfl _) <| .sep <| .blank rfl <|
      .word (w := ['u', '8']) (endsWord_blank rfl _) <| .blank rfl <| .sep <| .blank rfl <| .sep .nil)
  have hrows : ofSpelling "Vec<u8>" = .vector (.number .u8) "Vec<u8>" :=
    TypeExpr.ofSpelling_spelling (.wrapped [] .vec (.number .u8))
  rw [h, if_neg (by decide), hrows]
  rfl

/-- A semicolon inside the item hides the slice: no semicolon of `[u8; 4]` stands outside its brackets, yet a reference
    to brackets around it is taken for a reference to an array. -/
theorem ofSpelling_bracketed_arrays :
    splitTop ';' "[u8; 4]".toList = ["[u8; 4]".toList]
      ∧ ofSpelling "&[[u8; 4]]" = .reference (.unknown "[[u8;4]]") false "&[[u8;4]]"
      ∧ ∀ t m s, ofSpelling "&[[u8; 4]]" ≠ .slice t m s := by
  have hn : normalize "&[[u8; 4]]".toList = spell (bracketed none false (piecesOf "[u8; 4]".toList)) := by decide
  have h : ofSpelling "&[[u8; 4]]" = .reference (.unknown "[[u8;4]]") false "&[[u8;4]]" := by
    rw [ofSpelling, hn, classify_bracketed, if_pos (by decide)]
    rfl
  refine ⟨by decide, h, fun t m s => ?_⟩
  rw [h]
  intro e
  cases e

end Shape
end RingBridge
