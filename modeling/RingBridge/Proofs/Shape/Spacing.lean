import RingBridge.Proofs.Spelling.Pieces
import RingBridge.Proofs.Text.Lines
import RingBridge.Shape.Classify
/-!
Blanks beside separators. Every text is spaced from one list of pieces and no other; its normal form is written from
them, so texts of the same pieces have one normal form and one shape. The normal form is also what is left of the text
when its words are joined by single blanks and every separator takes the blanks on both its sides away.
-/
namespace RingBridge
open Text

namespace Spelling

theorem endsWord_or_word (cs : List Char) :
    EndsWord cs ∨ ∃ d r, cs = d :: r ∧ isSeparator d = false ∧ isBlank d = false := by
  cases cs with
  | nil => exact .inl endsWord_nil
  | cons d r =>
    cases hb : isBlank d with
    | true => exact .inl (endsWord_blank hb r)
    | false =>
      cases hs : isSeparator d with
      | true => exact .inl (endsWord_sep hs r)
      | false => exact .inr ⟨d, r, rfl, hs, hb⟩

/-- One more character in front of a word makes a longer word. -/
theorem Spaced.cons_word {w : List Char} {ps : List Piece} {cs : List Char} (h : Spaced (.word w :: ps) cs)
    (hb : ∀ b ∈ cs.head?, isBlank b = false) (c : Char) : Spaced (.word (c :: w) :: ps) (c :: cs) := by
  cases h with
  | blank hblank _ => exact absurd (hblank.symm.trans (hb _ rfl)) (by decide)
  | word he h => exact .word (w := c :: w) he h

/-- A text is spaced from its pieces. -/
theorem spaced_piecesOf (cs : List Char) : Spaced (piecesOf cs) cs := by
  induction cs with
  | nil => exact .nil
  | cons c r ih =>
    cases hb : isBlank c with
    | true =>
      rw [piecesOf_blank hb]
      exact .blank hb ih
    | false =>
      cases hs : isSeparator c with
      | true =>
        rw [piecesOf_sep hs]
        exact .sep ih
      | false =>
        obtain he | ⟨d, t, rfl, ds, db⟩ := endsWord_or_word r
        · rw [piecesOf_endsWord hs hb he]
          exact .word (w := [c]) he ih
        · obtain ⟨ps, hps⟩ | ⟨w, ps, hps⟩ := piecesOf_cons db t
          · have hv := isValid_piecesOf (d :: t) (.sep d) (hps ▸ List.mem_cons_self)
            exact absurd (ds.symm.trans hv) (by decide)
          · rw [hps] at ih
            rw [piecesOf_cons_word hs hb ds db hps]
            exact ih.cons_word (by rintro b ⟨⟩; exact db) c

/-- The pieces of a text are the only ones that it is spaced from. -/
theorem spaced_iff {ps : List Piece} {cs : List Char} : (∀ p ∈ ps, p.IsValid) ∧ Spaced ps cs ↔ ps = piecesOf cs := by
  constructor
  · rintro ⟨hv, h⟩
    exact (piecesOf_spaced h hv).symm
  · rintro rfl
    exact ⟨isValid_piecesOf cs, spaced_piecesOf cs⟩

/-- Takes away the blanks on both sides of every separator, from left to right. -/
def tighten (cs : List Char) : List Char :=
  match cs with
  | [] => []
  | c :: r =>
    match _h : trimStart (c :: r) with
    | [] => c :: tighten r
    | d :: t => if isSeparator d then d :: tighten (trimStart t) else c :: tighten r
termination_by cs.length
decreasing_by
  · simp
  · have h1 := length_dropWhile_le isBlank (c :: r)
    have h2 := length_dropWhile_le isBlank t
    rw [show (c :: r).dropWhile isBlank = d :: t from _h] at h1
    simp only [trimStart, List.length_cons] at *
    omega
  · simp

theorem trimStart_cons {c : Char} (hc : isBlank c = false) (r : List Char) : trimStart (c :: r) = c :: r := by
  rw [trimStart, List.dropWhile_cons_of_neg (by simp [hc])]

theorem trimStart_blank {c : Char} (hc : isBlank c = true) (r : List Char) : trimStart (c :: r) = trimStart r := by
  rw [trimStart, List.dropWhile_cons_of_pos hc, trimStart]

theorem tighten_nil : tighten [] = [] := by rw [tighten.eq_def]

theorem tighten_of_trimStart {c d : Char} {r t : List Char} (h : trimStart (c :: r) = d :: t) :
    tighten (c :: r) = if isSeparator d then d :: tighten (trimStart t) else c :: tighten r := by
  rw [tighten.eq_def]
  dsimp only
  split
  · next h' => simp [h] at h'
  · next h' =>
    obtain ⟨rfl, rfl⟩ := List.cons.inj (h.symm.trans h')
    rfl

theorem tighten_sep {c : Char} (hc : isSeparator c = true) (r : List Char) :
    tighten (c :: r) = c :: tighten (trimStart r) := by
  rw [tighten_of_trimStart (trimStart_cons (not_blank_of_isSeparator hc) r), if_pos hc]

theorem tighten_word {w : List Char} (hw : ∀ c ∈ w, isSeparator c = false ∧ isBlank c = false) (cs : List Char) :
    tighten (w ++ cs) = w ++ tighten cs := by
  induction w with
  | nil => rfl
  | cons c w ih =>
    obtain ⟨⟨hs, hb⟩, hw⟩ := List.forall_mem_cons.1 hw
    rw [List.cons_append, tighten_of_trimStart (trimStart_cons hb _), if_neg (by simp [hs]), ih hw, List.cons_append]

/-- A blank that stands alone goes if a separator follows, and stays if a word does. -/
theorem tighten_blank {b d : Char} (hb : isBlank b = true) (hd : isBlank d = false) (r : List Char) :
    tighten (b :: d :: r) = if isSeparator d then tighten (d :: r) else b :: tighten (d :: r) := by
  rw [tighten_of_trimStart ((trimStart_blank hb _).trans (trimStart_cons hd r))]
  split
  · next hs => rw [tighten_sep hs]
  · rfl

/-- Every blank is a space and has another character behind it. -/
def Collapsed : List Char → Prop
  | [] => True
  | c :: r => (isBlank c = true → c = ' ' ∧ ∃ d t, r = d :: t ∧ isBlank d = false) ∧ Collapsed r

theorem Collapsed.of_append {as : List Char} {cs : List Char} (h : Collapsed (as ++ cs)) : Collapsed cs := by
  induction as with
  | nil => exact h
  | cons a as ih => exact ih h.2

theorem Collapsed.append {w : List Char} (hw : ∀ c ∈ w, isBlank c = false) {cs : List Char} (h : Collapsed cs) :
    Collapsed (w ++ cs) := by
  induction w with
  | nil => exact h
  | cons c w ih =>
    obtain ⟨hc, hw⟩ := List.forall_mem_cons.1 hw
    exact ⟨fun hb => absurd (hc.symm.trans hb) (by decide), ih hw⟩

theorem collapsed_intercalate {ws : List (List Char)} (h : ∀ w ∈ ws, w ≠ [] ∧ ∀ c ∈ w, isBlank c = false) :
    Collapsed ([' '].intercalate ws) ∧ ∀ b ∈ ([' '].intercalate ws).head?, isBlank b = false := by
  induction ws with
  | nil => exact ⟨trivial, by simp⟩
  | cons w ws ih =>
    obtain ⟨⟨hne, hw⟩, hws⟩ := List.forall_mem_cons.1 h
    obtain ⟨c, w, rfl⟩ := List.exists_cons_of_ne_nil hne
    have hc : isBlank c = false := hw c List.mem_cons_self
    cases ws with
    | nil =>
      rw [List.intercalate_singleton]
      have hnil : Collapsed [] := trivial
      have hcol := Collapsed.append hw hnil
      rw [List.append_nil] at hcol
      exact ⟨hcol, fun b hb => Option.some.inj hb ▸ hc⟩
    | cons v ws =>
      obtain ⟨hcol, hhead⟩ := ih hws
      obtain ⟨d, v, rfl⟩ := List.exists_cons_of_ne_nil (hws v List.mem_cons_self).1
      obtain ⟨t, ht⟩ : ∃ t, [' '].intercalate ((d :: v) :: ws) = d :: t := by
        cases ws with
        | nil => exact ⟨v, List.intercalate_singleton⟩
        | cons u ws => exact ⟨_, List.intercalate_cons_cons⟩
      rw [ht] at hcol hhead
      rw [List.intercalate_cons_cons, List.append_assoc, ht]
      exact ⟨Collapsed.append hw ⟨fun _ => ⟨rfl, d, t, rfl, hhead d rfl⟩, hcol⟩, by simpa using hc⟩

/-- The blank that the pieces of a text ask for in front of them is told by the first character of the text. -/
theorem gap_of_spaced {ps : List Piece} {d : Char} {t : List Char} (h : Spaced ps (d :: t))
    (hv : ∀ p ∈ ps, p.IsValid) (hd : isBlank d = false) : gap ps = if isSeparator d then [] else [' '] := by
  rw [← piecesOf_spaced h hv]
  cases hs : isSeparator d with
  | true => rw [piecesOf_sep hs]; rfl
  | false =>
    obtain ⟨ps', hp⟩ | ⟨w, ps', hp⟩ := piecesOf_cons hd t
    · have hsep := isValid_piecesOf (d :: t) (.sep d) (hp ▸ List.mem_cons_self)
      exact absurd (hs.symm.trans hsep) (by decide)
    · rw [hp]; rfl

/-- What stands behind a word is tightened to the written pieces, with the blank between two words. -/
theorem tighten_spaced {ps : List Piece} {cs : List Char} (h : Spaced ps cs) (hv : ∀ p ∈ ps, p.IsValid)
    (hc : Collapsed cs) :
    tighten (trimStart cs) = spell ps ∧ (EndsWord cs → tighten cs = gap ps ++ spell ps) := by
  induction h with
  | nil => exact ⟨tighten_nil, fun _ => tighten_nil⟩
  | @blank ps cs b hb h ih =>
    obtain ⟨rfl, d, t, rfl, hd⟩ := hc.1 hb
    obtain ⟨ht, -⟩ := ih hv hc.2
    refine ⟨(trimStart_blank hb (d :: t)).symm ▸ ht, fun _ => ?_⟩
    rw [trimStart_cons hd] at ht
    rw [tighten_blank hb hd, gap_of_spaced h hv hd, ht]
    split <;> rfl
  | @sep ps cs c h ih =>
    obtain ⟨hs, hv⟩ := List.forall_mem_cons.1 hv
    obtain ⟨ht, -⟩ := ih hv hc.2
    have htight : tighten (c :: cs) = spell (.sep c :: ps) := by rw [tighten_sep hs, ht, spell]
    rw [trimStart_cons (not_blank_of_isSeparator hs)]
    exact ⟨htight, fun _ => htight⟩
  | @word ps cs w he h ih =>
    obtain ⟨⟨hne, hw⟩, hv⟩ := List.forall_mem_cons.1 hv
    obtain ⟨-, ht⟩ := ih hv hc.of_append
    obtain ⟨c, w, rfl⟩ := List.exists_cons_of_ne_nil hne
    obtain ⟨hs, hb⟩ := hw c List.mem_cons_self
    have htight : tighten (c :: w ++ cs) = spell (.word (c :: w) :: ps) := by
      rw [tighten_word hw, ht he, spell_word]
    refine ⟨(trimStart_cons hb (w ++ cs)).symm ▸ htight, fun hend => ?_⟩
    obtain hblank | hsep := hend c rfl
    · exact absurd (hb.symm.trans hblank) (by decide)
    · exact absurd (hs.symm.trans hsep) (by decide)

theorem piecesOf_unbroken {w : List Char} (h : w ≠ [] ∧ ∀ c ∈ w, isBlank c = false) : piecesOf w = pieces w := by
  rw [piecesOf, words, splitWhere_of_forall h.2, List.filter_cons_of_pos (by simp [h.1])]
  simp

/-- The normal form, from the words of the text. -/
theorem normalize_eq_tighten (cs : List Char) : normalize cs = trim (tighten ([' '].intercalate (words cs))) := by
  have hwords : ∀ w ∈ words cs, w ≠ [] ∧ ∀ c ∈ w, isBlank c = false := by
    intro w hw
    obtain ⟨hw, hne⟩ := List.mem_filter.1 hw
    exact ⟨by simpa using hne, not_blank_of_mem_splitWhere hw⟩
  obtain ⟨hcol, hhead⟩ := collapsed_intercalate hwords
  have hpieces : piecesOf ([' '].intercalate (words cs)) = piecesOf cs := by
    rw [piecesOf_intercalate, piecesOf, List.flatMap_def, List.flatMap_def]
    exact congrArg _ (List.map_congr_left fun w hw => piecesOf_unbroken (hwords w hw))
  have ht := (tighten_spaced (spaced_piecesOf _) (isValid_piecesOf _) hcol).1
  rw [trimStart_eq_self hhead, hpieces] at ht
  rw [ht, trim_spell (isValid_piecesOf cs), normalize_eq]

end Spelling

namespace Shape
open Spelling

/-- A text has one list of pieces, however its blanks are set, and the normal form writes these pieces. -/
theorem ofSpelling_respaced (s : String) : ∃ ps : List Piece,
    (∀ qs, ((∀ q ∈ qs, q.IsValid) ∧ Spaced qs s.toList) ↔ qs = ps)
      ∧ normalize s.toList = trim (tighten ([' '].intercalate (words s.toList)))
      ∧ normalize s.toList = spell ps
      ∧ Spaced ps (normalize s.toList)
      ∧ normalize (normalize s.toList) = normalize s.toList
      ∧ ∀ t : String, Spaced ps t.toList →
          normalize t.toList = normalize s.toList ∧ ofSpelling t = ofSpelling s := by
  have hv := isValid_piecesOf s.toList
  have hn : ∀ cs, Spaced (piecesOf s.toList) cs → normalize cs = normalize s.toList :=
    fun cs h => (normalize_spaced h hv).trans (normalize_eq _).symm
  have hself : Spaced (piecesOf s.toList) (normalize s.toList) := normalize_eq s.toList ▸ spaced_spell hv
  refine ⟨piecesOf s.toList, fun qs => spaced_iff, normalize_eq_tighten _, normalize_eq _, hself, hn _ hself,
    fun t ht => ⟨hn _ ht, ?_⟩⟩
  rw [ofSpelling, ofSpelling, hn _ ht]

theorem ofSpelling_respaced_slice :
    ofSpelling " & mut [\tstr\n\u2003] " = ofSpelling "&mut[str]" := by
  obtain ⟨ps, hps, -, -, -, -, h⟩ := ofSpelling_respaced "&mut[str]"
  obtain rfl : [Piece.sep '&', .word ['m', 'u', 't'], .sep '[', .word ['s', 't', 'r'], .sep ']'] = ps := by
    refine (hps _).1 ⟨by decide, ?_⟩
    exact .sep <| .word (w := ['m', 'u', 't']) (endsWord_sep rfl _) <| .sep <|
      .word (w := ['s', 't', 'r']) (endsWord_sep rfl _) <| .sep .nil
  refine (h _ ?_).2
  exact .blank rfl <| .sep <| .blank rfl <| .word (w := ['m', 'u', 't']) (endsWord_blank rfl _) <| .blank rfl <| .sep <|
    .blank rfl <| .word (w := ['s', 't', 'r']) (endsWord_blank rfl _) <| .blank rfl <| .blank rfl <| .sep <|
    .blank rfl .nil

end Shape
end RingBridge
