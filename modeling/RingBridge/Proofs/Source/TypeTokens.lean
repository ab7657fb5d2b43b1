import RingBridge.Proofs.Source.Reads
import RingBridge.Proofs.Spelling.Pieces
/-!
The tokens of types: words, groups in parentheses or brackets, and angle brackets, nested jointly. A search for the
end of a type passes over them as a whole, and no part of them ends it.
-/
namespace RingBridge.Source
open Text Spelling

def bracketChars : List Char := ['<', '>', '(', ')', '[', ']', '\x7b', '\x7d']

structure TypeWord extends Word where
  notDoc : toWord.kind ≠ .doc
  front : ∃ c r, toWord.text.toList = c :: r ∧ isBlank c = false ∧ c ∉ bracketChars

theorem TypeWord.text_ne (w : TypeWord) {c : Char} (hc : c ∈ bracketChars) : w.text ≠ String.singleton c := by
  obtain ⟨d, r, h, _, hd⟩ := w.front
  intro e
  rw [e, String.toList_singleton] at h
  exact hd ((List.cons.inj h).1 ▸ hc)

theorem TypeWord.isBracket (w : TypeWord) : w.toWord.isBracket = false := by
  have hd : ∀ d : Delimiter, d.opening ≠ w.text ∧ d.closing ≠ w.text := by
    intro d
    cases d
    · exact ⟨(w.text_ne (c := '(') (by decide)).symm, (w.text_ne (c := ')') (by decide)).symm⟩
    · exact ⟨(w.text_ne (c := '[') (by decide)).symm, (w.text_ne (c := ']') (by decide)).symm⟩
    · exact ⟨(w.text_ne (c := '\x7b') (by decide)).symm, (w.text_ne (c := '\x7d') (by decide)).symm⟩
  simp [Word.isBracket, hd]

theorem TypeWord.typeNesting (w : TypeWord) : Read.typeNesting w.text = 0 := by
  have h : ∀ c ∈ bracketChars, w.text ≠ String.singleton c := fun c hc => w.text_ne hc
  simp only [bracketChars, List.forall_mem_cons] at h
  obtain ⟨h1, h2, h3, h4, h5, h6, _⟩ := h
  simp only [Read.typeNesting, List.contains_cons, List.contains_nil, Bool.or_false, Bool.or_eq_true, beq_iff_eq]
  rw [if_neg, if_neg]
  · exact fun h => h.elim h2 fun h => h.elim h4 h6
  · exact fun h => h.elim h1 fun h => h.elim h3 h5

inductive TypeGroup where
  | paren | bracket
deriving DecidableEq

def TypeGroup.delimiter : TypeGroup → Delimiter
  | paren => .paren
  | bracket => .bracket

def Word.less : Word := ⟨.punct, "<"⟩

def Word.greater : Word := ⟨.punct, ">"⟩

inductive TypeTokens where
  | nil
  | word (w : TypeWord) (rest : TypeTokens)
  | group (d : TypeGroup) (inner rest : TypeTokens)
  | angle (inner rest : TypeTokens)

namespace TypeTokens

def balanced : TypeTokens → Balanced
  | nil => .nil
  | word w r => .word w.toWord w.isBracket r.balanced
  | group d inner r => .group d.delimiter inner.balanced r.balanced
  | angle inner r => .word .less (by decide) (inner.balanced ++ .word .greater (by decide) r.balanced)

def words (ts : TypeTokens) : List Word := ts.balanced.words

def marks (ts : TypeTokens) : List Mark := ts.balanced.marks

def texts (ts : TypeTokens) : List String := ts.words.map Word.text

def outer : TypeTokens → List TypeWord
  | nil => []
  | word w r => w :: r.outer
  | group _ _ r => r.outer
  | angle _ r => r.outer

def Lacks (ts : TypeTokens) (stops : List String) : Prop := ∀ w ∈ ts.outer, w.text ∉ stops

theorem texts_eq_marks (ts : TypeTokens) : ts.texts = ts.marks.map fun m => m.word.text := by
  rw [texts, words, ← Balanced.map_word_marks, List.map_map]
  rfl

theorem marks_angle (inner r : TypeTokens) :
    (angle inner r).marks = ⟨.less, none⟩ :: (inner.marks ++ ⟨.greater, none⟩ :: r.marks) := by
  rw [marks, balanced, Balanced.marks, Balanced.marks_append]
  rfl

theorem texts_group (d : TypeGroup) (inner r : TypeTokens) :
    (group d inner r).texts = d.delimiter.opening :: (inner.texts ++ d.delimiter.closing :: r.texts) := by
  simp only [texts, words, balanced, Balanced.words, List.map_cons, List.map_append]
  rfl

theorem texts_angle (inner r : TypeTokens) : (angle inner r).texts = "<" :: (inner.texts ++ ">" :: r.texts) := by
  simp only [texts, words, balanced, Balanced.words, Balanced.words_append, List.map_cons, List.map_append]
  rfl

theorem isStop_eq_false {stops : List String} {t : Token} (h : t.text ∉ stops) : Read.isStop stops t = false := by
  simp [Read.isStop, h]

def AreStops (stops : List String) : Prop := "<" ∉ stops ∧ "(" ∉ stops ∧ "[" ∉ stops

theorem typeParts_skip {stops : List String} {depth : Int} {c : Cell} (h : depth = 0 → c.token.text ∉ stops)
    (r : List Cell) :
    Read.typeParts stops depth (c :: r) =
      (c.token.text :: (Read.typeParts stops (depth + Read.typeNesting c.token.text) r).1,
        (Read.typeParts stops (depth + Read.typeNesting c.token.text) r).2) := by
  rw [Read.typeParts, if_neg]
  simp only [Bool.and_eq_true, decide_eq_true_eq, not_and, Bool.not_eq_true]
  exact fun h0 => isStop_eq_false (h h0)

def Passes (stops : List String) (depth : Int) (cs : List Cell) (texts : List String) : Prop :=
  ∀ rest, Read.typeParts stops depth (cs ++ rest)
    = (texts ++ (Read.typeParts stops depth rest).1, (Read.typeParts stops depth rest).2)

/-- Brackets around a part that passes inside them pass. -/
theorem passes_enclosed {stops : List String} {depth : Int} (h0 : 0 ≤ depth) {o c : Cell} {is : List Cell}
    {inner : List String} (ho : o.token.text ∉ stops) (hon : Read.typeNesting o.token.text = 1)
    (hcn : Read.typeNesting c.token.text = -1) (hi : Passes stops (depth + 1) is inner) {r : List Cell}
    {others : List String} (hr : Passes stops depth r others) :
    Passes stops depth (o :: (is ++ c :: r)) (o.token.text :: (inner ++ c.token.text :: others)) := by
  intro rest
  have hback : depth + 1 + -1 = depth := by omega
  rw [List.cons_append, List.append_assoc, List.cons_append, typeParts_skip (fun _ => ho), hon, hi,
    typeParts_skip (by omega), hcn, hback, hr]
  simp

theorem passes_word {stops : List String} {depth : Int} {w : TypeWord} (hw : depth = 0 → w.text ∉ stops) {c : Cell}
    (ht : c.token.text = w.text) {r : List Cell} {others : List String} (hr : Passes stops depth r others) :
    Passes stops depth (c :: r) (w.text :: others) := by
  intro rest
  rw [List.cons_append, typeParts_skip (fun h => ht ▸ hw h), ht, w.typeNesting, Int.add_zero, hr]
  rfl

/-- The cells of a group, or of angle brackets. -/
theorem cells_of_enclosed {cs : List Cell} {m n : Mark} {ms ns : List Mark} (h : cs.map Cell.mark = m :: (ms ++ n :: ns)) :
    ∃ o is c r, cs = o :: (is ++ c :: r) ∧ o.mark = m ∧ is.map Cell.mark = ms ∧ c.mark = n ∧ r.map Cell.mark = ns := by
  obtain ⟨o, cs, rfl, ho, h⟩ := List.map_eq_cons_iff.1 h
  obtain ⟨is, cs, rfl, hi, h⟩ := List.map_eq_append_iff.1 h
  obtain ⟨c, r, rfl, hc, hr⟩ := List.map_eq_cons_iff.1 h
  exact ⟨o, is, c, r, rfl, ho, hi, hc, hr⟩

theorem text_of_mark {c : Cell} {m : Mark} (h : c.mark = m) : c.token.text = m.word.text :=
  congrArg (fun m => m.word.text) h

/-- Type tokens go to the type as a whole. -/
theorem passes_marks {stops : List String} (hs : AreStops stops) (ts : TypeTokens) {cs : List Cell}
    (hc : cs.map Cell.mark = ts.marks) (depth : Int) (h0 : 0 ≤ depth) (hl : depth = 0 → ts.Lacks stops) :
    Passes stops depth cs ts.texts := by
  obtain ⟨hless, hparen, hbracket⟩ := hs
  induction ts generalizing cs depth with
  | nil =>
    obtain rfl := List.map_eq_nil_iff.1 hc
    exact fun rest => rfl
  | word w r ih =>
    obtain ⟨c, cs, rfl, hm, hr⟩ := List.map_eq_cons_iff.1 hc
    exact passes_word (fun h => hl h w List.mem_cons_self) (text_of_mark hm)
      (ih hr depth h0 fun h v hv => hl h v (List.mem_cons_of_mem w hv))
  | group d inner r ihi ih =>
    obtain ⟨o, is, c, cs, rfl, ho, hi, hcm, hr⟩ := cells_of_enclosed hc
    have hot : o.token.text = d.delimiter.opening := text_of_mark ho
    have hct : c.token.text = d.delimiter.closing := text_of_mark hcm
    have hp := passes_enclosed h0 (o := o) (c := c) (by rw [hot]; cases d <;> assumption)
      (by rw [hot]; cases d <;> rfl) (by rw [hct]; cases d <;> rfl) (ihi hi (depth + 1) (by omega) (by omega))
      (ih hr depth h0 hl)
    rwa [hot, hct, ← texts_group] at hp
  | angle inner r ihi ih =>
    rw [marks_angle] at hc
    obtain ⟨o, is, c, cs, rfl, ho, hi, hcm, hr⟩ := cells_of_enclosed hc
    have hot : o.token.text = "<" := text_of_mark ho
    have hct : c.token.text = ">" := text_of_mark hcm
    have hp := passes_enclosed h0 (o := o) (c := c) (by rw [hot]; exact hless)
      (by rw [hot]; rfl) (by rw [hct]; rfl) (ihi hi (depth + 1) (by omega) (by omega))
      (ih hr depth h0 hl)
    rwa [hot, hct, ← texts_angle] at hp

def Stops (stops : List String) (ms : List Mark) : Prop :=
  ∀ m, ms.head? = some m → (m.word.kind = .punct ∨ m.word.kind = .ident) ∧ m.word.text ∈ stops

theorem typeParts_stop {stops : List String} {cs : List Cell} {ms : List Mark} (hc : cs.map Cell.mark = ms)
    (h : Stops stops ms) : Read.typeParts stops 0 cs = ([], cs) := by
  cases cs with
  | nil => rfl
  | cons c r =>
    obtain ⟨hk, ht⟩ : (c.token.kind = .punct ∨ c.token.kind = .ident) ∧ c.token.text ∈ stops :=
      h c.mark (by rw [← hc]; rfl)
    have hs : Read.isStop stops c.token = true := by
      simp only [Read.isStop, Bool.and_eq_true, Bool.or_eq_true, beq_iff_eq, List.contains_eq_mem, decide_eq_true_eq]
      exact ⟨hk, ht⟩
    rw [Read.typeParts, hs]
    rfl

/-- What passes as a whole is read up to the stop behind it. -/
theorem reads_readType_of {stops : List String} {what : String} {ts ms : List Mark} {texts : List String}
    (hp : ∀ cs, cs.map Cell.mark = ts → Passes stops 0 cs texts) (hne : texts ≠ []) (hm : Stops stops ms) :
    Read.Reads (Read.readType stops what) (ts ++ ms) (· = Read.spelling texts) ms := by
  intro s hc
  obtain ⟨cs, rest, he, hcs, hrest⟩ := List.map_eq_append_iff.1 hc
  have hread := hp cs hcs rest
  rw [typeParts_stop hrest hm, List.append_nil] at hread
  have hnil : texts.isEmpty = false := List.isEmpty_eq_false_iff.2 hne
  exact ⟨_, { s with cells := rest }, by simp only [Read.readType, he, hread, hnil]; rfl, rfl, hrest, rfl⟩

/-- A type is read up to the stop behind it. -/
theorem reads_readType {stops : List String} {what : String} (hs : AreStops stops) {ts : TypeTokens} (hne : ts ≠ nil)
    (hl : ts.Lacks stops) {ms : List Mark} (hm : Stops stops ms) :
    Read.Reads (Read.readType stops what) (ts.marks ++ ms) (· = Read.spelling ts.texts) ms := by
  have htexts : ts.texts ≠ [] := by
    cases ts with
    | nil => exact absurd rfl hne
    | word | group | angle => exact List.cons_ne_nil _ _
  exact reads_readType_of (fun cs hc => passes_marks hs ts hc 0 (by omega) fun _ => hl) htexts hm

def StaysIn (depth : Int) (cs : List Cell) : Prop :=
  ∀ rest, Read.paramCut depth (cs ++ rest)
    = (cs.map Cell.token ++ (Read.paramCut depth rest).1, (Read.paramCut depth rest).2)

theorem paramCut_skip {depth : Int} {c : Cell} (hi : c.inside = none) (h : depth = 0 → c.token.text ≠ ",")
    (r : List Cell) {next : Int}
    (hs : depth + (if c.token.text = "<" then 1 else if c.token.text = ">" then -1 else 0) = next) :
    Read.paramCut depth (c :: r) = (c.token :: (Read.paramCut next r).1, (Read.paramCut next r).2) := by
  have hcomma : ¬ (decide (c.token.text = ",") && decide (depth = 0)) = true := by
    simp only [Bool.and_eq_true, decide_eq_true_eq, not_and]
    exact fun ht h0 => h h0 ht
  rw [Read.paramCut]
  simp only [hi, if_neg hcomma, hs]

theorem paramCut_group {depth : Int} {o c : Cell} {is : List Cell} (hi : o.inside = some is.length) (r : List Cell) :
    Read.paramCut depth (o :: (is ++ c :: r))
      = ((o :: (is ++ [c])).map Cell.token ++ (Read.paramCut depth r).1, (Read.paramCut depth r).2) := by
  have hd : (is ++ c :: r).drop (is.length + 1) = r := by rw [← List.drop_drop, List.drop_left]; rfl
  have ht : (is ++ c :: r).take (is.length + 1) = is ++ [c] := by
    rw [List.append_cons is c r]
    exact List.take_left' (by simp)
  rw [Read.paramCut]
  simp only [hi, hd, ht, List.map_cons]

theorem staysIn_word {depth : Int} {w : TypeWord} (hw : depth = 0 → w.text ≠ ",") {c : Cell} (hm : c.mark = ⟨w.toWord, none⟩)
    {r : List Cell} (hr : StaysIn depth r) : StaysIn depth (c :: r) := by
  have ht : c.token.text = w.text := text_of_mark hm
  have hless : c.token.text ≠ "<" := ht ▸ w.text_ne (c := '<') (by decide)
  have hgreater : c.token.text ≠ ">" := ht ▸ w.text_ne (c := '>') (by decide)
  have hstep : depth + (if c.token.text = "<" then 1 else if c.token.text = ">" then -1 else 0) = depth := by
    rw [if_neg hless, if_neg hgreater, Int.add_zero]
  intro rest
  rw [List.cons_append, paramCut_skip (congrArg Mark.inside hm) (fun h => ht ▸ hw h) _ hstep, hr]
  rfl

/-- A group stays in the parameter, whatever it holds. -/
theorem staysIn_group {depth : Int} {o c : Cell} {is r : List Cell} (hi : o.inside = some is.length) (hr : StaysIn depth r) :
    StaysIn depth (o :: (is ++ c :: r)) := by
  intro rest
  rw [List.cons_append, List.append_assoc, List.cons_append, paramCut_group hi, hr]
  simp

theorem staysIn_angle {depth : Int} (h0 : 0 ≤ depth) {o c : Cell} (ho : o.mark = ⟨.less, none⟩) (hc : c.mark = ⟨.greater, none⟩)
    {is r : List Cell} (hi : StaysIn (depth + 1) is) (hr : StaysIn depth r) : StaysIn depth (o :: (is ++ c :: r)) := by
  have hot : o.token.text = "<" := text_of_mark ho
  have hct : c.token.text = ">" := text_of_mark hc
  have hback : depth + 1 + (if c.token.text = "<" then 1 else if c.token.text = ">" then -1 else 0) = depth := by
    rw [hct, if_neg (by decide), if_pos rfl]
    omega
  intro rest
  rw [List.cons_append, List.append_assoc, List.cons_append,
    paramCut_skip (congrArg Mark.inside ho) (by rw [hot]; simp) _ (by rw [hot, if_pos rfl]), hi,
    paramCut_skip (congrArg Mark.inside hc) (by omega) _ hback, hr]
  simp

theorem staysIn_marks (ts : TypeTokens) {cs : List Cell} (hc : cs.map Cell.mark = ts.marks) (depth : Int)
    (h0 : 0 ≤ depth) (hl : depth = 0 → ts.Lacks [","]) : StaysIn depth cs := by
  induction ts generalizing cs depth with
  | nil =>
    obtain rfl := List.map_eq_nil_iff.1 hc
    exact fun rest => rfl
  | word w r ih =>
    obtain ⟨c, cs, rfl, hm, hr⟩ := List.map_eq_cons_iff.1 hc
    have hcomma : depth = 0 → w.text ≠ "," := fun h e => hl h w List.mem_cons_self (List.mem_singleton.2 e)
    exact staysIn_word hcomma hm (ih hr depth h0 fun h v hv => hl h v (List.mem_cons_of_mem w hv))
  | group d inner r ihi ih =>
    obtain ⟨o, is, c, cs, rfl, ho, hi, -, hr⟩ := cells_of_enclosed hc
    refine staysIn_group ?_ (ih hr depth h0 hl)
    rw [← List.length_map Cell.mark, hi]
    exact congrArg Mark.inside ho
  | angle inner r ihi ih =>
    rw [marks_angle] at hc
    obtain ⟨o, is, c, cs, rfl, ho, hi, hcm, hr⟩ := cells_of_enclosed hc
    exact staysIn_angle h0 ho hcm (ihi hi (depth + 1) (by omega) (by omega)) (ih hr depth h0 hl)

inductive ListEnd : List Mark → List Mark → Prop
  | last : ListEnd [] []
  | comma {ms} : ListEnd (⟨⟨.punct, ","⟩, none⟩ :: ms) ms

theorem paramCut_listEnd {ms ns : List Mark} (h : ListEnd ms ns) {cs : List Cell} (hc : cs.map Cell.mark = ms) :
    (Read.paramCut 0 cs).1 = [] ∧ (Read.paramCut 0 cs).2.map Cell.mark = ns := by
  cases h with
  | last =>
    obtain rfl := List.map_eq_nil_iff.1 hc
    rw [Read.paramCut]
    exact ⟨rfl, rfl⟩
  | comma =>
    obtain ⟨c, cs, rfl, hm, hr⟩ := List.map_eq_cons_iff.1 hc
    have hi : c.inside = none := congrArg Mark.inside hm
    have ht : c.token.text = "," := congrArg (fun m => m.word.text) hm
    have hcut : Read.paramCut 0 (c :: cs) = ([], cs) := by
      rw [Read.paramCut]
      simp [hi, ht]
    rw [hcut]
    exact ⟨rfl, hr⟩

/-- What stays in a parameter as a whole is taken up to the end behind it. -/
theorem reads_paramTokens_of {ts : List Mark} (hp : ∀ cs, cs.map Cell.mark = ts → StaysIn 0 cs) {ms ns : List Mark}
    (h : ListEnd ms ns) :
    Read.Reads Read.paramTokens (ts ++ ms) (fun l => l.map Token.text = ts.map fun m => m.word.text) ns := by
  intro s hc
  obtain ⟨cs, rest, he, hcs, hrest⟩ := List.map_eq_append_iff.1 hc
  obtain ⟨h1, h2⟩ := paramCut_listEnd h hrest
  have hcut : Read.paramCut 0 s.cells = (cs.map Cell.token, (Read.paramCut 0 rest).2) := by
    rw [he, hp cs hcs rest, h1, List.append_nil]
  refine ⟨cs.map Cell.token, { s with cells := (Read.paramCut 0 rest).2 }, by rw [Read.paramTokens, hcut], ?_, h2, rfl⟩
  show (cs.map Cell.token).map Token.text = ts.map fun m => m.word.text
  rw [← hcs, List.map_map, List.map_map]
  rfl

/-- Texts are spelled with the pieces of each of them. -/
theorem spelling_eq (texts : List String) :
    Read.spelling texts = String.ofList (spell (texts.flatMap fun s => piecesOf s.toList)) := by
  have hp : piecesOf (" ".intercalate texts).toList = texts.flatMap fun s => piecesOf s.toList := by
    rw [String.toList_intercalate]
    refine (piecesOf_intercalate _).trans ?_
    rw [List.flatMap_map]
  rw [Read.spelling, onText, normalize_eq, hp]

theorem isValid_texts (texts : List String) : ∀ p ∈ texts.flatMap fun s => piecesOf s.toList, p.IsValid := by
  intro p hp
  obtain ⟨s, _, hp⟩ := List.mem_flatMap.1 hp
  exact isValid_piecesOf s.toList p hp

/-- Texts that are spelled alike have the same pieces. -/
theorem pieces_of_spelling {texts texts' : List String} (h : Read.spelling texts = Read.spelling texts') :
    (texts.flatMap fun s => piecesOf s.toList) = texts'.flatMap fun s => piecesOf s.toList := by
  rw [spelling_eq, spelling_eq] at h
  have hpieces := congrArg piecesOf (String.ofList_injective h)
  rwa [piecesOf_spell (isValid_texts texts), piecesOf_spell (isValid_texts texts')] at hpieces

def pieces (ts : TypeTokens) : List Piece := ts.texts.flatMap fun s => piecesOf s.toList

theorem spelling_texts (ts : TypeTokens) : Read.spelling ts.texts = String.ofList (spell ts.pieces) := spelling_eq ts.texts

theorem pieces_word (w : TypeWord) (r : TypeTokens) : (word w r).pieces = piecesOf w.text.toList ++ r.pieces := rfl

theorem pieces_paren (inner r : TypeTokens) :
    (group .paren inner r).pieces = .sep '(' :: (inner.pieces ++ .sep ')' :: r.pieces) := by
  simp only [pieces, texts_group, List.flatMap_cons, List.flatMap_append]
  rfl

theorem pieces_bracket (inner r : TypeTokens) :
    (group .bracket inner r).pieces = .sep '[' :: (inner.pieces ++ .sep ']' :: r.pieces) := by
  simp only [pieces, texts_group, List.flatMap_cons, List.flatMap_append]
  rfl

theorem pieces_angle (inner r : TypeTokens) :
    (angle inner r).pieces = .sep '<' :: (inner.pieces ++ .sep '>' :: r.pieces) := by
  simp only [pieces, texts_angle, List.flatMap_cons, List.flatMap_append]
  rfl

theorem isValid_pieces (ts : TypeTokens) : ∀ p ∈ ts.pieces, p.IsValid := isValid_texts ts.texts

def isUnit : TypeTokens → Bool
  | group .paren nil nil => true
  | _ => false

/-- The first piece of a word is no bracket. -/
theorem pieces_word_ne (w : TypeWord) (r : TypeTokens) {ps : List Piece} (h : ∀ c qs, ps = .sep c :: qs → c ∈ bracketChars)
    (hw : ∀ v qs, ps ≠ .word v :: qs) : (word w r).pieces ≠ ps := by
  obtain ⟨c, t, ht, hc, hb⟩ := w.front
  intro e
  rw [pieces_word, ht] at e
  obtain ⟨qs, hp⟩ | ⟨v, qs, hp⟩ := piecesOf_cons hc t
  · rw [hp] at e
    exact hb (h c _ e.symm)
  · rw [hp] at e
    exact hw _ _ e.symm

theorem eq_nil_of_pieces {ts : TypeTokens} (h : ts.pieces = []) : ts = nil := by
  cases ts with
  | nil => rfl
  | word w r => exact absurd h (pieces_word_ne w r (by simp) (by simp))
  | group d inner r => cases d <;> simp [pieces_paren, pieces_bracket] at h
  | angle inner r => simp [pieces_angle] at h

theorem pieces_eq_unit {ts : TypeTokens} (h : ts.pieces = [.sep '(', .sep ')']) : ts.isUnit = true := by
  cases ts with
  | nil => simp [pieces, texts, words, balanced, Balanced.words] at h
  | word w r =>
    refine absurd h (pieces_word_ne w r ?_ (by simp))
    intro c qs e
    obtain rfl := Piece.sep.inj (List.cons.inj e).1
    decide
  | angle inner r => simp [pieces_angle] at h
  | group d inner r =>
    cases d with
    | bracket => simp [pieces_bracket] at h
    | paren =>
      rw [pieces_paren] at h
      have hlen := congrArg List.length h
      simp only [List.length_cons, List.length_append, List.length_nil] at hlen
      obtain rfl := eq_nil_of_pieces (List.length_eq_zero_iff.1 (show inner.pieces.length = 0 by omega))
      obtain rfl := eq_nil_of_pieces (List.length_eq_zero_iff.1 (show r.pieces.length = 0 by omega))
      rfl

/-- Only an empty pair of parentheses is spelled as the unit type. -/
theorem spelling_eq_unit (ts : TypeTokens) : Read.spelling ts.texts = "()" ↔ ts.isUnit = true := by
  constructor
  · intro h
    have hunit : Read.spelling ["(", ")"] = "()" := rfl
    exact pieces_eq_unit (pieces_of_spelling (h.trans hunit.symm))
  · intro h
    unfold isUnit at h
    split at h
    · rfl
    · simp at h

end TypeTokens
end RingBridge.Source
