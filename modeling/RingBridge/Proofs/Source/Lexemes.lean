import RingBridge.Proofs.Source.Gaps
import RingBridge.Proofs.Spelling.Head
/-!
The lexemes that types are written with. Each is taken from the front of a text that does not go on with it, and stands
for pieces of a spelling; two that would be taken for something else side by side have to be kept apart.
-/
namespace RingBridge.Source
open Text Spelling

inductive TypeLexeme where
  | name (isRaw : Bool) (x : Ident)
  | lifetime (x : Ident)
  | number (first : Char) (rest : List Char) (digit : isAsciiDigit first = true) (continues : ∀ c ∈ rest, isWord c = true)
  | path
  | arrow
  | separator (c : Char) (single : isSeparator c = true)

namespace TypeLexeme

def chars : TypeLexeme → List Char
  | name isRaw x => (if isRaw then ['r', '#'] else []) ++ x.chars
  | lifetime x => '\'' :: x.chars
  | number first rest _ _ => first :: rest
  | path => [':', ':']
  | arrow => ['-', '>']
  | separator c _ => [c]

def kind : TypeLexeme → TokenKind
  | name _ _ => .ident
  | lifetime _ => .lifetime
  | number _ _ _ _ => .literal
  | path | arrow | separator _ _ => .punct

def word (u : TypeLexeme) : Word := ⟨u.kind, String.ofList u.chars⟩

def isWordy : TypeLexeme → Bool
  | name _ _ | lifetime _ | number _ _ _ _ => true
  | path | arrow | separator _ _ => false

def pieces : TypeLexeme → List Piece
  | path => [.sep ':', .sep ':']
  | arrow => [.word ['-'], .sep '>']
  | separator c _ => [.sep c]
  | u => [.word u.chars]

def joinsWord : TypeLexeme → Bool
  | name _ _ | lifetime _ | number _ _ _ _ | arrow => true
  | path | separator _ _ => false

/-- Lexemes that would be taken for others side by side: two words, a word and an arrow, `=` and `>`, and a colon and
    what starts with one. -/
def Clash (u v : TypeLexeme) : Prop :=
  (u.isWordy = true ∧ v.joinsWord = true) ∨ (u.chars = ['='] ∧ v.chars.head? = some '>') ∨
    (u.chars = [':'] ∧ v.chars.head? = some ':')

instance (u v : TypeLexeme) : Decidable (u.Clash v) := inferInstanceAs (Decidable (_ ∨ _ ∨ _))

def ClosesWord (x : List Char) : Prop := ∀ c ∈ x.head?, isWord c = false ∧ c ∉ ['\'', '"', '#', '.']

def Fits (u : TypeLexeme) (x : List Char) : Prop :=
  (u.isWordy = true → ClosesWord x) ∧ (u.chars = ['='] → x.head? ≠ some '>') ∧ (u.chars = [':'] → x.head? ≠ some ':')

variable {x : List Char}

theorem ClosesWord.ne (hx : ClosesWord x) {a : Char} (ha : a ∈ ['\'', '"', '#', '.']) : x.head? ≠ some a :=
  fun h => (hx a h).2 ha

theorem closesWord_cons {c : Char} (hword : isWord c = false) (hc : c ∉ ['\'', '"', '#', '.']) (x : List Char) :
    ClosesWord (c :: x) := by
  intro d hd
  obtain rfl := Option.some.inj hd
  exact ⟨hword, hc⟩

/-- What follows a run of word characters is no word character, whatever the run is. -/
theorem ClosesWord.append_ne (hx : ClosesWord x) {w : List Char} (hw : ∀ c ∈ w, isWord c = true) {a : Char}
    (ha : a ∈ ['\'', '"', '#', '.']) : (w ++ x).head? ≠ some a := by
  cases w with
  | nil => exact hx.ne ha
  | cons d w =>
    have hmarks : ∀ a ∈ ['\'', '"', '#', '.'], isWord a = false := by decide
    intro h
    have hd := hw d List.mem_cons_self
    rw [Option.some.inj h, hmarks a ha] at hd
    exact absurd hd (by decide)

theorem spanOf_word (hx : ClosesWord x) {w : List Char} (hw : ∀ c ∈ w, isWord c = true) : spanOf isWord (w ++ x) = (w, x) := by
  have htake : w.takeWhile isWord = w := List.takeWhile_eq_self_iff.2 hw
  have hspan := spanOf_again (p := isWord) w fun c hc => (hx c hc).1
  rwa [htake] at hspan

theorem nameCut_ident (hx : ClosesWord x) (y : Ident) : nameCut? (y.chars ++ x) = some (y.chars, x) := by
  show nameCut? (y.first :: (y.rest ++ x)) = _
  rw [nameCut?, if_pos y.starts, spanOf_word hx y.continues]
  rfl

/-- No hash and no quote stands behind the `r`, so this is no raw string. -/
theorem rawMark_eq_none {r : List Char} (hhash : r.head? ≠ some '#') (hquote : r.head? ≠ some '"') :
    rawMark? ('r' :: r) = none := by
  cases r with
  | nil => rfl
  | cons d r =>
    have hd : (d == '#') = false := beq_eq_false_iff_ne.2 fun h => hhash (congrArg some h)
    rw [rawMark?.eq_1, List.dropWhile_cons_of_neg (by simp [hd])]
    split
    · next h => exact absurd (congrArg List.head? h) hquote
    · rfl

theorem rawMark_word (hx : ClosesWord x) {w : List Char} (hw : ∀ c ∈ w, isWord c = true) : rawMark? (w ++ x) = none := by
  have hother : ∀ {cs : List Char}, cs.head? ≠ some 'r' → rawMark? cs = none := by
    intro cs h
    cases cs with
    | nil => rfl
    | cons c r => exact rawMark_other fun hc => h (congrArg some hc)
  cases w with
  | nil =>
    refine hother fun h => ?_
    exact absurd ((hx 'r' h).1.symm.trans (by decide : isWord 'r' = true)) (by decide)
  | cons c w =>
    by_cases hc : c = 'r'
    · have hw := (List.forall_mem_cons.1 hw).2
      rw [hc]
      exact rawMark_eq_none (hx.append_ne hw (by decide)) (hx.append_ne hw (by decide))
    · exact hother fun h => hc (Option.some.inj h)

/-- A text that starts with word characters starts plainly. -/
theorem startsPlain_word (hx : ClosesWord x) {c : Char} (hc : isWord c = true) {w : List Char}
    (hw : ∀ d ∈ w, isWord d = true) : StartsPlain c (w ++ x) := by
  have hne : ∀ {a : Char}, isWord a = false → c ≠ a := by
    rintro a ha rfl
    exact absurd (hc.symm.trans ha) (by decide)
  have hraw : rawOpening? (c :: (w ++ x)) = none := by
    by_cases hb : c = 'b'
    · rw [hb]
      exact rawMark_word hx hw
    · rw [rawOpening_other hb]
      exact rawMark_word (w := c :: w) hx (List.forall_mem_cons.2 ⟨hc, hw⟩)
  refine ⟨isBlank_of_isWord hc, fun he => absurd he (hne (by decide)), hraw, hne (by decide), hne (by decide),
    fun _ d hd => ⟨?_, ?_⟩⟩
  · rintro rfl
    exact hx.append_ne hw (by decide) hd
  · rintro rfl
    exact hx.append_ne hw (by decide) hd

theorem lexeme_ident (hx : ClosesWord x) (y : Ident) :
    lexeme y.first (y.rest ++ x) = .ok ⟨some .ident, y.chars, x⟩ := by
  have hhash : ¬ (y.first = 'r' ∧ (y.rest ++ x).head? = some '#') := fun h => hx.append_ne y.continues (by decide) h.2
  have hcut : identifier? (y.first :: (y.rest ++ x)) = some (y.chars, x) :=
    (identifier_plain hhash).trans (nameCut_ident hx y)
  rw [(startsPlain_word hx (isWord_of_isNameStart y.starts) y.continues).lexeme, plain.eq_def, hcut]
  rfl

theorem lexeme_rawIdent (hx : ClosesWord x) (y : Ident) :
    lexeme 'r' ('#' :: (y.chars ++ x)) = .ok ⟨some .ident, 'r' :: '#' :: y.chars, x⟩ := by
  have hcut : identifier? ('r' :: '#' :: (y.chars ++ x)) = some ('r' :: '#' :: y.chars, x) := by
    rw [identifier?.eq_1, nameCut_ident hx y]
    rfl
  have hstart : ∀ {a : Char}, isNameStart a = false → y.first ≠ a := by
    rintro a ha rfl
    exact absurd (y.starts.symm.trans ha) (by decide)
  have hraw : rawOpening? ('r' :: '#' :: (y.chars ++ x)) = none := by
    have hhash : (y.first == '#') = false := beq_eq_false_iff_ne.2 (hstart (by decide))
    rw [rawOpening_other (by decide), rawMark?.eq_1, List.dropWhile_cons_of_pos (by decide), Ident.chars, List.cons_append,
      List.dropWhile_cons_of_neg (by simp [hhash])]
    split
    · next h => exact absurd (List.cons.inj h).1 (hstart (by decide))
    · rfl
  have hplain : StartsPlain 'r' ('#' :: (y.chars ++ x)) :=
    ⟨by decide, fun h => absurd h (by decide), hraw, by decide, by decide, fun h => absurd h (by decide)⟩
  rw [hplain.lexeme, plain.eq_def, hcut]
  rfl

theorem isWord_of_isAsciiDigit {d : Char} (hd : isAsciiDigit d = true) :
    isWord d = true ∧ isDigit d = true ∧ isNameStart d = false := by
  have hrange : 48 ≤ d.toNat ∧ d.toNat ≤ 57 := by
    simp only [isAsciiDigit, Bool.and_eq_true, decide_eq_true_eq, Char.le_def, UInt32.le_iff_toNat_le] at hd
    exact hd
  have hcodes : ∀ n ∈ List.range' 48 10, isWord (Char.ofNat n) = true ∧ isDigit (Char.ofNat n) = true
      ∧ isNameStart (Char.ofNat n) = false := by decide
  have hmem : d.toNat ∈ List.range' 48 10 := by
    rw [List.mem_range'_1]
    omega
  have hd := hcodes d.toNat hmem
  rwa [Char.ofNat_toNat] at hd

theorem lexeme_number (hx : ClosesWord x) {d : Char} (hd : isAsciiDigit d = true) {r : List Char}
    (hr : ∀ c ∈ r, isWord c = true) : lexeme d (r ++ x) = .ok ⟨some .literal, d :: r, x⟩ := by
  obtain ⟨hword, hdigit, hname⟩ := isWord_of_isAsciiDigit hd
  obtain ⟨htake, hdrop⟩ := Prod.mk.inj (spanOf_word hx hr)
  have hcut : number? (d :: (r ++ x)) = some (d :: r, x) := by
    rw [number_cons, if_pos hdigit, htake, hdrop]
    cases x with
    | nil => rfl
    | cons c x => rw [fraction_other fun h => hx.ne (a := '.') (by decide) (congrArg some h)]
  rw [(startsPlain_word hx hword hr).lexeme, plain.eq_def, identifier_eq_none.2 hname, hcut]
  rfl

theorem lexeme_lifetime (hx : ClosesWord x) (y : Ident) :
    lexeme '\'' (y.chars ++ x) = .ok ⟨some .lifetime, '\'' :: y.chars, x⟩ := by
  have hback : y.first ≠ '\\' := by
    intro h
    exact absurd (h ▸ y.starts) (by decide)
  have hcut : characterBody? (y.chars ++ x) = none := by
    show characterBody? (y.first :: (y.rest ++ x)) = none
    rw [characterBody_other hback, closingQuote_eq_none fun c hc he => hx.append_ne y.continues (by decide) (he ▸ hc)]
    split <;> rfl
  rw [lexeme_character, character, hcut, nameCut_ident hx y]
  rfl

theorem not_digit_of_isSeparator {c : Char} (hc : isSeparator c = true) : isDigit c = false := by
  simp only [isSeparator, List.contains_eq_mem, List.mem_cons, List.not_mem_nil, or_false, decide_eq_true_eq] at hc
  obtain rfl | rfl | rfl | rfl | rfl | rfl | rfl | rfl | rfl | rfl | rfl | rfl | rfl := hc <;> decide

/-- Separators are taken one by one, but for those that make a pair with what follows. -/
theorem lexeme_separator {c : Char} (hc : isSeparator c = true) (heq : c = '=' → x.head? ≠ some '>')
    (hcolon : c = ':' → x.head? ≠ some ':') : lexeme c x = .ok ⟨some .punct, [c], x⟩ := by
  have hne : ∀ {a : Char}, isSeparator a = false → c ≠ a := by
    rintro a ha rfl
    exact absurd (hc.symm.trans ha) (by decide)
  have hraw : rawOpening? (c :: x) = none := by rw [rawOpening_other (hne (by decide)), rawMark_other (hne (by decide))]
  have hplain : StartsPlain c x := ⟨not_blank_of_isSeparator hc, fun h => absurd h (hne (by decide)), hraw,
    hne (by decide), hne (by decide), fun h => absurd h (hne (by decide))⟩
  have hname : isNameStart c = false := by
    cases h : isNameStart c with
    | false => rfl
    | true => exact absurd ((isWord_of_isNameStart h).symm.trans (not_word_of_isSeparator hc)) (by decide)
  have hsingle : punctuation c x = ([c], x) := by
    unfold punctuation
    split
    · next h => exact absurd (List.cons.inj h).1 (hne (by decide))
    · next h => exact absurd (congrArg List.head? (List.cons.inj h).2) (heq (List.cons.inj h).1)
    · next h => exact absurd (congrArg List.head? (List.cons.inj h).2) (hcolon (List.cons.inj h).1)
    · rfl
  rw [hplain.lexeme, plain_punct hname (not_digit_of_isSeparator hc), hsingle]
  rfl

theorem lexes_name (isRaw : Bool) (y : Ident) (hx : ClosesWord x) {ws : List Word} (hws : Lexes x ws) :
    Lexes ((name isRaw y).chars ++ x) ((name isRaw y).word :: ws) := by
  cases isRaw with
  | false => exact .take (lexeme_ident hx y) nofun hws
  | true => exact .take (lexeme_rawIdent hx y) nofun hws

/-- A lexeme is a word of a text if what follows may stand behind it. -/
theorem lexes (u : TypeLexeme) (hx : u.Fits x) {ws : List Word} (hws : Lexes x ws) :
    Lexes (u.chars ++ x) (u.word :: ws) := by
  obtain ⟨hword, heq, hcolon⟩ := hx
  cases u with
  | name isRaw y => exact lexes_name isRaw y (hword rfl) hws
  | lifetime y => exact .take (lexeme_lifetime (hword rfl) y) nofun hws
  | number first rest digit continues => exact .take (lexeme_number (hword rfl) digit continues) nofun hws
  | path =>
    have hl : lexeme ':' (':' :: x) = .ok ⟨some .punct, [':', ':'], x⟩ := rfl
    exact .take hl nofun hws
  | arrow =>
    have hl : lexeme '-' ('>' :: x) = .ok ⟨some .punct, ['-', '>'], x⟩ := rfl
    exact .take hl nofun hws
  | separator c single =>
    exact .take (lexeme_separator single (fun h => heq (h ▸ rfl)) fun h => hcolon (h ▸ rfl)) nofun hws

theorem isValid_pieces (u : TypeLexeme) : ∀ p ∈ u.pieces, p.IsValid := by
  have hword : ∀ {c : Char}, isWord c = true → isSeparator c = false ∧ isBlank c = false :=
    fun h => ⟨not_separator_of_isWord h, isBlank_of_isWord h⟩
  cases u with
  | name isRaw y =>
    have hraw : ∀ c ∈ if isRaw then ['r', '#'] else [], isSeparator c = false ∧ isBlank c = false := by
      cases isRaw <;> decide
    refine List.forall_mem_singleton.2 ⟨List.append_ne_nil_of_right_ne_nil _ (List.cons_ne_nil _ _), fun c hc => ?_⟩
    obtain hc | hc := List.mem_append.1 hc
    · exact hraw c hc
    · exact hword (y.isWord_chars c hc)
  | lifetime y => exact List.forall_mem_singleton.2 (isValid_lifetime y)
  | number first rest digit continues =>
    refine List.forall_mem_singleton.2 ⟨List.cons_ne_nil _ _, List.forall_mem_cons.2 ⟨?_, fun c hc => ?_⟩⟩
    · exact hword (isWord_of_isAsciiDigit digit).1
    · exact hword (continues c hc)
  | path => exact (by decide : ∀ p ∈ [Piece.sep ':', .sep ':'], p.IsValid)
  | arrow => exact (by decide : ∀ p ∈ [Piece.word ['-'], .sep '>'], p.IsValid)
  | separator c single => exact List.forall_mem_singleton.2 single

/-- A lexeme is spaced from its pieces, and a word needs an end behind it. -/
theorem spaced (u : TypeLexeme) {cs : List Char} {ps : List Piece} (he : u.isWordy = true → EndsWord cs) (h : Spaced ps cs) :
    Spaced (u.pieces ++ ps) (u.chars ++ cs) := by
  cases u with
  | name | lifetime | number => exact .word (he rfl) h
  | path => exact .sep (.sep h)
  | arrow => exact .word (w := ['-']) (endsWord_sep (by decide) _) (.sep h)
  | separator => exact .sep h

theorem piecesOf_chars (u : TypeLexeme) : piecesOf u.chars = u.pieces := by
  have h := u.spaced (fun _ => endsWord_nil) .nil
  rw [List.append_nil, List.append_nil] at h
  exact piecesOf_spaced h u.isValid_pieces

end TypeLexeme

end RingBridge.Source
