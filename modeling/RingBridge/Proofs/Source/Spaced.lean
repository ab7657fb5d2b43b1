import RingBridge.Proofs.Source.Again
import RingBridge.Proofs.Source.Reported
/-!
Tokens with blanks between them. Every token but a doc comment stands alone: wherever its text is followed by a blank or
by nothing, it is taken as it is. So tokens are read back from their texts, whatever stood between them before.
-/
namespace RingBridge.Source
open Text

variable {cs x : List Char}

/-- A lexeme that is taken in the same way wherever a blank or nothing follows. -/
def Lexeme.StandsAlone (l : Lexeme) : Prop :=
  ∀ x, StartsBlank x → ∃ c r, l.source ++ x = c :: r ∧ lexeme c r = .ok ⟨l.kind, l.source, x⟩

theorem exists_tail_of_append {c : Char} {r source rest : List Char} (h : source ++ rest = c :: r) (hne : source ≠ []) :
    ∃ w, source = c :: w := by
  cases source with
  | nil => exact absurd rfl hne
  | cons d w => exact ⟨w, congrArg (· :: w) (List.cons.inj h).1⟩

theorem eq_doc_of_ite {b : Bool} {k : TokenKind} (h : (if b then some TokenKind.doc else none) = some k) : k = .doc := by
  cases b <;> cases h
  rfl

theorem quoted_again {lead : List Char} {f : List Char → Option Cut} {cause : LexCause} {l : Lexeme}
    (hf : ∀ cut, f cs = some cut → ∀ x, TakesAgain f cut x) (h : quoted lead (f cs) cause = .ok l) (x : List Char) :
    ∃ w, l.source = lead ++ w ∧ quoted lead (f (w ++ x)) cause = .ok ⟨l.kind, l.source, x⟩ := by
  unfold quoted at h
  split at h
  · next cut hcut =>
    cases h
    refine ⟨cut.1, rfl, ?_⟩
    have hagain : f (cut.1 ++ x) = some (cut.1, x) := hf cut hcut x
    rw [hagain]
    rfl
  · cases h

/-- The text of a raw string goes from its mark on to the end of what closes it. -/
theorem raw_eq_ok {mark : List Char} {o : Cut} {l : Lexeme} : raw (mark ++ o.2) o = .ok l ↔
    ∃ cut, through ('"' :: o.1) o.2 = some cut ∧ l = .of (some .literal) (extend mark cut) := by
  have htake : (mark ++ o.2).take ((mark ++ o.2).length - o.2.length) = mark := by
    rw [List.length_append, Nat.add_sub_cancel, List.take_left]
  unfold raw
  rw [htake]
  cases through ('"' :: o.1) o.2 with
  | none => exact ⟨nofun, fun ⟨_, hcut, _⟩ => nomatch hcut⟩
  | some cut =>
    refine ⟨fun h => ⟨cut, rfl, (Except.ok.inj h).symm⟩, ?_⟩
    rintro ⟨_, hcut, rfl⟩
    cases hcut
    rfl

theorem raw_again {o : Cut} {l : Lexeme} (ho : rawOpening? cs = some o) (h : raw cs o = .ok l) (x : List Char) :
    ∃ o', rawOpening? (l.source ++ x) = some o' ∧ raw (l.source ++ x) o' = .ok ⟨l.kind, l.source, x⟩ := by
  obtain ⟨lead, hlead, hcs, hhash⟩ := rawOpening_eq_some.1 ho
  have hmark : cs = lead ++ 'r' :: (o.1 ++ ['"']) ++ o.2 := by rw [hcs]; simp
  rw [hmark] at h
  obtain ⟨cut, hcut, rfl⟩ := raw_eq_ok.1 h
  have hagain : through ('"' :: o.1) (cut.1 ++ x) = some (cut.1, x) := through_again hcut x
  have hsource : lead ++ 'r' :: (o.1 ++ ['"']) ++ cut.1 ++ x = lead ++ 'r' :: (o.1 ++ ['"']) ++ (cut.1 ++ x) :=
    List.append_assoc ..
  show ∃ o', rawOpening? (lead ++ 'r' :: (o.1 ++ ['"']) ++ cut.1 ++ x) = _ ∧
    raw (lead ++ 'r' :: (o.1 ++ ['"']) ++ cut.1 ++ x) o' = _
  rw [hsource]
  refine ⟨(o.1, cut.1 ++ x), rawOpening_eq_some.2 ⟨lead, hlead, ?_, hhash⟩, raw_eq_ok.2 ⟨_, hagain, rfl⟩⟩
  simp

theorem closingQuote_eq_none (h : ∀ c ∈ cs.head?, c ≠ '\'') : closingQuote? cs = none := by
  cases cs with
  | nil => rfl
  | cons c r => exact closingQuote_other (h c rfl)

/-- No quote closes a character before a blank, so what is taken for a lifetime is one. -/
theorem character_again {lead : List Char} {l : Lexeme} (h : character lead cs = .ok l) (hx : StartsBlank x) :
    ∃ w, l.source = lead ++ w ∧ character lead (w ++ x) = .ok ⟨l.kind, l.source, x⟩ := by
  unfold character at h
  split at h
  · next cut hcut =>
    cases h
    refine ⟨cut.1, rfl, ?_⟩
    have hagain : characterBody? (cut.1 ++ x) = some (cut.1, x) := characterBody_again hcut x
    rw [character, hagain]
    rfl
  · split at h
    · next hlead =>
      split at h
      · next cut hcut =>
        cases h
        refine ⟨cut.1, rfl, ?_⟩
        have hagain : nameCut? (cut.1 ++ x) = some (cut.1, x) := nameCut_again hcut hx
        have hnone : characterBody? (cut.1 ++ x) = none := by
          obtain ⟨a, r, rfl, ha, rfl⟩ := nameCut_eq_some hcut
          have hquote := closingQuote_eq_none (hx.ne_of_word r (a := '\'') (by decide) (by decide))
          have hback : a ≠ '\\' := by
            rintro rfl
            exact absurd ha (by decide)
          show characterBody? (a :: (r.takeWhile isWord ++ x)) = none
          rw [characterBody_other hback, hquote]
          split <;> rfl
        rw [character, hnone, hagain]
        exact if_pos hlead
      · cases h
    · cases h

theorem identifier_eq_none {c : Char} {r : List Char} : identifier? (c :: r) = none ↔ isNameStart c = false := by
  by_cases hraw : c = 'r' ∧ r.head? = some '#'
  · obtain ⟨rfl, hr⟩ := hraw
    obtain ⟨t, rfl⟩ := List.head?_eq_some_iff.1 hr
    rw [identifier?.eq_1]
    split
    · exact ⟨fun h => (by cases h), fun h => absurd h (by decide)⟩
    · exact nameCut_eq_none
  · rw [identifier_plain hraw, nameCut_eq_none]

theorem number_eq_none {c : Char} {r : List Char} : number? (c :: r) = none ↔ isDigit c = false := by
  rw [number_cons]
  split
  · next hc => simp [hc]
  · next hc => simpa using hc

def punctuation (c : Char) (r : List Char) : Cut :=
  match c :: r with
  | '-' :: '>' :: t => (['-', '>'], t)
  | '=' :: '>' :: t => (['=', '>'], t)
  | ':' :: ':' :: t => ([':', ':'], t)
  | _ => ([c], r)

theorem plain_punct {c : Char} {r : List Char} (hname : isNameStart c = false) (hdigit : isDigit c = false) :
    plain (c :: r) c r = .of (some .punct) (punctuation c r) := by
  rw [plain.eq_def, identifier_eq_none.2 hname, number_eq_none.2 hdigit]
  dsimp only
  split
  · next ht =>
    cases ht
    rfl
  · next ht =>
    cases ht
    rfl
  · next ht =>
    cases ht
    rfl
  · next harrow hfat hpath =>
    unfold punctuation
    split
    · next ht => exact (harrow _ ht).elim
    · next ht => exact (hfat _ ht).elim
    · next ht => exact (hpath _ ht).elim
    · rfl

theorem punctuation_again (c : Char) (r : List Char) (hx : StartsBlank x) :
    ∃ w, (punctuation c r).1 = c :: w ∧ punctuation c (w ++ x) = ((punctuation c r).1, x) := by
  have hpair : ∀ {a b : Char} {t : List Char}, isBlank b = false → c :: x = a :: b :: t → False := by
    intro a b t hb ht
    cases x with
    | nil => cases ht
    | cons d x =>
      cases ht
      exact hx.ne hb _ rfl rfl
  unfold punctuation
  split
  · next t ht =>
    cases ht
    exact ⟨['>'], rfl, rfl⟩
  · next t ht =>
    cases ht
    exact ⟨['>'], rfl, rfl⟩
  · next t ht =>
    cases ht
    exact ⟨[':'], rfl, rfl⟩
  · refine ⟨[], rfl, ?_⟩
    rw [List.nil_append]
    split
    · next ht => exact (hpair (by decide) ht).elim
    · next ht => exact (hpair (by decide) ht).elim
    · next ht => exact (hpair (by decide) ht).elim
    · rfl

theorem plain_again (c : Char) (r : List Char) (hx : StartsBlank x) :
    ∃ w, (plain (c :: r) c r).source = c :: w ∧
      plain (c :: (w ++ x)) c (w ++ x) = ⟨(plain (c :: r) c r).kind, (plain (c :: r) c r).source, x⟩ := by
  obtain ⟨happend, hne⟩ := starts_plain c r
  cases hname : isNameStart c with
  | true =>
    cases hi : identifier? (c :: r) with
    | none => exact absurd (hname.symm.trans (identifier_eq_none.1 hi)) (by decide)
    | some i =>
      have hplain : plain (c :: r) c r = .of (some .ident) i := by rw [plain.eq_def, hi]
      rw [hplain] at happend hne ⊢
      obtain ⟨w, hw⟩ := exists_tail_of_append happend hne
      have hagain : identifier? (i.1 ++ x) = some (i.1, x) := identifier_again hi hx
      refine ⟨w, hw, ?_⟩
      rw [show i.1 = c :: w from hw, List.cons_append] at hagain
      rw [plain.eq_def, hagain, ← hw]
      rfl
  | false =>
    cases hdigit : isDigit c with
    | true =>
      cases hn : number? (c :: r) with
      | none => exact absurd (hdigit.symm.trans (number_eq_none.1 hn)) (by decide)
      | some n =>
        have hplain : plain (c :: r) c r = .of (some .literal) n := by rw [plain.eq_def, identifier_eq_none.2 hname, hn]
        rw [hplain] at happend hne ⊢
        obtain ⟨w, hw⟩ := exists_tail_of_append happend hne
        have hagain : number? (n.1 ++ x) = some (n.1, x) := number_again hn hx
        refine ⟨w, hw, ?_⟩
        rw [show n.1 = c :: w from hw, List.cons_append] at hagain
        rw [plain.eq_def, identifier_eq_none.2 hname, hagain, ← hw]
        rfl
    | false =>
      obtain ⟨w, hw, hagain⟩ := punctuation_again c r hx
      rw [plain_punct hname hdigit]
      refine ⟨w, hw, ?_⟩
      rw [plain_punct hname hdigit, hagain]
      rfl

/-- The second character of a text that starts plainly tells that, unless it is a blank. -/
theorem StartsPlain.again {c : Char} {w rest : List Char} (h : StartsPlain c (w ++ rest)) (hx : StartsBlank x) :
    StartsPlain c (w ++ x) := by
  have hhead : ∀ d ∈ (w ++ x).head?, d ∈ (w ++ rest).head? ∨ isBlank d = true := by
    cases w with
    | nil => exact fun d hd => .inr (hx d hd)
    | cons a w => exact fun d hd => .inl hd
  have hne : ∀ {d a : Char}, isBlank a = false → isBlank d = true → d ≠ a := by
    rintro d a ha hd rfl
    exact absurd (ha.symm.trans hd) (by decide)
  have hraw : rawOpening? ((c :: w) ++ x) = none := rawOpening_eq_none h.raw hx
  refine ⟨h.solid, fun hc d hd => ?_, hraw, h.string, h.character, fun hc d hd => ?_⟩
  · obtain hd | hd := hhead d hd
    · exact h.comment hc d hd
    · exact ⟨hne (by decide) hd, hne (by decide) hd⟩
  · obtain hd | hd := hhead d hd
    · exact h.bytes hc d hd
    · exact ⟨hne (by decide) hd, hne (by decide) hd⟩

/-- Every token but a doc comment. -/
theorem standsAlone_of_lexeme {c : Char} {r : List Char} {l : Lexeme} (h : lexeme c r = .ok l) {k : TokenKind}
    (hk : l.kind = some k) (hdoc : k ≠ .doc) : l.StandsAlone := by
  intro x hx
  obtain ⟨happend, hne⟩ := starts_lexeme h
  cases start c r with
  | blank hc =>
    rw [lexeme_blank hc] at h
    cases h
    cases hk
  | lineComment t =>
    rw [lexeme_lineComment] at h
    cases h
    exact absurd (eq_doc_of_ite hk) hdoc
  | blockComment t =>
    cases hcut : blockComment 1 t with
    | none =>
      rw [lexeme_unclosed hcut] at h
      cases h
    | some cut =>
      rw [lexeme_blockComment hcut] at h
      cases h
      exact absurd (eq_doc_of_ite hk) hdoc
  | raw ho =>
    rw [lexeme_raw ho] at h
    obtain ⟨w, hw⟩ := exists_tail_of_append happend hne
    obtain ⟨o', ho', hraw⟩ := raw_again ho h x
    rw [hw, List.cons_append] at ho' hraw
    refine ⟨c, w ++ x, by rw [hw]; rfl, ?_⟩
    rw [lexeme_raw ho', hraw, hw]
  | string r =>
    rw [lexeme_string] at h
    obtain ⟨w, hw, hquoted⟩ := quoted_again (fun _ => stringBody_again) h x
    refine ⟨'"', w ++ x, by rw [hw]; rfl, ?_⟩
    rw [lexeme_string, hquoted]
  | bytes t =>
    rw [lexeme_bytes] at h
    obtain ⟨w, hw, hquoted⟩ := quoted_again (fun _ => stringBody_again) h x
    refine ⟨'b', '"' :: (w ++ x), by rw [hw]; rfl, ?_⟩
    rw [lexeme_bytes, hquoted]
  | character r =>
    rw [lexeme_character] at h
    obtain ⟨w, hw, hcharacter⟩ := character_again h hx
    refine ⟨'\'', w ++ x, by rw [hw]; rfl, ?_⟩
    rw [lexeme_character, hcharacter]
  | byte t =>
    rw [lexeme_byte] at h
    obtain ⟨w, hw, hcharacter⟩ := character_again h hx
    refine ⟨'b', '\'' :: (w ++ x), by rw [hw]; rfl, ?_⟩
    rw [lexeme_byte, hcharacter]
  | plain hplain =>
    rw [hplain.lexeme] at h
    cases h
    obtain ⟨w, hw, hagain⟩ := plain_again c r hx
    rw [hw, List.cons_append] at happend
    have hrest := (List.cons.inj happend).2
    refine ⟨c, w ++ x, by rw [hw]; rfl, ?_⟩
    rw [(StartsPlain.again (hrest ▸ hplain) hx).lexeme, hagain]

theorem Lexeme.text_eq_source {l : Lexeme} {k : TokenKind} (hk : l.kind = some k) (hdoc : k ≠ .doc) :
    l.text = l.source := by
  rw [text, hk]
  cases k <;> first | rfl | exact absurd rfl hdoc

def Word.StandsAlone (w : Word) : Prop :=
  w.kind ≠ .doc ∧ ∀ x, StartsBlank x →
    ∃ c r, w.text.toList ++ x = c :: r ∧ lexeme c r = .ok ⟨some w.kind, w.text.toList, x⟩

/-- Every token of a text but its doc comments. -/
theorem standsAlone_of_mem {line : Nat} {ts : List Token} (h : tokensFrom line cs = .ok ts) {t : Token} (hmem : t ∈ ts)
    (hdoc : t.kind ≠ .doc) : t.word.StandsAlone := by
  obtain ⟨c, r, l, hl, hk, htext⟩ := exists_lexeme_of_mem h hmem
  have hsource : t.word.text.toList = l.source := by
    show t.text.toList = _
    rw [htext, String.toList_ofList, Lexeme.text_eq_source hk hdoc]
  refine ⟨hdoc, ?_⟩
  rw [hsource, show some t.word.kind = l.kind from hk.symm]
  exact standsAlone_of_lexeme hl hk hdoc

theorem lexes_nil : Lexes [] [] := fun line => ⟨[], tokensFrom_nil line, rfl⟩

theorem Lexes.blank {c : Char} (hc : isBlank c = true) {ws : List Word} (h : Lexes cs ws) : Lexes (c :: cs) ws := by
  intro line
  obtain ⟨ts, hts, hws⟩ := h (line + [c].count '\n')
  refine ⟨ts, ?_, hws⟩
  rw [tokensFrom_cons (lexeme_blank hc), hts]
  rfl

theorem Lexes.word {w : Word} (hw : w.StandsAlone) (hx : StartsBlank x) {ws : List Word} (h : Lexes x ws) :
    Lexes (w.text.toList ++ x) (w :: ws) := by
  intro line
  obtain ⟨c, r, heq, hl⟩ := hw.2 x hx
  obtain ⟨ts, hts, hws⟩ := h (line + w.text.toList.count '\n')
  refine ⟨⟨w.kind, w.text, line⟩ :: ts, ?_, congrArg (w :: ·) hws⟩
  rw [heq, tokensFrom_cons hl, hts, Lexeme.token?, Lexeme.text_eq_source rfl hw.1, String.ofList_toList]
  rfl

/-- Words that stand alone are read back from their texts with single blanks between them. -/
theorem lexes_spaced (ws : List Word) (h : ∀ w ∈ ws, w.StandsAlone) :
    Lexes (" ".intercalate (ws.map Word.text)).toList ws := by
  induction ws with
  | nil => exact lexes_nil
  | cons w ws ih =>
    obtain ⟨hw, hws⟩ := List.forall_mem_cons.1 h
    cases ws with
    | nil =>
      have hlone := Lexes.word hw (x := []) nofun lexes_nil
      rw [List.append_nil] at hlone
      rwa [List.map_singleton, String.intercalate_singleton]
    | cons v ws =>
      have hrest := (ih hws).blank (c := ' ') (by decide)
      have hspaced := Lexes.word hw (fun c hc => by cases hc; decide) hrest
      rw [List.map_cons, List.map_cons, String.intercalate_cons_cons, String.toList_append, String.toList_append,
        List.append_assoc]
      exact hspaced

/-- The texts of the tokens of a text, other than its doc comments, with single blanks between them: a text again that
    has tokens, and they are of the same kinds with the same texts in the same order. -/
theorem tokenize_spaced {text : String} {ts : List Token} (h : tokenize text = .ok ts) :
    ∃ us, tokenize (" ".intercalate ((ts.filter fun t => t.kind ≠ .doc).map Token.text)) = .ok us ∧
      us.map Token.word = (ts.filter fun t => t.kind ≠ .doc).map Token.word := by
  have halone : ∀ w ∈ (ts.filter fun t => t.kind ≠ .doc).map Token.word, w.StandsAlone := by
    intro w hw
    obtain ⟨t, ht, rfl⟩ := List.mem_map.1 hw
    obtain ⟨hmem, hdoc⟩ := List.mem_filter.1 ht
    exact standsAlone_of_mem h hmem (of_decide_eq_true hdoc)
  have hspaced := lexes_spaced _ halone 1
  rw [List.map_map] at hspaced
  exact hspaced

theorem tokenize_spaced_marks :
    ∃ ts us, tokenize "/// d\n&'a r#fn(b'x', br#\"\"a\"#, 1.: f::g)-> - >1.5" = .ok ts ∧
      ts.map Token.text = ["d", "&", "'a", "r#fn", "(", "b'x'", ",", "br#\"\"a\"#", ",", "1", ".", ":", "f", "::", "g",
        ")", "->", "-", ">", "1.5"] ∧
      tokenize (" ".intercalate ((ts.filter fun t => t.kind ≠ .doc).map Token.text)) = .ok us ∧
      us.map Token.word = (ts.filter fun t => t.kind ≠ .doc).map Token.word := by
  obtain ⟨ts, hts, htexts⟩ :
      ∃ ts, tokenize "/// d\n&'a r#fn(b'x', br#\"\"a\"#, 1.: f::g)-> - >1.5" = .ok ts ∧
        ts.map Token.text = ["d", "&", "'a", "r#fn", "(", "b'x'", ",", "br#\"\"a\"#", ",", "1", ".", ":", "f", "::", "g",
          ")", "->", "-", ">", "1.5"] := exists_ok_of_toOption (by decide +kernel)
  obtain ⟨us, hus⟩ := tokenize_spaced hts
  exact ⟨ts, us, hts, htexts, hus⟩

end RingBridge.Source
