import RingBridge.Proofs.Spelling.Head
import RingBridge.Spelling.Primitive
/-!
Which spellings are text. The tests try every cut of a lifetime, so a text that passes them need not be cut where
its words end; read as pieces it is still a lifetime, a `mut` and `str`, each at most once.
-/
namespace RingBridge.Spelling
open Text

def strPiece : Piece := .word "str".toList

def stringPiece : Piece := .word "String".toList

theorem isValid_str : strPiece.IsValid := ⟨by decide, by decide⟩

theorem isValid_string : stringPiece.IsValid := ⟨by decide, by decide⟩

def quotedPieces : Option (List Char) → List Piece
  | some w => [.word ('\'' :: w)]
  | none => []

theorem isValid_mutThen (m : Bool) {ps : List Piece} (h : ∀ p ∈ ps, p.IsValid) : ∀ q ∈ mutPieces m ++ ps, q.IsValid := by
  intro q hq
  obtain hq | hq := List.mem_append.1 hq
  · exact isValid_mutPieces m q hq
  · exact h q hq

theorem isValid_marked (m : Bool) {p : Piece} (h : p.IsValid) : ∀ q ∈ mutPieces m ++ [p], q.IsValid :=
  isValid_mutThen m (by simpa using h)

theorem isValid_cons {p : Piece} {ps : List Piece} (hp : p.IsValid) (h : ∀ q ∈ ps, q.IsValid) : ∀ q ∈ p :: ps, q.IsValid :=
  List.forall_mem_cons.2 ⟨hp, h⟩

theorem lifetimePieces_eq (l : Option Ident) : lifetimePieces l = quotedPieces (l.map Ident.chars) := by
  cases l <;> rfl

theorem spaced_line : Spaced [] ['\n'] := .blank (by decide) .nil

theorem endsWord_line : EndsWord ['\n'] := by
  intro c hc
  obtain rfl : '\n' = c := by simpa using hc
  exact .inl (by decide)

theorem isStr_cases {v : List Char} (h : isStr v = true) : ∃ e, v = "str".toList ++ e ∧ EndsWord e ∧ Spaced [] e := by
  simp only [isStr, Bool.or_eq_true, beq_iff_eq] at h
  obtain rfl | rfl := h
  · exact ⟨[], rfl, endsWord_nil, .nil⟩
  · exact ⟨['\n'], rfl, endsWord_line, spaced_line⟩

theorem isMutStr_cases {v : List Char} (h : isMutStr v = true) :
    isStr v = true ∨ ∃ b r, v = "mut".toList ++ b :: r ∧ isBlank b = true ∧ isStr r = true := by
  simp only [isMutStr, Bool.or_eq_true] at h
  obtain h | h := h
  · exact .inl h
  · right
    unfold afterMut? at h
    split at h
    · next r hr =>
      split at hr
      · next b t =>
        split at hr
        · next hb =>
          obtain rfl := Option.some.inj hr
          exact ⟨b, t, rfl, hb, h⟩
        · simp at hr
      · simp at hr
    · simp at h

theorem spaced_isStr {v : List Char} (h : isStr v = true) (w : List Char) :
    Spaced [.word (w ++ "str".toList)] (w ++ v) := by
  obtain ⟨e, rfl, he, hs⟩ := isStr_cases h
  rw [← List.append_assoc]
  exact .word he hs

/-- The word in front of `str` or of `mut` takes up what stands before it without a blank. -/
theorem spaced_isMutStr {v : List Char} (h : isMutStr v = true) (w : List Char) :
    Spaced [.word (w ++ "str".toList)] (w ++ v) ∨ Spaced [.word (w ++ "mut".toList), strPiece] (w ++ v) := by
  cases isMutStr_cases h with
  | inl h => exact .inl (spaced_isStr h w)
  | inr h =>
    obtain ⟨b, r, rfl, hb, hr⟩ := h
    right
    have hrest : Spaced [strPiece] (b :: r) := .blank hb (spaced_isStr hr [])
    rw [← List.append_assoc]
    exact .word (endsWord_blank hb r) hrest

theorem someLifetime_cut {p : List Char → Bool} {cs : List Char} (h : someLifetime p cs = true) :
    ∃ w r, cs = w ++ r ∧ w ≠ [] ∧ (∀ c ∈ w, isWord c = true) ∧ p r = true := by
  induction cs with
  | nil => simp [someLifetime] at h
  | cons c cs ih =>
    simp only [someLifetime, Bool.and_eq_true, Bool.or_eq_true] at h
    obtain ⟨hc, h | h⟩ := h
    · exact ⟨[c], cs, rfl, by simp, by simpa using hc, h⟩
    · obtain ⟨w, r, rfl, _, hw, hp⟩ := ih h
      exact ⟨c :: w, r, rfl, by simp, by simpa using ⟨hc, hw⟩, hp⟩

theorem someLifetime_append {p : List Char → Bool} {w r : List Char} (hne : w ≠ [])
    (hw : ∀ c ∈ w, isWord c = true) (hp : p r = true) : someLifetime p (w ++ r) = true := by
  induction w with
  | nil => exact absurd rfl hne
  | cons c w ih =>
    have hc := hw c List.mem_cons_self
    cases w with
    | nil => simp [someLifetime, hc, hp]
    | cons d t =>
      have hr := ih (by simp) fun e he => hw e (List.mem_cons_of_mem c he)
      rw [List.cons_append, someLifetime, hr]
      simp [hc]

theorem isValid_quoted {w e : List Char} (hw : ∀ c ∈ w, isWord c = true) (he : ∀ c ∈ e, isWord c = true) :
    (Piece.word ('\'' :: w ++ e)).IsValid := by
  refine ⟨by simp, fun c hc => ?_⟩
  rw [List.cons_append] at hc
  obtain rfl | hc := List.mem_cons.1 hc
  · exact ⟨by decide, by decide⟩
  · have hcw : isWord c = true := by
      obtain hc | hc := List.mem_append.1 hc
      · exact hw c hc
      · exact he c hc
    exact ⟨not_separator_of_isWord hcw, isBlank_of_isWord hcw⟩

/-- The pieces that a text is read as when it passes as `str` behind a lifetime. -/
theorem pieces_someLifetime {ps : List Piece} (hv : ∀ p ∈ ps, p.IsValid) {r : List Char} (hr : spell ps = '\'' :: r)
    (h : someLifetime (blankThen isMutStr) r = true) :
    ∃ w, ps = [.word ('\'' :: w)] ∨ ∃ m, ps = quotedPieces (some w) ++ (mutPieces m ++ [strPiece]) := by
  obtain ⟨w, v, rfl, _, hw, hv2⟩ := someLifetime_cut h
  -- `v` follows the cut at once, or after one blank
  have hcut : isMutStr v = true ∨ ∃ b u, v = b :: u ∧ isBlank b = true ∧ isMutStr u = true := by
    cases v with
    | nil => exact .inl hv2
    | cons b u =>
      simp only [blankThen, Bool.or_eq_true, Bool.and_eq_true] at hv2
      obtain h | ⟨hb, h⟩ := hv2
      · exact .inl h
      · exact .inr ⟨b, u, rfl, hb, h⟩
  have hread : ∀ {qs}, Spaced qs ('\'' :: w ++ v) → (∀ q ∈ qs, q.IsValid) → ps = qs := by
    intro qs hs hq
    rw [List.cons_append, ← hr] at hs
    exact eq_of_spaced_spell hs hv hq
  cases hcut with
  | inl h =>
    cases spaced_isMutStr h ('\'' :: w) with
    | inl hs =>
      have hq := isValid_quoted (e := "str".toList) hw (by decide)
      exact ⟨w ++ "str".toList, .inl (hread hs (by simpa using hq))⟩
    | inr hs =>
      have hq := isValid_quoted (e := "mut".toList) hw (by decide)
      exact ⟨w ++ "mut".toList, .inr ⟨false, hread hs (isValid_cons hq (isValid_marked false isValid_str))⟩⟩
  | inr h =>
    obtain ⟨b, u, rfl, hb, hu⟩ := h
    have hq := isValid_quoted (e := []) hw (by simp)
    rw [List.append_nil] at hq
    have he := endsWord_blank hb u
    cases spaced_isMutStr hu [] with
    | inl hs => exact ⟨w, .inr ⟨false, hread (.word he (.blank hb hs)) (isValid_cons hq (isValid_marked false isValid_str))⟩⟩
    | inr hs => exact ⟨w, .inr ⟨true, hread (.word he (.blank hb hs)) (isValid_cons hq (isValid_marked true isValid_str))⟩⟩

theorem pieces_isMutStr {ps : List Piece} (hv : ∀ p ∈ ps, p.IsValid) (h : isMutStr (spell ps) = true) :
    ∃ m, ps = mutPieces m ++ [strPiece] := by
  cases spaced_isMutStr h [] with
  | inl hs => exact ⟨false, eq_of_spaced_spell hs hv (isValid_marked false isValid_str)⟩
  | inr hs => exact ⟨true, eq_of_spaced_spell hs hv (isValid_marked true isValid_str)⟩

theorem pieces_lifetimeThen {ps : List Piece} (hv : ∀ p ∈ ps, p.IsValid)
    (h : lifetimeThen isMutStr (spell ps) = true) :
    (∃ w, ps = [.word ('\'' :: w)]) ∨ ∃ l m, ps = quotedPieces l ++ (mutPieces m ++ [strPiece]) := by
  have hplain : isMutStr (spell ps) = true → ∃ l m, ps = quotedPieces l ++ (mutPieces m ++ [strPiece]) := by
    intro h
    obtain ⟨m, hm⟩ := pieces_isMutStr hv h
    exact ⟨none, m, hm⟩
  unfold lifetimeThen at h
  split at h
  · next r hr =>
    simp only [Bool.or_eq_true] at h
    cases h with
    | inl h => exact .inr (hplain (hr ▸ h))
    | inr h =>
      obtain ⟨w, hw | hm⟩ := pieces_someLifetime hv hr h
      · exact .inl ⟨w, hw⟩
      · exact .inr ⟨some w, hm⟩
  · exact .inr (hplain h)

theorem eq_of_spell_word {ps : List Piece} (hv : ∀ p ∈ ps, p.IsValid) {w : List Char}
    (hw : (Piece.word w).IsValid) (h : spell ps = w) : ps = [.word w] := by
  have hs : Spaced [.word w] (spell ps) := by
    have hend : Spaced [.word w] (w ++ []) := .word endsWord_nil .nil
    rw [List.append_nil] at hend
    rwa [h]
  exact eq_of_spaced_spell hs hv (by simpa using hw)

/-- A text that passes and is no reference. -/
theorem pieces_isText {ps : List Piece} (hv : ∀ p ∈ ps, p.IsValid) (hamp : ∀ r, spell ps ≠ '&' :: r)
    (hquote : ∀ r, spell ps ≠ '\'' :: r) (h : isText (spell ps) = true) :
    ps = [stringPiece] ∨ ∃ m, ps = mutPieces m ++ [strPiece] := by
  simp only [isText, List.any_cons, List.any_nil, Bool.or_false, Bool.or_eq_true, beq_iff_eq] at h
  obtain (h | h | h) | h := h
  · exact .inl (eq_of_spell_word hv isValid_string h.symm)
  · exact absurd h.symm (hamp _)
  · exact absurd h.symm (hamp _)
  · have hplain : isMutStr (spell ps) = true := by
      cases hs : spell ps with
      | nil => rw [hs] at h; exact h
      | cons c r =>
        have hc : c ≠ '&' := by rintro rfl; exact hamp r hs
        have hq : c ≠ '\'' := by rintro rfl; exact hquote r hs
        rw [hs] at h
        simpa [lifetimeThen, hc, hq] using h
    exact .inr (pieces_isMutStr hv hplain)

theorem Front.ne_quote {ps : List Piece} (h : Front ps) (w : List Char) (qs : List Piece) :
    ps ≠ .word ('\'' :: w) :: qs := by
  rintro rfl
  exact h.head_ne_quote '\'' (by rw [spell_word]; rfl) rfl

theorem Front.ne_mut {ps : List Piece} (h : Front ps) (qs : List Piece) : ps ≠ .word "mut".toList :: qs := by
  intro e
  cases h with
  | sep hc => simp at e
  | word x hx hg => exact hx (Piece.word.inj (List.cons.inj e).1)

/-- Lifetime, `mut` and what they stand in front of are told apart. -/
theorem Front.referred_inj {ps qs : List Piece} (hp : Front ps) (hq : Front qs) {l k : Option (List Char)} {m n : Bool}
    (h : quotedPieces l ++ (mutPieces m ++ ps) = quotedPieces k ++ (mutPieces n ++ qs)) :
    l = k ∧ m = n ∧ ps = qs := by
  have hmut : ∀ {m n : Bool}, mutPieces m ++ ps = mutPieces n ++ qs → m = n ∧ ps = qs := by
    intro m n e
    cases m with
    | false =>
      cases n with
      | false => exact ⟨rfl, e⟩
      | true => exact absurd e (hp.ne_mut qs)
    | true =>
      cases n with
      | false => exact absurd e.symm (hq.ne_mut ps)
      | true => exact ⟨rfl, (List.cons.inj e).2⟩
  have hfront : ∀ {os : List Piece}, Front os → ∀ (m : Bool) (w : List Char) (rs : List Piece),
      mutPieces m ++ os ≠ .word ('\'' :: w) :: rs := by
    intro os ho m w rs e
    cases m with
    | false => exact ho.ne_quote w rs e
    | true => simp [mutPieces] at e
  cases l with
  | none =>
    cases k with
    | none => exact ⟨rfl, hmut h⟩
    | some v => exact absurd h (hfront hp m v _)
  | some w =>
    cases k with
    | none => exact absurd h.symm (hfront hq n w _)
    | some v =>
      obtain ⟨hw, hr⟩ := List.cons.inj h
      obtain rfl := (List.cons.inj (Piece.word.inj hw)).2
      exact ⟨rfl, hmut hr⟩

theorem front_str : Front [strPiece] := .word ⟨'s', ['t', 'r'], by decide, by decide⟩ (by decide) rfl

theorem front_string : Front [stringPiece] :=
  .word ⟨'S', ['t', 'r', 'i', 'n', 'g'], by decide, by decide⟩ (by decide) rfl

theorem isText_str (l : Option Ident) (m : Bool) :
    isText ('&' :: spell (lifetimePieces l ++ (mutPieces m ++ [strPiece]))) = true := by
  cases l with
  | none => cases m <;> decide
  | some l =>
    have hr : ∃ v, spell (mutPieces m ++ [strPiece]) = v ∧ gap (mutPieces m ++ [strPiece]) = [' '] ∧ isMutStr v = true := by
      cases m <;> exact ⟨_, rfl, rfl, by decide⟩
    obtain ⟨v, hv, hg, hm⟩ := hr
    have hb : blankThen isMutStr (' ' :: v) = true := by
      rw [blankThen, hm, show isBlank ' ' = true by decide]
      simp
    have hl : someLifetime (blankThen isMutStr) (l.chars ++ ' ' :: v) = true :=
      someLifetime_append (by simp [Ident.chars]) l.isWord_chars hb
    rw [lifetimePieces, List.singleton_append, spell_word, hv, hg]
    simp only [isText, List.cons_append, List.nil_append, lifetimeThen, hl, Bool.or_true]

/-- Behind reference marks, text is `str`, and without a lifetime also `String`. -/
theorem isText_referred (l : Option Ident) (m : Bool) {ps : List Piece} (hf : Front ps)
    (hv : ∀ p ∈ ps, p.IsValid) :
    isText ('&' :: spell (lifetimePieces l ++ (mutPieces m ++ ps))) = true
      ↔ ps = [strPiece] ∨ (l = none ∧ ps = [stringPiece]) := by
  have hall : ∀ p ∈ lifetimePieces l ++ (mutPieces m ++ ps), p.IsValid := by
    intro p hp
    obtain hp | hp := List.mem_append.1 hp
    · exact isValid_lifetimePieces l p hp
    · exact isValid_mutThen m hv p hp
  have hstring : ∀ (n : Bool), lifetimePieces l ++ (mutPieces m ++ ps) = mutPieces n ++ [stringPiece] →
      l = none ∧ ps = [stringPiece] := by
    intro n e
    rw [lifetimePieces_eq] at e
    obtain ⟨hl, _, hps⟩ := hf.referred_inj front_string (k := none) e
    exact ⟨Option.map_eq_none_iff.1 hl, hps⟩
  constructor
  · intro h
    simp only [isText, List.any_cons, List.any_nil, Bool.or_false, Bool.or_eq_true, beq_iff_eq] at h
    obtain (h | h | h) | h := h
    · simp at h
    · have hs : Spaced [stringPiece] (spell (lifetimePieces l ++ (mutPieces m ++ ps))) := by
        rw [← (List.cons.inj h).2]
        have hstr : ∀ p ∈ [stringPiece], p.IsValid := by simpa using isValid_string
        exact spaced_spell hstr
      exact .inr (hstring false (eq_of_spaced_spell hs hall (isValid_marked false isValid_string)))
    · have hq := isValid_marked true isValid_string
      have hs : Spaced (mutPieces true ++ [stringPiece]) (spell (lifetimePieces l ++ (mutPieces m ++ ps))) := by
        rw [← (List.cons.inj h).2]
        exact spaced_spell hq
      exact .inr (hstring true (eq_of_spaced_spell hs hall hq))
    · left
      obtain ⟨w, hw⟩ | ⟨k, n, hk⟩ := pieces_lifetimeThen hall h
      · rw [lifetimePieces_eq] at hw
        -- a lone lifetime stands in front of nothing
        have hlone : mutPieces m ++ ps = [] ∨ mutPieces m ++ ps = [.word ('\'' :: w)] := by
          cases l with
          | none => exact .inr hw
          | some l => exact .inl (List.cons.inj hw).2
        cases m with
        | false =>
          obtain e | e := hlone
          · exact absurd (congrArg spell e) hf.ne_nil
          · exact absurd e (hf.ne_quote w [])
        | true => simp [mutPieces] at hlone
      · rw [lifetimePieces_eq] at hk
        exact (hf.referred_inj front_str hk).2.2
  · intro h
    cases h with
    | inl h => rw [h]; exact isText_str l m
    | inr h =>
      obtain ⟨rfl, rfl⟩ := h
      cases m <;> decide

theorem afterMut?_isSome {cs : List Char} (h : (afterMut? cs).isSome = true) :
    ∃ b r, cs = "mut".toList ++ b :: r ∧ isBlank b = true := by
  unfold afterMut? at h
  split at h
  · next b r =>
    split at h
    · next hb => exact ⟨b, r, rfl, hb⟩
    · simp at h
  · simp at h

theorem afterMut?_word {w : List Char} {ps : List Piece} (hv : ∀ p ∈ .word w :: ps, p.IsValid) (hw : w ≠ "mut".toList) :
    (afterMut? (spell (.word w :: ps))).isSome = false := by
  rw [Bool.eq_false_iff]
  intro h
  obtain ⟨b, r, hs, hb⟩ := afterMut?_isSome h
  have hp := piecesOf_spell hv
  rw [hs, piecesOf_word isValid_mut (endsWord_blank hb r)] at hp
  exact hw (Piece.word.inj (List.cons.inj hp).1).symm

theorem afterMut?_mut (w : List Char) (ps : List Piece) :
    (afterMut? (spell (.word "mut".toList :: .word w :: ps))).isSome = true := by
  rw [spell_word]
  rfl

theorem spell_lifetime (l : Ident) (w : List Char) (ps : List Piece) :
    spell (lifetimePieces (some l) ++ .word w :: ps) = '\'' :: (l.chars ++ ' ' :: spell (.word w :: ps)) := by
  rw [lifetimePieces, List.singleton_append, spell_word]
  rfl

/-- A lifetime hides no `mut`, unless it ends in one. -/
theorem someLifetime_afterMut {l : Ident} (hl : ¬ "mut".toList <:+ l.chars) {v : List Char}
    (hv : (afterMut? v).isSome = false) :
    someLifetime (blankThen fun cs => (afterMut? cs).isSome) (l.chars ++ ' ' :: v) = false := by
  rw [Bool.eq_false_iff]
  intro h
  obtain ⟨w, u, hwu, _, hw, hu⟩ := someLifetime_cut h
  -- the cut lies in the lifetime
  have hcut : ∃ s, l.chars = w ++ s ∧ u = s ++ ' ' :: v := by
    obtain ⟨s, hs1, hs2⟩ | ⟨s, hs1, hs2⟩ := List.append_eq_append_iff.1 hwu
    · cases s with
      | nil => exact ⟨[], by simpa using hs1.symm, by simpa using hs2.symm⟩
      | cons c s =>
        have hc : ' ' = c := (List.cons.inj hs2).1
        exact absurd (hw ' ' (by rw [hs1, hc]; simp)) (by decide)
    · exact ⟨s, hs1, hs2⟩
  obtain ⟨s, hs, rfl⟩ := hcut
  cases s with
  | nil =>
    have hblank : (afterMut? (' ' :: v)).isSome = false := rfl
    simp only [List.nil_append, blankThen, hblank, hv, Bool.and_false, Bool.or_false] at hu
    exact absurd hu (by decide)
  | cons d s =>
    have hword : ∀ c ∈ d :: s, isWord c = true := fun c hc => l.isWord_chars c (hs ▸ List.mem_append_right w hc)
    have hd : isBlank d = false := isBlank_of_isWord (hword d List.mem_cons_self)
    simp only [List.cons_append, blankThen, hd, Bool.false_and, Bool.or_false] at hu
    obtain ⟨b, r, hb, hblank⟩ := afterMut?_isSome hu
    have hstop : ∀ {c : Char} (t : List Char), isBlank c = true → StopsWord (c :: t) :=
      fun t hc => (endsWord_blank hc t).stopsWord
    have h1 := takeWhile_isWord hword (hstop v (by decide : isBlank ' ' = true))
    have h2 := takeWhile_isWord (w := "mut".toList) (by decide) (hstop r hblank)
    rw [List.cons_append, hb, h2] at h1
    exact hl (h1 ▸ hs ▸ List.suffix_append w (d :: s))

/-- A reference to what starts with a word is mutable where `mut` stands in front of that word. -/
theorem isMutReference_referred (l : Option Ident) (m : Bool) {w : List Char} {ps : List Piece}
    (hl : ∀ x, l = some x → ¬ "mut".toList <:+ x.chars) (hv : ∀ p ∈ .word w :: ps, p.IsValid) (hw : w ≠ "mut".toList)
    (hq : w.head? ≠ some '\'') :
    isMutReference ('&' :: spell (lifetimePieces l ++ (mutPieces m ++ .word w :: ps))) = m := by
  have hafter : (afterMut? (spell (mutPieces m ++ .word w :: ps))).isSome = m := by
    cases m with
    | false => exact afterMut?_word hv hw
    | true => exact afterMut?_mut w ps
  rw [isMutReference]
  cases l with
  | none =>
    have hhead : (spell (mutPieces m ++ .word w :: ps)).head? ≠ some '\'' := by
      cases m with
      | true => simp [mutPieces, spell_word]
      | false =>
        obtain ⟨c, t, rfl⟩ := List.exists_cons_of_ne_nil (hv _ List.mem_cons_self).1
        simpa [mutPieces, spell_word] using hq
    rw [lifetimePieces, List.nil_append]
    unfold lifetimeThen
    split
    · next r hr => rw [hr] at hhead; simp at hhead
    · exact hafter
  | some l =>
    have hquote : ∀ r, (afterMut? ('\'' :: r)).isSome = false := fun r => rfl
    have hrest : ∃ v qs, mutPieces m ++ .word w :: ps = .word v :: qs := by cases m <;> exact ⟨_, _, rfl⟩
    obtain ⟨v, qs, hvq⟩ := hrest
    rw [hvq, spell_lifetime, ← hvq, lifetimeThen, hquote, Bool.false_or]
    cases m with
    | false => exact someLifetime_afterMut (hl l rfl) hafter
    | true =>
      refine someLifetime_append (by simp [Ident.chars]) l.isWord_chars ?_
      rw [blankThen, hafter, show isBlank ' ' = true by decide]
      simp

end RingBridge.Spelling
