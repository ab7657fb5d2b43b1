import RingBridge.Proofs.Text.Blank
/-!
The pieces of a text, and the texts that are spaced from given pieces. Blanks may stand anywhere between two
pieces and must stand between two words; whichever way they are set, the pieces are read back.
-/
namespace RingBridge.Spelling
open Text

def Piece.IsValid : Piece → Prop
  | .sep c => isSeparator c = true
  | .word w => w ≠ [] ∧ ∀ c ∈ w, isSeparator c = false ∧ isBlank c = false

instance : DecidablePred Piece.IsValid
  | .sep c => inferInstanceAs (Decidable (isSeparator c = true))
  | .word w => inferInstanceAs (Decidable (w ≠ [] ∧ ∀ c ∈ w, isSeparator c = false ∧ isBlank c = false))

def EndsWord (cs : List Char) : Prop := ∀ c, cs.head? = some c → isBlank c = true ∨ isSeparator c = true

/-- Texts with the given pieces in order and blanks around them. -/
inductive Spaced : List Piece → List Char → Prop
  | nil : Spaced [] []
  | blank {ps cs b} (hb : isBlank b = true) (h : Spaced ps cs) : Spaced ps (b :: cs)
  | sep {ps cs c} (h : Spaced ps cs) : Spaced (.sep c :: ps) (c :: cs)
  | word {ps cs w} (he : EndsWord cs) (h : Spaced ps cs) : Spaced (.word w :: ps) (w ++ cs)

theorem endsWord_nil : EndsWord [] := by
  intro c hc
  simp at hc

theorem endsWord_blank {b : Char} (hb : isBlank b = true) (cs : List Char) : EndsWord (b :: cs) := by
  intro c hc
  obtain rfl : b = c := by simpa using hc
  exact .inl hb

theorem endsWord_sep {c : Char} (hc : isSeparator c = true) (cs : List Char) : EndsWord (c :: cs) := by
  intro d hd
  obtain rfl : c = d := by simpa using hd
  exact .inr hc

def piecesOf (cs : List Char) : List Piece := (words cs).flatMap pieces

theorem normalize_eq (cs : List Char) : normalize cs = spell (piecesOf cs) := rfl

theorem pieces_nil : pieces [] = [] := rfl

theorem pieces_sep {c : Char} (hc : isSeparator c = true) (r : List Char) : pieces (c :: r) = .sep c :: pieces r :=
  if_pos hc

theorem pieces_cons {c : Char} (hc : isSeparator c = false) (r : List Char) :
    pieces (c :: r) = match pieces r with
      | .word w :: ps => .word (c :: w) :: ps
      | ps => .word [c] :: ps :=
  if_neg (by simp [hc])

theorem splitWhere_eq_cons (p : Char → Bool) (cs : List Char) :
    ∃ parts, splitWhere p cs = cs.takeWhile (fun c => !p c) :: parts := by
  induction cs with
  | nil => exact ⟨[], rfl⟩
  | cons c r ih =>
    obtain ⟨parts, h⟩ := ih
    cases hp : p c with
    | true => exact ⟨splitWhere p r, by simp [splitWhere, hp]⟩
    | false => exact ⟨parts, by simp [splitWhere, hp, h]⟩

theorem words_blank {b : Char} (hb : isBlank b = true) (cs : List Char) : words (b :: cs) = words cs := by
  simp [words, splitWhere, hb]

/-- The pieces of the first word, and those of the words after it. -/
theorem piecesOf_split (cs : List Char) :
    ∃ qs, piecesOf cs = pieces (cs.takeWhile fun c => !isBlank c) ++ qs
      ∧ ∀ c, isBlank c = false → piecesOf (c :: cs) = pieces (c :: cs.takeWhile fun d => !isBlank d) ++ qs := by
  obtain ⟨parts, h⟩ := splitWhere_eq_cons isBlank cs
  refine ⟨(parts.filter fun w => !w.isEmpty).flatMap pieces, ?_, ?_⟩
  · simp only [piecesOf, words, h, List.filter_cons]
    split
    · simp
    · next he =>
      simp only [Bool.not_eq_true, Bool.not_eq_false', List.isEmpty_iff] at he
      simp [he, pieces_nil]
  · intro c hc
    simp [piecesOf, words, splitWhere, hc, h]

theorem piecesOf_blank {b : Char} (hb : isBlank b = true) (cs : List Char) : piecesOf (b :: cs) = piecesOf cs := by
  rw [piecesOf, words_blank hb]
  rfl

theorem piecesOf_sep {c : Char} (hc : isSeparator c = true) (cs : List Char) :
    piecesOf (c :: cs) = .sep c :: piecesOf cs := by
  obtain ⟨qs, h1, h2⟩ := piecesOf_split cs
  rw [h2 c (not_blank_of_isSeparator hc), h1, pieces_sep hc, List.cons_append]

theorem pieces_endsWord {cs : List Char} (h : EndsWord cs) (w : List Char) (ps : List Piece) :
    pieces (cs.takeWhile fun c => !isBlank c) ≠ .word w :: ps := by
  cases cs with
  | nil => simp [pieces_nil]
  | cons c r =>
    obtain hb | hs := h c rfl
    · simp [hb, pieces_nil]
    · simp [not_blank_of_isSeparator hs, pieces_sep hs]

theorem piecesOf_endsWord {c : Char} (hs : isSeparator c = false) (hb : isBlank c = false) {cs : List Char}
    (h : EndsWord cs) : piecesOf (c :: cs) = .word [c] :: piecesOf cs := by
  obtain ⟨qs, h1, h2⟩ := piecesOf_split cs
  rw [h2 c hb, h1, pieces_cons hs]
  split
  · next w ps he => exact absurd he (pieces_endsWord h w ps)
  · rfl

theorem piecesOf_cons_word {c d : Char} (hs : isSeparator c = false) (hb : isBlank c = false)
    (ds : isSeparator d = false) (db : isBlank d = false) {r w : List Char} {ps : List Piece}
    (h : piecesOf (d :: r) = .word w :: ps) : piecesOf (c :: d :: r) = .word (c :: w) :: ps := by
  obtain ⟨qs, h1, h2⟩ := piecesOf_split (d :: r)
  rw [h2 c hb, pieces_cons hs]
  rw [h1] at h
  have htake : ((d :: r).takeWhile fun c => !isBlank c) = d :: r.takeWhile fun c => !isBlank c := by simp [db]
  rw [htake] at h ⊢
  generalize hp : pieces (d :: r.takeWhile fun c => !isBlank c) = qs' at h ⊢
  -- the first piece of the word that starts with `d` is a word
  have hword : ∃ v vs, qs' = .word v :: vs := by
    rw [pieces_cons ds] at hp
    split at hp
    · exact ⟨_, _, hp.symm⟩
    · exact ⟨_, _, hp.symm⟩
  obtain ⟨v, vs, rfl⟩ := hword
  simp only [List.cons_append, List.cons.injEq, Piece.word.injEq] at h ⊢
  exact ⟨⟨trivial, h.1⟩, h.2⟩

theorem piecesOf_word {w cs : List Char} (hw : (Piece.word w).IsValid) (h : EndsWord cs) :
    piecesOf (w ++ cs) = .word w :: piecesOf cs := by
  obtain ⟨hne, hc⟩ := hw
  induction w with
  | nil => exact absurd rfl hne
  | cons c r ih =>
    obtain ⟨hs, hb⟩ := hc c (by simp)
    cases r with
    | nil => exact piecesOf_endsWord hs hb h
    | cons d t =>
      obtain ⟨ds, db⟩ := hc d (by simp)
      exact piecesOf_cons_word hs hb ds db (ih (by simp) fun e he => hc e (List.mem_cons_of_mem c he))

theorem splitWhere_append (p : Char → Bool) (as : List Char) {b : Char} (hb : p b = true) (cs : List Char) :
    splitWhere p (as ++ b :: cs) = splitWhere p as ++ splitWhere p cs := by
  induction as with
  | nil => simp [splitWhere, hb]
  | cons a r ih =>
    obtain ⟨parts, h⟩ := splitWhere_eq_cons p r
    rw [List.cons_append, splitWhere, splitWhere, ih, h]
    split <;> rfl

/-- A blank cuts a text into texts that have its pieces. -/
theorem piecesOf_append (as : List Char) {b : Char} (hb : isBlank b = true) (cs : List Char) :
    piecesOf (as ++ b :: cs) = piecesOf as ++ piecesOf cs := by
  rw [piecesOf, words, splitWhere_append isBlank as hb, List.filter_append, List.flatMap_append]
  rfl

theorem piecesOf_intercalate (ws : List (List Char)) : piecesOf ([' '].intercalate ws) = ws.flatMap piecesOf := by
  induction ws with
  | nil => rfl
  | cons w ws ih =>
    cases ws with
    | nil => simp
    | cons v ws =>
      rw [List.intercalate_cons_cons, List.append_assoc, List.singleton_append, piecesOf_append _ (by decide), ih]
      rfl

/-- The first piece of a text that does not start with a blank. -/
theorem piecesOf_cons {c : Char} (hc : isBlank c = false) (r : List Char) :
    (∃ ps, piecesOf (c :: r) = .sep c :: ps) ∨ ∃ w ps, piecesOf (c :: r) = .word (c :: w) :: ps := by
  obtain ⟨qs, _, h⟩ := piecesOf_split r
  rw [h c hc]
  cases hs : isSeparator c with
  | true =>
    rw [pieces_sep hs]
    exact .inl ⟨_, rfl⟩
  | false =>
    rw [pieces_cons hs]
    right
    split
    · exact ⟨_, _, rfl⟩
    · exact ⟨_, _, rfl⟩

theorem not_blank_of_mem_splitWhere {p : Char → Bool} {cs w : List Char} (h : w ∈ splitWhere p cs) :
    ∀ c ∈ w, p c = false := by
  induction cs generalizing w with
  | nil => simp_all [splitWhere]
  | cons a r ih =>
    obtain ⟨parts, hp⟩ := splitWhere_eq_cons p r
    cases ha : p a with
    | true =>
      rw [splitWhere, if_pos ha] at h
      obtain rfl | h := List.mem_cons.1 h
      · simp
      · exact ih h
    | false =>
      rw [splitWhere, if_neg (by simp [ha]), hp] at h
      rw [hp] at ih
      obtain rfl | h := List.mem_cons.1 h
      · exact List.forall_mem_cons.2 ⟨ha, ih List.mem_cons_self⟩
      · exact ih (List.mem_cons_of_mem _ h)

theorem isValid_of_mem_pieces {cs : List Char} (h : ∀ c ∈ cs, isBlank c = false) : ∀ p ∈ pieces cs, p.IsValid := by
  induction cs with
  | nil => simp [pieces_nil]
  | cons c r ih =>
    have hr := ih fun d hd => h d (List.mem_cons_of_mem c hd)
    have hb := h c List.mem_cons_self
    cases hs : isSeparator c with
    | true =>
      rw [pieces_sep hs]
      exact List.forall_mem_cons.2 ⟨hs, hr⟩
    | false =>
      rw [pieces_cons hs]
      split
      · next w ps hw =>
        rw [hw] at hr
        obtain ⟨⟨_, hv⟩, hps⟩ := List.forall_mem_cons.1 hr
        exact List.forall_mem_cons.2 ⟨⟨by simp, List.forall_mem_cons.2 ⟨⟨hs, hb⟩, hv⟩⟩, hps⟩
      · exact List.forall_mem_cons.2 ⟨⟨by simp, by simpa using ⟨hs, hb⟩⟩, hr⟩

theorem isValid_piecesOf (cs : List Char) : ∀ p ∈ piecesOf cs, p.IsValid := by
  intro p hp
  obtain ⟨w, hw, hp⟩ := List.mem_flatMap.1 hp
  exact isValid_of_mem_pieces (not_blank_of_mem_splitWhere (List.mem_filter.1 hw).1) p hp

/-- Whichever way blanks are set around pieces, the pieces are read back. -/
theorem piecesOf_spaced {ps : List Piece} {cs : List Char} (h : Spaced ps cs) (hv : ∀ p ∈ ps, p.IsValid) :
    piecesOf cs = ps := by
  induction h with
  | nil => rfl
  | blank hb _ ih => rw [piecesOf_blank hb, ih hv]
  | sep _ ih =>
    have hc := hv _ List.mem_cons_self
    rw [piecesOf_sep hc, ih fun p hp => hv p (List.mem_cons_of_mem _ hp)]
  | word he _ ih =>
    have hw := hv _ List.mem_cons_self
    rw [piecesOf_word hw he, ih fun p hp => hv p (List.mem_cons_of_mem _ hp)]

def gap : List Piece → List Char
  | .word _ :: _ => [' ']
  | _ => []

theorem spell_nil : spell [] = [] := rfl

theorem spell_sep (c : Char) (ps : List Piece) : spell (.sep c :: ps) = c :: spell ps := rfl

theorem spell_word (w : List Char) (ps : List Piece) : spell (.word w :: ps) = w ++ (gap ps ++ spell ps) := by
  obtain _ | ⟨_ | _, _⟩ := ps <;> simp [spell, gap]

theorem spell_lone (w : List Char) : spell [.word w] = w := by
  rw [spell_word, spell_nil, List.append_nil]
  exact List.append_nil w

theorem spell_append_sep (ps : List Piece) (c : Char) (qs : List Piece) :
    spell (ps ++ .sep c :: qs) = spell ps ++ c :: spell qs := by
  induction ps with
  | nil => rfl
  | cons p ps ih =>
    cases p with
    | sep d => rw [List.cons_append, spell_sep, ih, spell_sep, List.cons_append]
    | word w =>
      have hg : gap (ps ++ .sep c :: qs) = gap ps := by obtain _ | ⟨_ | _, _⟩ := ps <;> rfl
      rw [List.cons_append, spell_word, spell_word, ih, hg]
      simp

theorem endsWord_gap {ps : List Piece} (hv : ∀ p ∈ ps, p.IsValid) : EndsWord (gap ps ++ spell ps) := by
  intro c hc
  obtain _ | ⟨d | w, ps⟩ := ps
  · cases hc
  · have hd := hv (.sep d) List.mem_cons_self
    simp only [gap, spell_sep, List.nil_append, List.head?_cons, Option.some.injEq] at hc
    exact .inr (hc ▸ hd)
  · simp only [gap, List.cons_append, List.head?_cons, Option.some.injEq] at hc
    exact .inl (hc ▸ by decide)

theorem spaced_gap {ps : List Piece} {cs : List Char} (h : Spaced ps cs) (qs : List Piece) :
    Spaced ps (gap qs ++ cs) := by
  obtain _ | ⟨_ | _, _⟩ := qs
  · exact h
  · exact h
  · exact .blank (by decide) h

theorem spaced_spell {ps : List Piece} (hv : ∀ p ∈ ps, p.IsValid) : Spaced ps (spell ps) := by
  induction ps with
  | nil => exact .nil
  | cons p ps ih =>
    have hps : ∀ q ∈ ps, q.IsValid := fun q hq => hv q (List.mem_cons_of_mem p hq)
    cases p with
    | sep c => exact .sep (ih hps)
    | word w =>
      rw [spell_word]
      exact .word (endsWord_gap hps) (spaced_gap (ih hps) ps)

theorem piecesOf_spell {ps : List Piece} (hv : ∀ p ∈ ps, p.IsValid) : piecesOf (spell ps) = ps :=
  piecesOf_spaced (spaced_spell hv) hv

theorem normalize_spaced {ps : List Piece} {cs : List Char} (h : Spaced ps cs) (hv : ∀ p ∈ ps, p.IsValid) :
    normalize cs = spell ps := by
  rw [normalize_eq, piecesOf_spaced h hv]

/-- A text that is spaced from other pieces is not the written form of these. -/
theorem eq_of_spaced_spell {ps qs : List Piece} (h : Spaced qs (spell ps)) (hp : ∀ p ∈ ps, p.IsValid)
    (hq : ∀ q ∈ qs, q.IsValid) : ps = qs := by
  rw [← piecesOf_spell hp, piecesOf_spaced h hq]

theorem head_spell {ps : List Piece} (hv : ∀ p ∈ ps, p.IsValid) (c : Char) (h : (spell ps).head? = some c) :
    isBlank c = false := by
  obtain _ | ⟨d | w, ps⟩ := ps
  · cases h
  · have hd := hv (.sep d) List.mem_cons_self
    simp only [spell_sep, List.head?_cons, Option.some.injEq] at h
    exact h ▸ not_blank_of_isSeparator hd
  · obtain ⟨hne, hw⟩ := hv (.word w) List.mem_cons_self
    obtain ⟨x, t, rfl⟩ := List.exists_cons_of_ne_nil hne
    simp only [spell_word, List.cons_append, List.head?_cons, Option.some.injEq] at h
    exact h ▸ (hw x (by simp)).2

theorem getLast_spell {ps : List Piece} (hv : ∀ p ∈ ps, p.IsValid) (c : Char)
    (h : (spell ps).getLast? = some c) : isBlank c = false := by
  induction ps with
  | nil => cases h
  | cons p ps ih =>
    have hps : ∀ q ∈ ps, q.IsValid := fun q hq => hv q (List.mem_cons_of_mem p hq)
    by_cases hnil : spell ps = []
    · cases p with
      | sep d =>
        have hd := hv (.sep d) List.mem_cons_self
        simp only [spell_sep, hnil, List.getLast?_singleton, Option.some.injEq] at h
        exact h ▸ not_blank_of_isSeparator hd
      | word w =>
        obtain ⟨hne, hw⟩ := hv (.word w) List.mem_cons_self
        have hg : gap ps = [] := by
          obtain _ | ⟨_ | v, ps⟩ := ps
          · rfl
          · rfl
          · have hv2 := (hps (.word v) List.mem_cons_self).1
            rw [spell_word] at hnil
            exact absurd (List.append_eq_nil_iff.1 hnil).1 hv2
        rw [spell_word, hg, hnil, List.nil_append, List.append_nil] at h
        exact (hw c (List.mem_of_getLast? h)).2
    · obtain ⟨x, hx⟩ := Option.ne_none_iff_exists'.1 (mt List.getLast?_eq_none_iff.1 hnil)
      have hlast : (spell (p :: ps)).getLast? = some x := by
        cases p with
        | sep d => rw [spell_sep, ← List.singleton_append, List.getLast?_append, hx]; rfl
        | word w => rw [spell_word, ← List.append_assoc, List.getLast?_append, hx]; rfl
      rw [hlast, ← hx] at h
      exact ih hps h

theorem trim_spell {ps : List Piece} (hv : ∀ p ∈ ps, p.IsValid) : trim (spell ps) = spell ps :=
  trim_eq_self (head_spell hv) (getLast_spell hv)

end RingBridge.Spelling
