import RingBridge.Proofs.Spelling.Nested
import RingBridge.Spelling.Primitive
/-!
The fronts of spellings: identifiers, module paths, heads with generic lists, and reference marks with their
lifetimes.
-/
namespace RingBridge.Spelling
open Text

structure Ident where
  first : Char
  rest : List Char
  starts : isNameStart first = true
  continues : ∀ c ∈ rest, isWord c = true

def Ident.chars (x : Ident) : List Char := x.first :: x.rest

theorem Ident.isWord_chars (x : Ident) (c : Char) (h : c ∈ x.chars) : isWord c = true := by
  obtain rfl | h := List.mem_cons.1 h
  · exact isWord_of_isNameStart x.starts
  · exact x.continues c h

theorem Ident.isValid (x : Ident) : (Piece.word x.chars).IsValid :=
  ⟨by simp [chars], fun c hc => ⟨not_separator_of_isWord (x.isWord_chars c hc), isBlank_of_isWord (x.isWord_chars c hc)⟩⟩

structure Segment extends Ident where
  notKeyword : toIdent.chars ≠ "mut".toList

def pathPieces (path : List Segment) : List Piece :=
  path.flatMap fun s => [.word s.chars, .sep ':', .sep ':']

def StopsWord (cs : List Char) : Prop := ∀ c, cs.head? = some c → isWord c = false

theorem EndsWord.stopsWord {cs : List Char} (h : EndsWord cs) : StopsWord cs := by
  intro c hc
  obtain hb | hs := h c hc
  · exact isWord_of_isBlank hb
  · exact not_word_of_isSeparator hs

theorem takeWhile_isWord {w cs : List Char} (hw : ∀ c ∈ w, isWord c = true) (h : StopsWord cs) :
    (w ++ cs).takeWhile isWord = w := by
  rw [List.takeWhile_append_of_pos hw]
  cases cs with
  | nil => simp
  | cons c r => simp [h c rfl]

theorem dropWhile_isWord {w cs : List Char} (hw : ∀ c ∈ w, isWord c = true) (h : StopsWord cs) :
    (w ++ cs).dropWhile isWord = cs := by
  rw [List.dropWhile_append_of_pos hw]
  cases cs with
  | nil => rfl
  | cons c r => simp [h c rfl]

theorem name?_ident (x : Ident) {cs : List Char} (h : StopsWord cs) : name? (x.chars ++ cs) = some (x.chars, cs) := by
  rw [Ident.chars, List.cons_append, name?, if_pos x.starts, takeWhile_isWord x.continues h,
    dropWhile_isWord x.continues h]

theorem name?_eq_none {c : Char} (h : isNameStart c = false) (cs : List Char) : name? (c :: cs) = none := by
  simp [name?, h]

theorem afterSegment?_segment (x : Ident) (cs : List Char) : afterSegment? (x.chars ++ ':' :: ':' :: cs) = some cs := by
  have hs : StopsWord (':' :: ':' :: cs) := by
    intro c hc
    simp only [List.head?_cons, Option.some.injEq] at hc
    exact hc ▸ by decide
  rw [afterSegment?, name?_ident x hs]
  rfl

theorem exists_of_name? {cs n r : List Char} (h : name? cs = some (n, r)) : ∃ x : Ident, n = x.chars ∧ cs = x.chars ++ r := by
  unfold name? at h
  split at h
  · cases h
  · next c t =>
    split at h
    · next hstart =>
      obtain ⟨rfl, rfl⟩ := Prod.mk.inj (Option.some.inj h)
      refine ⟨⟨c, t.takeWhile isWord, hstart, List.all_eq_true.1 List.all_takeWhile⟩, rfl, ?_⟩
      rw [Ident.chars, List.cons_append, List.takeWhile_append_dropWhile]
    · cases h

theorem exists_of_afterSegment? {cs r : List Char} (h : afterSegment? cs = some r) :
    ∃ x : Ident, cs = x.chars ++ ':' :: ':' :: r := by
  unfold afterSegment? at h
  split at h
  · next hname =>
    cases h
    obtain ⟨x, _, rfl⟩ := exists_of_name? hname
    exact ⟨x, rfl⟩
  · cases h

theorem stripPath_segment (x : Ident) (cs : List Char) :
    stripPath (x.chars ++ ':' :: ':' :: cs) = stripPath cs := by
  have h := afterSegment?_segment x cs
  rw [stripPath]
  split
  · next r hr => rw [h] at hr; cases hr; rfl
  · next hr => rw [h] at hr; exact absurd hr (by simp)

theorem stripPath_eq_self {cs : List Char} (h : afterSegment? cs = none) : stripPath cs = cs := by
  rw [stripPath]
  split
  · next r hr => rw [h] at hr; exact absurd hr (by simp)
  · rfl

/-- Without a path, the base name goes up to the generic arguments. -/
theorem baseName_plain {s : String} (h : afterSegment? s.toList = none) :
    baseName s = String.ofList (s.toList.takeWhile (· != '<')) := by
  rw [baseName, onText, base, stripPath_eq_self h]

theorem afterSegment?_stripPath (cs : List Char) : afterSegment? (stripPath cs) = none := by
  fun_induction stripPath cs with
  | case1 cs r h ih => exact ih
  | case2 cs h => exact h

/-- A path segment at the front of a text is at the front of any longer one. -/
theorem afterSegment?_of_append {cs ds : List Char} (h : afterSegment? (cs ++ ds) = none) : afterSegment? cs = none := by
  apply Option.eq_none_iff_forall_ne_some.2
  intro r hr
  obtain ⟨x, rfl⟩ := exists_of_afterSegment? hr
  rw [List.append_assoc] at h
  exact nomatch (afterSegment?_segment x (r ++ ds)).symm.trans h

/-- A base name is its own base name. -/
theorem baseName_baseName (s : String) : baseName (baseName s) = baseName s := by
  have hcut := List.takeWhile_append_dropWhile (p := (· != '<')) (l := stripPath s.toList)
  have hplain : afterSegment? (base s.toList) = none :=
    afterSegment?_of_append (hcut.symm ▸ afterSegment?_stripPath s.toList)
  have hnone : ∀ c ∈ base s.toList, (c != '<') = true := List.all_eq_true.1 List.all_takeWhile
  have hidem : (base s.toList).takeWhile (· != '<') = base s.toList := by
    rw [← List.append_nil (base s.toList), List.takeWhile_append_of_pos hnone, List.takeWhile_nil]
  rw [baseName, baseName, onText, onText, String.toList_ofList, base, stripPath_eq_self hplain, hidem]

theorem stripPath_path (path : List Segment) {ps : List Piece} (h : afterSegment? (spell ps) = none) :
    stripPath (spell (pathPieces path ++ ps)) = spell ps := by
  induction path with
  | nil => exact stripPath_eq_self h
  | cons s path ih =>
    rw [pathPieces, List.flatMap_cons, List.append_assoc, ← pathPieces, List.cons_append, spell_word]
    exact (stripPath_segment s.toIdent _).trans ih

def IsTail (cs : List Char) : Prop := cs = [] ∨ ∃ r, cs = '<' :: r

theorem IsTail.stopsWord {cs : List Char} (h : IsTail cs) : StopsWord cs := by
  obtain rfl | ⟨r, rfl⟩ := h <;> intro c hc
  · simp at hc
  · simp only [List.head?_cons, Option.some.injEq] at hc
    exact hc ▸ by decide

theorem afterSegment?_head (x : Ident) {cs : List Char} (h : IsTail cs) : afterSegment? (x.chars ++ cs) = none := by
  rw [afterSegment?, name?_ident x h.stopsWord]
  obtain rfl | ⟨r, rfl⟩ := h <;> rfl

theorem spell_head (x : Ident) {ps : List Piece} (h : gap ps = []) :
    spell (.word x.chars :: ps) = x.chars ++ spell ps := by
  rw [spell_word, h, List.nil_append]

/-- The name and what follows it are left when the path is dropped. -/
theorem stripPath_head (path : List Segment) (x : Ident) {ps : List Piece} (hg : gap ps = [])
    (h : IsTail (spell ps)) : stripPath (spell (pathPieces path ++ .word x.chars :: ps)) = x.chars ++ spell ps := by
  rw [stripPath_path, spell_head x hg]
  rw [spell_head x hg]
  exact afterSegment?_head x h

/-- Head and arguments of a generic type. -/
theorem generic?_list (path : List Segment) (x : Ident) {ps : List Piece} (h : Nested true (spell ps)) :
    generic? (spell (pathPieces path ++ .word x.chars :: .sep '<' :: (ps ++ [.sep '>'])))
      = some (x.chars, splitTop ',' (spell ps)) := by
  have hs : spell (.sep '<' :: (ps ++ [.sep '>'])) = '<' :: (spell ps ++ ['>']) := by
    rw [spell, spell_append_sep]
    rfl
  have ht : IsTail (spell (.sep '<' :: (ps ++ [.sep '>']))) := .inr ⟨_, hs⟩
  rw [generic?, stripPath_head path x rfl ht, name?_ident x ht.stopsWord, hs]
  simp only [closingFrom_bracket h, if_pos, List.dropLast_concat]

theorem generic?_word (path : List Segment) (x : Ident) :
    generic? (spell (pathPieces path ++ [.word x.chars])) = none := by
  have ht : IsTail (spell []) := .inl rfl
  rw [generic?, stripPath_head path x rfl ht, name?_ident x ht.stopsWord]
  rfl

theorem generic?_eq_none {c : Char} (h : isNameStart c = false) (cs : List Char) : generic? (c :: cs) = none := by
  have hn := name?_eq_none h cs
  have ha : afterSegment? (c :: cs) = none := by rw [afterSegment?, hn]
  rw [generic?, stripPath_eq_self ha, hn]

/-- How a type starts: with a separator, or with a name that is not the keyword `mut` and ends at a separator. -/
inductive Front : List Piece → Prop
  | sep {c ps} (hc : isSeparator c = true) : Front (.sep c :: ps)
  | word {ps} (x : Ident) (hx : x.chars ≠ "mut".toList) (hg : gap ps = []) : Front (.word x.chars :: ps)

def lifetimePieces : Option Ident → List Piece
  | some l => [.word ('\'' :: l.chars)]
  | none => []

def mutPieces (mutable : Bool) : List Piece := if mutable then [.word "mut".toList] else []

theorem isValid_lifetime (l : Ident) : (Piece.word ('\'' :: l.chars)).IsValid := by
  refine ⟨by simp, fun c hc => ?_⟩
  obtain rfl | hc := List.mem_cons.1 hc
  · exact ⟨by decide, by decide⟩
  · exact l.isValid.2 c hc

theorem isValid_lifetimePieces (l : Option Ident) : ∀ p ∈ lifetimePieces l, p.IsValid := by
  cases l with
  | none => simp [lifetimePieces]
  | some l => simpa [lifetimePieces] using isValid_lifetime l

theorem isValid_mut : (Piece.word "mut".toList).IsValid := ⟨by decide, by decide⟩

theorem isValid_mutPieces (m : Bool) : ∀ p ∈ mutPieces m, p.IsValid := by
  cases m with
  | false => simp [mutPieces]
  | true => simpa [mutPieces] using isValid_mut

theorem Front.head_ne_quote {ps : List Piece} (h : Front ps) (c : Char) (hc : (spell ps).head? = some c) :
    c ≠ '\'' := by
  rintro rfl
  cases h with
  | sep hs =>
    simp only [spell, List.head?_cons, Option.some.injEq] at hc
    subst hc
    exact absurd hs (by decide)
  | word x hx hg =>
    rw [spell_head x hg] at hc
    simp only [Ident.chars, List.cons_append, List.head?_cons, Option.some.injEq] at hc
    exact absurd (hc ▸ x.starts) (by decide)

theorem Front.ne_nil {ps : List Piece} (h : Front ps) : spell ps ≠ [] := by
  cases h with
  | sep hs => simp [spell]
  | word x hx hg => rw [spell_head x hg]; simp [Ident.chars]

/-- A type that starts with the letters of `mut` goes on with a word character. -/
theorem Front.mut {ps : List Piece} (h : Front ps) (hv : ∀ p ∈ ps, p.IsValid) {r : List Char}
    (hr : spell ps = 'm' :: 'u' :: 't' :: r) : ∃ c t, r = c :: t ∧ isWord c = true := by
  cases h with
  | sep hs =>
    simp only [spell, List.cons.injEq] at hr
    exact absurd (hr.1 ▸ hs) (by decide)
  | @word qs x hx hg =>
    have he : StopsWord (spell qs) := by
      have := endsWord_gap fun q hq => hv q (List.mem_cons_of_mem _ hq)
      rw [hg] at this
      exact this.stopsWord
    have hw := takeWhile_isWord x.isWord_chars he
    rw [spell_head x hg] at hr
    rw [hr] at hw
    cases r with
    | nil => exact absurd hw.symm hx
    | cons c t =>
      refine ⟨c, t, rfl, ?_⟩
      cases hc : isWord c with
      | true => rfl
      | false =>
        refine absurd ?_ hx
        rw [← hw]
        simp [hc, show isWord 'm' = true by decide, show isWord 'u' = true by decide, show isWord 't' = true by decide]

theorem dropBlank_gap {ps : List Piece} (hv : ∀ p ∈ ps, p.IsValid) : dropBlank (gap ps ++ spell ps) = spell ps := by
  obtain _ | ⟨c | w, ps⟩ := ps
  · rfl
  · have hc := not_blank_of_isSeparator (hv (.sep c) List.mem_cons_self)
    simp [gap, spell, dropBlank, hc]
  · simp [gap, dropBlank, show isBlank ' ' = true by decide]

theorem dropLifetime_pieces (l : Option Ident) {ps : List Piece} (hv : ∀ p ∈ ps, p.IsValid)
    (hq : ∀ c, (spell ps).head? = some c → c ≠ '\'') : dropLifetime (spell (lifetimePieces l ++ ps)) = spell ps := by
  cases l with
  | none =>
    rw [lifetimePieces, List.nil_append]
    unfold dropLifetime
    split
    · next c r h => exact absurd rfl (hq '\'' (by rw [h]; rfl))
    · rfl
  | some l =>
    have hw : isWord l.first = true := isWord_of_isNameStart l.starts
    rw [lifetimePieces, List.singleton_append, spell_word, Ident.chars, List.cons_append, List.cons_append,
      dropLifetime, if_pos hw, dropWhile_isWord l.continues (endsWord_gap hv).stopsWord, dropBlank_gap hv]

theorem referent_pieces (l : Option Ident) (m : Bool) {ps : List Piece} (hf : Front ps)
    (hv : ∀ p ∈ ps, p.IsValid) :
    referent (spell (lifetimePieces l ++ (mutPieces m ++ ps))) = (m, spell ps) := by
  cases m with
  | false =>
    have hd : dropLifetime (spell (lifetimePieces l ++ (mutPieces false ++ ps))) = spell ps :=
      dropLifetime_pieces l hv hf.head_ne_quote
    unfold referent
    split
    · next r hr =>
      rw [hd] at hr
      obtain ⟨c, t, rfl, hc⟩ := hf.mut hv hr
      simp only [hc, if_true, hd, trim_spell hv]
    · next hr => rw [hd, trim_spell hv]
  | true =>
    have hall : ∀ p ∈ mutPieces true ++ ps, p.IsValid := by
      intro p hp
      obtain hp | hp := List.mem_append.1 hp
      · exact isValid_mutPieces true p hp
      · exact hv p hp
    have hs : spell (mutPieces true ++ ps) = 'm' :: 'u' :: 't' :: (gap ps ++ spell ps) := by
      rw [mutPieces, if_pos rfl, List.singleton_append, spell_word]
      rfl
    have hd : dropLifetime (spell (lifetimePieces l ++ (mutPieces true ++ ps))) =
        'm' :: 'u' :: 't' :: (gap ps ++ spell ps) := by
      rw [dropLifetime_pieces l hall, hs]
      intro c hc
      rw [hs] at hc
      simp only [List.head?_cons, Option.some.injEq] at hc
      exact hc ▸ by decide
    obtain ⟨c, t, hct⟩ := List.exists_cons_of_ne_nil (List.append_ne_nil_of_right_ne_nil (gap ps) hf.ne_nil)
    have hc : isWord c = false := (endsWord_gap hv).stopsWord c (by rw [hct]; rfl)
    rw [referent, hd]
    simp only [hct, hc, Bool.false_eq_true, if_false]
    rw [← hct, dropBlank_gap hv, trim_spell hv]

end RingBridge.Spelling
