import RingBridge.Source.Token
/-!
From text to tokens. Each lexeme takes a part from the front of the text that is not empty, so reading ends; the
line of a token is one more than the line feeds before it.
-/
namespace RingBridge.Source
open Text

def Cut.Covers (c : Cut) (cs : List Char) : Prop := c.1 ++ c.2 = cs

theorem covers_extend {c : Cut} {cs : List Char} (lead : List Char) (h : Cut.Covers c cs) :
    Cut.Covers (extend lead c) (lead ++ cs) := by
  simp only [Cut.Covers, extend, List.append_assoc] at *
  rw [h]

theorem covers_map_extend {o : Option Cut} {c : Cut} {cs : List Char} (lead : List Char)
    (h : ∀ d, o = some d → Cut.Covers d cs) (hc : o.map (extend lead) = some c) :
    Cut.Covers c (lead ++ cs) := by
  obtain ⟨d, hd, rfl⟩ := Option.map_eq_some_iff.1 hc
  exact covers_extend lead (h d hd)

theorem covers_spanOf (p : Char → Bool) (cs : List Char) : Cut.Covers (spanOf p cs) cs :=
  List.takeWhile_append_dropWhile

theorem covers_blockComment {depth : Nat} {cs : List Char} {c : Cut} (h : blockComment depth cs = some c) :
    c.Covers cs := by
  fun_induction blockComment depth cs generalizing c with
  | case1 depth r ih => exact covers_map_extend ['/', '*'] (fun _ => ih) h
  | case2 depth r hd => cases h; rfl
  | case3 depth r hd ih => exact covers_map_extend ['*', '/'] (fun _ => ih) h
  | case4 depth x r _ _ ih => exact covers_map_extend [x] (fun _ => ih) h
  | case5 => simp at h

theorem covers_through {pattern cs : List Char} {c : Cut} (h : through pattern cs = some c) : c.Covers cs := by
  induction cs generalizing c with
  | nil =>
    simp only [through] at h
    split at h
    · cases h; rfl
    · simp at h
  | cons x r ih =>
    simp only [through] at h
    split at h
    · next hp =>
      cases h
      exact List.prefix_iff_eq_append.1 (List.isPrefixOf_iff_prefix.1 hp)
    · exact covers_map_extend [x] (fun _ => ih) h

theorem covers_stringBody {cs : List Char} {c : Cut} (h : stringBody cs = some c) : c.Covers cs := by
  fun_induction stringBody cs generalizing c with
  | case1 x r ih => exact covers_map_extend ['\\', x] (fun _ => ih) h
  | case2 r => cases h; rfl
  | case3 => simp at h
  | case4 x r _ _ _ ih => exact covers_map_extend [x] (fun _ => ih) h
  | case5 => simp at h

theorem covers_closingQuote {cs : List Char} {c : Cut} (h : closingQuote? cs = some c) : c.Covers cs := by
  unfold closingQuote? at h
  split at h
  · cases h; rfl
  · simp at h

theorem covers_braced {cs : List Char} {c : Cut} (h : braced? cs = some c) : c.Covers cs := by
  unfold braced? at h
  split at h
  · next r =>
    dsimp only at h
    split at h
    · next t ht =>
      split at h
      · cases h
        have := List.takeWhile_append_dropWhile (p := isHexDigit) (l := r)
        rw [ht] at this
        simpa [Cut.Covers] using this
      · simp at h
    · simp at h
  · simp at h

theorem covers_longEscape {cs : List Char} {c : Cut} (h : characterBody?.longEscape? cs = some c) :
    c.Covers ('\\' :: cs) := by
  unfold characterBody?.longEscape? at h
  split at h
  · next a b r =>
    split at h
    · exact covers_map_extend ['\\', 'x', a, b] (fun _ => covers_closingQuote) h
    · simp at h
  · next r =>
    split at h
    · next ds t hb =>
      have hc := covers_map_extend ('\\' :: 'u' :: ds) (fun _ => covers_closingQuote) h
      have hd := covers_braced hb
      simp only [Cut.Covers] at hc hd
      simp only [Cut.Covers, hc, List.cons_append, hd]
    · simp at h
  · simp at h

theorem covers_characterBody {cs : List Char} {c : Cut} (h : characterBody? cs = some c) : c.Covers cs := by
  unfold characterBody? at h
  split at h
  · next r =>
    rcases Option.or_eq_some_iff.1 h with h | ⟨_, h⟩
    · exact covers_longEscape h
    · cases r with
      | nil => simp at h
      | cons x t =>
        simp only at h
        split at h
        · simp at h
        · exact covers_map_extend ['\\', x] (fun _ => covers_closingQuote) h
  · next x r _ =>
    split at h
    · simp at h
    · exact covers_map_extend [x] (fun _ => covers_closingQuote) h
  · simp at h

theorem covers_nameCut {cs : List Char} {c : Cut} (h : nameCut? cs = some c) : c.Covers cs := by
  unfold nameCut? at h
  split at h
  · next x r =>
    split at h
    · cases h; exact covers_extend [x] (covers_spanOf _ _)
    · simp at h
  · simp at h

theorem covers_identifier {cs : List Char} {c : Cut} (h : identifier? cs = some c) : c.Covers cs := by
  unfold identifier? at h
  split at h
  · split at h
    · next hn => cases h; exact covers_extend ['r', '#'] (covers_nameCut hn)
    · exact covers_nameCut h
  · exact covers_nameCut h

theorem covers_number {cs : List Char} {c : Cut} (h : number? cs = some c) : c.Covers cs := by
  unfold number? at h
  split at h
  · next x r =>
    have hr := List.takeWhile_append_dropWhile (p := isWord) (l := r)
    split at h
    · split at h
      · next d t hd =>
        rw [hd] at hr
        split at h
        · cases h
          have := covers_extend (x :: r.takeWhile isWord ++ ['.', d]) (covers_spanOf isWord t)
          rw [show x :: r.takeWhile isWord ++ ['.', d] ++ t = x :: r by rw [List.append_assoc]; exact congrArg (x :: ·) hr]
            at this
          exact this
        · cases h
          exact congrArg (x :: ·) hr
      · next t _ =>
        cases h
        exact congrArg (x :: ·) hr
    · simp at h
  · simp at h

structure Lexeme.Starts (l : Lexeme) (cs : List Char) : Prop where
  append : l.source ++ l.rest = cs
  nonempty : l.source ≠ []

theorem starts_of_covers {k : Option TokenKind} {c : Cut} {cs : List Char} (h : c.Covers cs) (hn : c.1 ≠ []) :
    (Lexeme.of k c).Starts cs := ⟨h, hn⟩

theorem starts_extend {k : Option TokenKind} {c : Cut} {cs : List Char} (x : Char) (lead : List Char)
    (h : c.Covers cs) : (Lexeme.of k (extend (x :: lead) c)).Starts (x :: lead ++ cs) :=
  ⟨covers_extend (x :: lead) h, by simp [Lexeme.of, extend]⟩

theorem starts_plain (c : Char) (r : List Char) : (plain (c :: r) c r).Starts (c :: r) := by
  unfold plain
  split
  · next i hi =>
    refine starts_of_covers (covers_identifier hi) ?_
    intro h0
    unfold identifier? at hi
    split at hi
    · split at hi
      · cases hi; simp [extend] at h0
      · simp only [nameCut?] at hi
        split at hi
        · cases hi; simp [extend] at h0
        · simp at hi
    · unfold nameCut? at hi
      split at hi
      · split at hi
        · cases hi; simp [extend] at h0
        · simp at hi
      · simp at hi
  · split
    · next n hn =>
      refine starts_of_covers (covers_number hn) ?_
      intro h0
      simp only [number?] at hn
      split at hn
      · split at hn
        · split at hn
          · cases hn; simp [extend] at h0
          · cases hn; simp at h0
        · cases hn; simp at h0
      · simp at hn
    · split
      · next t h => exact ⟨h.symm, by simp⟩
      · next t h => exact ⟨h.symm, by simp⟩
      · next t h => exact ⟨h.symm, by simp⟩
      · exact ⟨rfl, by simp⟩

theorem starts_quoted (x : Char) (lead : List Char) {cs : List Char} {body : Option Cut} {cause : LexCause} {l : Lexeme}
    (hb : ∀ c, body = some c → Cut.Covers c cs) (h : quoted (x :: lead) body cause = .ok l) :
    l.Starts (x :: lead ++ cs) := by
  unfold quoted at h
  split at h
  · next c => cases h; exact starts_extend x lead (hb c rfl)
  · simp at h

theorem starts_character (x : Char) (lead : List Char) {cs : List Char} {l : Lexeme} (h : character (x :: lead) cs = .ok l) :
    l.Starts (x :: lead ++ cs) := by
  unfold character at h
  split at h
  · next c hc => cases h; exact starts_extend x lead (covers_characterBody hc)
  · split at h
    · split at h
      · next c hc => cases h; exact starts_extend x lead (covers_nameCut hc)
      · simp at h
    · simp at h

theorem suffix_rawMark {cs : List Char} {o : Cut} (h : rawMark? cs = some o) :
    o.2 <:+ cs ∧ o.2.length < cs.length := by
  unfold rawMark? at h
  split at h
  · next r =>
    split at h
    · next t ht =>
      cases h
      have hs := List.dropWhile_suffix (l := r) (· == '#')
      rw [ht] at hs
      have hs' : t <:+ r := (List.suffix_cons '"' t).trans hs
      exact ⟨hs'.trans (List.suffix_cons _ _), Nat.lt_succ_of_le hs'.length_le⟩
    · simp at h
  · simp at h

theorem suffix_rawOpening {cs : List Char} {o : Cut} (h : rawOpening? cs = some o) :
    o.2 <:+ cs ∧ o.2.length < cs.length := by
  unfold rawOpening? at h
  split at h
  · have := suffix_rawMark h
    exact ⟨this.1.trans (List.suffix_cons _ _), Nat.lt_succ_of_lt this.2⟩
  · exact suffix_rawMark h

theorem starts_raw {cs : List Char} {o : Cut} {l : Lexeme} (ho : o.2 <:+ cs ∧ o.2.length < cs.length)
    (h : raw cs o = .ok l) : l.Starts cs := by
  unfold raw at h
  split at h
  · next c hc =>
    cases h
    have hcov := covers_through hc
    have htake : cs.take (cs.length - o.2.length) ++ o.2 = cs := by
      conv => rhs; rw [← List.take_append_drop (cs.length - o.2.length) cs]
      rw [← List.suffix_iff_eq_drop.1 ho.1]
    refine starts_of_covers ?_ ?_
    · have := covers_extend (cs.take (cs.length - o.2.length)) hcov
      rwa [htake] at this
    · simp only [extend]
      intro h0
      have := congrArg List.length h0
      simp only [List.length_append, List.length_take, List.length_nil] at this
      omega
  · simp at h

theorem starts_lexeme {c : Char} {r : List Char} {l : Lexeme} (h : lexeme c r = .ok l) : l.Starts (c :: r) := by
  unfold lexeme at h
  split at h
  · cases h; exact ⟨rfl, by simp⟩
  · split at h
    · next t _ =>
      cases h
      refine starts_of_covers (covers_spanOf _ _) ?_
      simp [spanOf]
    · next t _ =>
      split at h
      · next cut hc => cases h; exact starts_extend '/' ['*'] (covers_blockComment hc)
      · simp at h
    · split at h
      · next o ho => exact starts_raw (suffix_rawOpening ho) h
      · split at h
        · exact starts_quoted '"' [] (fun _ => covers_stringBody) h
        · exact starts_quoted 'b' ['"'] (fun _ => covers_stringBody) h
        · exact starts_character '\'' [] h
        · exact starts_character 'b' ['\''] h
        · cases h; exact starts_plain c r

theorem Lexeme.Starts.length_lt {l : Lexeme} {cs : List Char} (h : l.Starts cs) : l.rest.length < cs.length := by
  have := congrArg List.length h.append
  have hp := List.length_pos_iff.2 h.nonempty
  simp only [List.length_append] at this
  omega

structure LexError where
  cause : LexCause
  line : Nat

def Lexeme.token? (l : Lexeme) (line : Nat) : Option Token := l.kind.map fun k => ⟨k, String.ofList l.text, line⟩

/-- The tokens of a text whose first character is on the given line. -/
def tokensFrom (line : Nat) (cs : List Char) : Except LexError (List Token) :=
  match cs with
  | [] => .ok []
  | c :: r =>
    match _h : lexeme c r with
    | .error cause => .error ⟨cause, line⟩
    | .ok l =>
      match tokensFrom (line + l.source.count '\n') l.rest with
      | .error e => .error e
      | .ok ts => .ok ((l.token? line).toList ++ ts)
termination_by cs.length
decreasing_by exact (starts_lexeme _h).length_lt

def tokenize (text : String) : Except LexError (List Token) := tokensFrom 1 text.toList

end RingBridge.Source
