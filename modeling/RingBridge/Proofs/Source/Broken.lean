import RingBridge.Proofs.Source.Below
import RingBridge.Proofs.Source.Positions
import RingBridge.Proofs.Source.Starts
/-!
Why a text has no tokens. Where the tokenizer fails, a comment or a string starts that nothing closes, or a quote that
starts neither a character nor a lifetime; what stands before is cut into lexemes.
-/
namespace RingBridge.Source
open Text

variable {cs : List Char}

namespace ClosesAll
variable {n : Nat} {ms : List CommentMark}

/-- The innermost comment is closed behind what is inside of it; then the others are, if there are some. -/
theorem iff_exists_inner : ClosesAll n ms ↔ ∃ inner rest, Nested inner ∧ ms = inner ++ .closing :: rest ∧
    (n = 1 ∧ rest = [] ∨ ∃ k, n = k + 1 ∧ ClosesAll k rest) := by
  constructor
  · rintro (⟨hinner⟩ | ⟨hinner, h⟩)
    · exact ⟨_, _, hinner, rfl, .inl ⟨rfl, rfl⟩⟩
    · exact ⟨_, _, hinner, rfl, .inr ⟨_, rfl, h⟩⟩
  · rintro ⟨inner, rest, hinner, rfl, ⟨rfl, rfl⟩ | ⟨k, rfl, h⟩⟩
    · exact .last hinner
    · exact .outer hinner h

theorem not_nil : ¬ ClosesAll n [] := by
  intro h
  obtain ⟨inner, rest, -, hms, -⟩ := iff_exists_inner.1 h
  simp at hms

theorem of_other {c : Char} (h : ClosesAll n (.other c :: ms)) : ClosesAll n ms := by
  obtain ⟨inner, rest, hinner, hms, hrest⟩ := iff_exists_inner.1 h
  cases hinner with
  | nil => cases hms
  | other _ hinner =>
    cases hms
    exact iff_exists_inner.2 ⟨_, rest, hinner, rfl, hrest⟩
  | comment => cases hms

theorem of_opening (h : ClosesAll n (.opening :: ms)) : ClosesAll (n + 1) ms := by
  obtain ⟨inner, rest, hinner, hms, hrest⟩ := iff_exists_inner.1 h
  cases hinner with
  | nil => cases hms
  | other => cases hms
  | comment hinner hbehind =>
    obtain rfl := (List.cons.inj hms).2
    have hclosed := outer hinner (iff_exists_inner.2 ⟨_, rest, hbehind, rfl, hrest⟩)
    rwa [← List.cons_append, ← List.append_assoc] at hclosed

theorem of_closing (h : ClosesAll n (.closing :: ms)) : n = 1 ∨ ClosesAll (n - 1) ms := by
  obtain ⟨inner, rest, hinner, hms, hrest⟩ := iff_exists_inner.1 h
  cases hinner with
  | nil =>
    cases hms
    obtain ⟨hn, -⟩ | ⟨k, rfl, houter⟩ := hrest
    · exact .inl hn
    · exact .inr houter
  | other => cases hms
  | comment => cases hms

end ClosesAll

/-- A character that starts no mark of the text starts none of a part at its front. -/
theorem commentMarks_other {c : Char} {p q : List Char} (hopen : ∀ t, c = '/' → p ++ q = '*' :: t → False)
    (hclose : ∀ t, c = '*' → p ++ q = '/' :: t → False) : commentMarks (c :: p) = .other c :: commentMarks p := by
  rw [commentMarks.eq_3]
  · rintro t rfl rfl
    exact hopen (t ++ q) rfl rfl
  · rintro t rfl rfl
    exact hclose (t ++ q) rfl rfl

/-- The front of a text that starts with two characters. -/
theorem eq_of_append_eq_cons_cons {a b : Char} {p q r : List Char} (h : p ++ q = a :: b :: r) :
    p = [] ∨ p = [a] ∨ ∃ p', p = a :: b :: p' ∧ p' ++ q = r := by
  match p with
  | [] => exact .inl rfl
  | [c] =>
    cases h
    exact .inr (.inl rfl)
  | c :: d :: p =>
    cases h
    exact .inr (.inr ⟨p, rfl, rfl⟩)

theorem not_closesAll_blockComment {depth : Nat} (hdepth : 0 < depth) (h : blockComment depth cs = none)
    {p q : List Char} (hp : p ++ q = cs) : ¬ ClosesAll depth (commentMarks p) := by
  intro hcloses
  fun_induction blockComment depth cs generalizing p with
  | case1 depth r ih =>
    obtain rfl | rfl | ⟨p, rfl, hrest⟩ := eq_of_append_eq_cons_cons hp
    · exact hcloses.not_nil
    · exact hcloses.of_other.not_nil
    · exact ih (Nat.succ_pos _) (Option.map_eq_none_iff.1 h) hrest hcloses.of_opening
  | case2 => cases h
  | case3 depth r hle ih =>
    obtain rfl | rfl | ⟨p, rfl, hrest⟩ := eq_of_append_eq_cons_cons hp
    · exact hcloses.not_nil
    · exact hcloses.of_other.not_nil
    · obtain hone | hcloses := hcloses.of_closing
      · omega
      · exact ih (by omega) (Option.map_eq_none_iff.1 h) hrest hcloses
  | case4 depth c r hopen hclose ih =>
    cases p with
    | nil => exact hcloses.not_nil
    | cons c p =>
      cases hp
      rw [commentMarks_other (q := q) hopen hclose] at hcloses
      exact ih hdepth (Option.map_eq_none_iff.1 h) rfl hcloses.of_other
  | case5 =>
    obtain ⟨rfl, -⟩ := List.append_eq_nil_iff.1 hp
    exact hcloses.not_nil

theorem not_isBlockComment {t p q : List Char} (h : blockComment 1 t = none) (hp : p ++ q = '/' :: '*' :: t) :
    ¬ IsBlockComment p := by
  rintro ⟨inner, hinner, hmarks⟩
  obtain rfl | rfl | ⟨p, rfl, hrest⟩ := eq_of_append_eq_cons_cons hp
  · cases hmarks
  · cases hmarks
  · have hclosed : commentMarks p = inner ++ [.closing] := (List.cons.inj hmarks).2
    refine not_closesAll_blockComment Nat.one_pos h hrest ?_
    rw [hclosed]
    exact .last hinner

inductive IsStringInside : List Char → Prop
  | nil : IsStringInside []
  | escape (c : Char) {cs : List Char} (h : IsStringInside cs) : IsStringInside ('\\' :: c :: cs)
  | other {c : Char} {cs : List Char} (hquote : c ≠ '"') (hslash : c ≠ '\\') (h : IsStringInside cs) :
    IsStringInside (c :: cs)

inductive IsCharacterInside : List Char → Prop
  | plain {c : Char} (hquote : c ≠ '\'') (hslash : c ≠ '\\') (hfeed : c ≠ '\n') : IsCharacterInside [c]
  | escape {c : Char} (hfeed : c ≠ '\n') : IsCharacterInside ['\\', c]
  | hex {a b : Char} (ha : isHexDigit a = true) (hb : isHexDigit b = true) : IsCharacterInside ['\\', 'x', a, b]
  | unicode {ds : List Char} (hds : ∀ d ∈ ds, isHexDigit d = true) (hmin : 1 ≤ ds.length) (hmax : ds.length ≤ 6) :
    IsCharacterInside ('\\' :: 'u' :: '\x7b' :: (ds ++ ['\x7d']))

theorem not_infix_of_through {pattern : List Char} (h : through pattern cs = none) : ¬ pattern <:+: cs := by
  induction cs with
  | nil =>
    intro hinfix
    obtain rfl := List.eq_nil_of_infix_nil hinfix
    cases h
  | cons c r ih =>
    rw [through] at h
    split at h
    · cases h
    · next hp =>
      intro hinfix
      obtain hprefix | hinfix := List.infix_cons_iff.1 hinfix
      · exact hp (List.isPrefixOf_iff_prefix.2 hprefix)
      · exact ih (Option.map_eq_none_iff.1 h) hinfix

theorem stringBody_ne_none {inside : List Char} (h : IsStringInside inside) (rest : List Char) :
    stringBody (inside ++ '"' :: rest) ≠ none := by
  induction h with
  | nil => exact nofun
  | escape c _ ih =>
    intro hnone
    exact ih (Option.map_eq_none_iff.1 hnone)
  | @other c cs hquote hslash _ ih =>
    intro hnone
    rw [List.cons_append, stringBody.eq_4 _ _ (fun _ _ h _ => hslash h) hquote (fun h _ => hslash h)] at hnone
    exact ih (Option.map_eq_none_iff.1 hnone)

theorem longEscape_hex {a b : Char} (ha : isHexDigit a = true) (hb : isHexDigit b = true) (rest : List Char) :
    characterBody?.longEscape? ('x' :: a :: b :: '\'' :: rest) ≠ none := by
  intro hnone
  rw [characterBody?.longEscape?, if_pos (by rw [ha, hb]; rfl)] at hnone
  cases hnone

theorem longEscape_unicode {ds : List Char} (hds : ∀ d ∈ ds, isHexDigit d = true) (hmin : 1 ≤ ds.length)
    (hmax : ds.length ≤ 6) (rest : List Char) :
    characterBody?.longEscape? ('u' :: '\x7b' :: (ds ++ '\x7d' :: '\'' :: rest)) ≠ none := by
  have htake : (ds ++ '\x7d' :: '\'' :: rest).takeWhile isHexDigit = ds := by
    rw [List.takeWhile_append_of_pos hds, List.takeWhile_cons_of_neg (by decide), List.append_nil]
  have hdrop : (ds ++ '\x7d' :: '\'' :: rest).dropWhile isHexDigit = '\x7d' :: '\'' :: rest := by
    rw [List.dropWhile_append_of_pos hds, List.dropWhile_cons_of_neg (by decide)]
  have hbraced : braced? ('\x7b' :: (ds ++ '\x7d' :: '\'' :: rest)) =
      some ('\x7b' :: ds ++ ['\x7d'], '\'' :: rest) := by
    rw [braced?]
    simp only [htake, hdrop]
    rw [if_pos (by simp [hmin, hmax])]
  intro hnone
  rw [characterBody?.longEscape?, hbraced] at hnone
  cases hnone

theorem characterBody_ne_none {inside : List Char} (h : IsCharacterInside inside) (rest : List Char) :
    characterBody? (inside ++ '\'' :: rest) ≠ none := by
  intro hnone
  cases h with
  | @plain c hquote hslash hfeed =>
    have hc : (c == '\'' || c == '\n') = false := by simp [hquote, hfeed]
    rw [List.singleton_append, characterBody_other hslash, if_neg (by rw [hc]; decide)] at hnone
    cases hnone
  | @escape c hfeed =>
    have hc : (c == '\n') = false := beq_false_of_ne hfeed
    rw [List.cons_append, List.singleton_append, characterBody?.eq_1] at hnone
    have hshort := (Option.or_eq_none_iff.1 hnone).2
    rw [if_neg (by rw [hc]; decide)] at hshort
    cases hshort
  | hex ha hb => exact longEscape_hex ha hb rest (Option.or_eq_none_iff.1 hnone).1
  | unicode hds hmin hmax =>
    rw [List.cons_append, List.cons_append, List.cons_append, List.append_assoc] at hnone
    exact longEscape_unicode hds hmin hmax rest (Option.or_eq_none_iff.1 hnone).1

theorem isNameStart_of_nameCut (h : nameCut? cs = none) : ∀ c ∈ cs.head?, isNameStart c = false := by
  intro c hc
  cases cs with
  | nil => cases hc
  | cons d r =>
    cases hc
    exact nameCut_eq_none.1 h

def leads : List (List Char) := [[], ['b']]

theorem nil_mem_leads : [] ∈ leads := List.mem_cons_self

theorem b_mem_leads : ['b'] ∈ leads := List.mem_cons_of_mem _ List.mem_cons_self

inductive Broken : LexCause → List Char → Prop
  | blockComment {t : List Char} (h : ∀ p q, p ++ q = '/' :: '*' :: t → ¬ IsBlockComment p) :
    Broken .blockComment ('/' :: '*' :: t)
  | rawString {lead hashes body : List Char} (hlead : lead ∈ leads) (hhashes : ∀ c ∈ hashes, c = '#')
    (h : ¬ '"' :: hashes <:+: body) : Broken .rawString (lead ++ 'r' :: (hashes ++ '"' :: body))
  | string {lead body : List Char} (hlead : lead ∈ leads)
    (h : ∀ inside rest, body = inside ++ '"' :: rest → ¬ IsStringInside inside) : Broken .string (lead ++ '"' :: body)
  | character {lead body : List Char} (hlead : lead ∈ leads)
    (h : ∀ inside rest, body = inside ++ '\'' :: rest → ¬ IsCharacterInside inside)
    (hlifetime : lead = [] → ∀ c ∈ body.head?, isNameStart c = false) : Broken .character (lead ++ '\'' :: body)

theorem broken_quoted {lead body : List Char} {cause : LexCause} (hlead : lead ∈ leads)
    (h : quoted (lead ++ ['"']) (stringBody body) .string = .error cause) : Broken cause (lead ++ '"' :: body) := by
  unfold quoted at h
  split at h
  · cases h
  · next hbody =>
    cases h
    refine .string hlead fun inside rest heq hinside => ?_
    exact stringBody_ne_none hinside rest (heq ▸ hbody)

theorem broken_character {lead body : List Char} {cause : LexCause} (hlead : lead ∈ leads)
    (h : character (lead ++ ['\'']) body = .error cause) : Broken cause (lead ++ '\'' :: body) := by
  unfold character at h
  split at h
  · cases h
  · next hbody =>
    have hinside : ∀ inside rest, body = inside ++ '\'' :: rest → ¬ IsCharacterInside inside :=
      fun inside rest heq hinside => characterBody_ne_none hinside rest (heq ▸ hbody)
    split at h
    · split at h
      · cases h
      · next hname =>
        cases h
        exact .character hlead hinside fun _ => isNameStart_of_nameCut hname
    · next hne =>
      cases h
      refine .character hlead hinside fun hnil => absurd ?_ hne
      rw [hnil]
      rfl

theorem broken_of_lexeme {c : Char} {r : List Char} {cause : LexCause} (h : lexeme c r = .error cause) :
    Broken cause (c :: r) := by
  cases start c r with
  | blank hc =>
    rw [lexeme_blank hc] at h
    cases h
  | lineComment t =>
    rw [lexeme_lineComment] at h
    cases h
  | blockComment t =>
    cases hcut : blockComment 1 t with
    | none =>
      rw [lexeme_unclosed hcut] at h
      cases h
      exact .blockComment fun p q hp => not_isBlockComment hcut hp
    | some cut =>
      rw [lexeme_blockComment hcut] at h
      cases h
  | raw ho =>
    rw [lexeme_raw ho] at h
    obtain ⟨lead, hlead, heq, hhashes⟩ := rawOpening_eq_some.1 ho
    unfold raw at h
    split at h
    · cases h
    · next hthrough =>
      cases h
      rw [heq]
      exact .rawString hlead hhashes (not_infix_of_through hthrough)
  | string r =>
    rw [lexeme_string] at h
    exact broken_quoted nil_mem_leads h
  | bytes t =>
    rw [lexeme_bytes] at h
    exact broken_quoted b_mem_leads h
  | character r =>
    rw [lexeme_character] at h
    exact broken_character nil_mem_leads h
  | byte t =>
    rw [lexeme_byte] at h
    exact broken_character b_mem_leads h
  | plain hplain =>
    rw [hplain.lexeme] at h
    cases h

inductive Lexed : List Char → List Char → Prop
  | nil (back : List Char) : Lexed [] back
  | cons {c : Char} {r front back : List Char} {l : Lexeme} (hl : lexeme c r = .ok l) (hrest : l.rest = front ++ back)
    (h : Lexed front back) : Lexed (l.source ++ front) back

theorem exists_broken {line : Nat} {e : LexError} (h : tokensFrom line cs = .error e) :
    ∃ front back, cs = front ++ back ∧ Lexed front back ∧ e.line = line + front.count '\n' ∧ Broken e.cause back := by
  fun_induction tokensFrom line cs with
  | case1 => cases h
  | case2 line c r cause hl =>
    cases h
    exact ⟨[], c :: r, rfl, .nil _, rfl, broken_of_lexeme hl⟩
  | case3 line c r l hl e' hrest ih =>
    cases h
    obtain ⟨front, back, heq, hlexed, hline, hbroken⟩ := ih hrest
    refine ⟨l.source ++ front, back, ?_, .cons hl heq hlexed, ?_, hbroken⟩
    · rw [← (starts_lexeme hl).append, heq, List.append_assoc]
    · rw [hline, List.count_append, Nat.add_assoc]
  | case4 => cases h

end RingBridge.Source
