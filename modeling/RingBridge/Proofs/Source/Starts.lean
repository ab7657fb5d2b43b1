import Mathlib.Data.List.TakeWhile
import RingBridge.Proofs.Source.Joined
/-!
What a text can start with, and how its first lexeme is taken in each case: a blank, a comment, a literal in quotes, or a
word, a number or punctuation.
-/
namespace RingBridge.Source
open Text

variable {cs : List Char} {c : Char} {r : List Char}

theorem rawMark_eq_some {o : Cut} : rawMark? cs = some o ↔ cs = 'r' :: (o.1 ++ '"' :: o.2) ∧ ∀ c ∈ o.1, c = '#' := by
  constructor
  · intro h
    unfold rawMark? at h
    split at h
    · next r =>
      split at h
      · next t ht =>
        cases h
        have hr := List.takeWhile_append_dropWhile (p := (· == '#')) (l := r)
        rw [ht] at hr
        refine ⟨congrArg ('r' :: ·) hr.symm, fun c hc => ?_⟩
        exact beq_iff_eq.1 (List.mem_takeWhile_imp (p := (· == '#')) hc)
      · cases h
    · cases h
  · rintro ⟨rfl, hhash⟩
    have hall : ∀ c ∈ o.1, (c == '#') = true := fun c hc => beq_iff_eq.2 (hhash c hc)
    rw [rawMark?.eq_1, List.takeWhile_append_of_pos hall, List.dropWhile_append_of_pos hall]
    show some (o.1 ++ [], o.2) = _
    rw [List.append_nil]

/-- The mark of a raw string: an `r`, hashes and a quote, perhaps behind a `b`. -/
theorem rawOpening_eq_some {o : Cut} : rawOpening? cs = some o ↔
    ∃ lead ∈ [[], ['b']], cs = lead ++ 'r' :: (o.1 ++ '"' :: o.2) ∧ ∀ c ∈ o.1, c = '#' := by
  constructor
  · intro h
    unfold rawOpening? at h
    split at h
    · obtain ⟨rfl, hhash⟩ := rawMark_eq_some.1 h
      exact ⟨['b'], by simp, rfl, hhash⟩
    · obtain ⟨rfl, hhash⟩ := rawMark_eq_some.1 h
      exact ⟨[], by simp, rfl, hhash⟩
  · rintro ⟨lead, hlead, rfl, hhash⟩
    simp only [List.mem_cons, List.not_mem_nil, or_false] at hlead
    obtain rfl | rfl := hlead
    · exact rawMark_eq_some.2 ⟨rfl, hhash⟩
    · exact rawMark_eq_some.2 ⟨rfl, hhash⟩

theorem nameCut_eq_none : nameCut? (c :: r) = none ↔ isNameStart c = false := by
  rw [nameCut?]
  split
  · next hc => simp [hc]
  · next hc => simpa using hc

structure StartsPlain (c : Char) (r : List Char) : Prop where
  solid : isBlank c = false
  comment : c = '/' → ∀ d ∈ r.head?, d ≠ '/' ∧ d ≠ '*'
  raw : rawOpening? (c :: r) = none
  string : c ≠ '"'
  character : c ≠ '\''
  bytes : c = 'b' → ∀ d ∈ r.head?, d ≠ '"' ∧ d ≠ '\''

inductive Start : Char → List Char → Prop
  | blank {c : Char} {r : List Char} (hc : isBlank c = true) : Start c r
  | lineComment (t : List Char) : Start '/' ('/' :: t)
  | blockComment (t : List Char) : Start '/' ('*' :: t)
  | raw {c : Char} {r : List Char} {o : Cut} (ho : rawOpening? (c :: r) = some o) : Start c r
  | string (r : List Char) : Start '"' r
  | bytes (t : List Char) : Start 'b' ('"' :: t)
  | character (r : List Char) : Start '\'' r
  | byte (t : List Char) : Start 'b' ('\'' :: t)
  | plain {c : Char} {r : List Char} (h : StartsPlain c r) : Start c r

theorem lexeme_blank (hc : isBlank c = true) : lexeme c r = .ok ⟨none, [c], r⟩ := by rw [lexeme.eq_def, if_pos hc]

theorem lexeme_lineComment (t : List Char) : lexeme '/' ('/' :: t) =
    .ok (.of (if isLineDoc (spanOf (· != '\n') ('/' :: '/' :: t)).1 then some .doc else none)
      (spanOf (· != '\n') ('/' :: '/' :: t))) := by
  rw [lexeme.eq_def, if_neg (by decide)]
  rfl

theorem lexeme_unclosed {t : List Char} (h : blockComment 1 t = none) : lexeme '/' ('*' :: t) = .error .blockComment := by
  rw [lexeme.eq_def, if_neg (by decide)]
  simp only [h]

theorem lexeme_raw {o : Cut} (ho : rawOpening? (c :: r) = some o) : lexeme c r = raw (c :: r) o := by
  have hc : c = 'b' ∨ c = 'r' := by
    obtain ⟨lead, hlead, heq, -⟩ := rawOpening_eq_some.1 ho
    simp only [List.mem_cons, List.not_mem_nil, or_false] at hlead
    obtain rfl | rfl := hlead
    · exact .inr (List.cons.inj heq).1
    · exact .inl (List.cons.inj heq).1
  obtain rfl | rfl := hc
  · rw [lexeme.eq_def, if_neg (by decide)]
    simp only [ho]
    rfl
  · rw [lexeme.eq_def, if_neg (by decide)]
    simp only [ho]
    rfl

theorem lexeme_string (r : List Char) : lexeme '"' r = quoted ['"'] (stringBody r) .string := by
  rw [lexeme.eq_def, if_neg (by decide)]
  rfl

theorem lexeme_bytes (t : List Char) : lexeme 'b' ('"' :: t) = quoted ['b', '"'] (stringBody t) .string := by
  rw [lexeme.eq_def, if_neg (by decide)]
  rfl

theorem lexeme_character (r : List Char) : lexeme '\'' r = character ['\''] r := by
  rw [lexeme.eq_def, if_neg (by decide)]
  rfl

theorem lexeme_byte (t : List Char) : lexeme 'b' ('\'' :: t) = character ['b', '\''] t := by
  rw [lexeme.eq_def, if_neg (by decide)]
  rfl

theorem StartsPlain.lexeme (h : StartsPlain c r) : lexeme c r = .ok (plain (c :: r) c r) := by
  rw [Source.lexeme.eq_def, if_neg (by rw [h.solid]; decide)]
  split
  · exact absurd rfl (h.comment rfl _ rfl).1
  · exact absurd rfl (h.comment rfl _ rfl).2
  · rw [h.raw]
    dsimp only
    split
    · exact absurd rfl h.string
    · exact absurd rfl (h.bytes rfl _ rfl).1
    · exact absurd rfl h.character
    · exact absurd rfl (h.bytes rfl _ rfl).2
    · rfl

theorem start (c : Char) (r : List Char) : Start c r := by
  cases hblank : isBlank c with
  | true => exact .blank hblank
  | false =>
    cases ho : rawOpening? (c :: r) with
    | some o => exact .raw ho
    | none =>
      by_cases hstring : c = '"'
      · exact hstring ▸ .string r
      by_cases hcharacter : c = '\''
      · exact hcharacter ▸ .character r
      cases r with
      | nil => exact .plain ⟨hblank, fun _ => nofun, ho, hstring, hcharacter, fun _ => nofun⟩
      | cons d t =>
        by_cases hline : c = '/' ∧ d = '/'
        · obtain ⟨rfl, rfl⟩ := hline
          exact .lineComment t
        by_cases hblock : c = '/' ∧ d = '*'
        · obtain ⟨rfl, rfl⟩ := hblock
          exact .blockComment t
        by_cases hbytes : c = 'b' ∧ d = '"'
        · obtain ⟨rfl, rfl⟩ := hbytes
          exact .bytes t
        by_cases hbyte : c = 'b' ∧ d = '\''
        · obtain ⟨rfl, rfl⟩ := hbyte
          exact .byte t
        refine .plain ⟨hblank, fun hc e he => ?_, ho, hstring, hcharacter, fun hc e he => ?_⟩
        · cases he
          exact ⟨fun hd => hline ⟨hc, hd⟩, fun hd => hblock ⟨hc, hd⟩⟩
        · cases he
          exact ⟨fun hd => hbytes ⟨hc, hd⟩, fun hd => hbyte ⟨hc, hd⟩⟩

end RingBridge.Source
