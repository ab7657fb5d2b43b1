import RingBridge.Proofs.Source.Broken
import RingBridge.Proofs.Source.Spaced
/-!
What stands between tokens. A blank, a comment to the end of a line and a block comment are gaps in front of any text,
and the tokens of the text do not depend on them.
-/
namespace RingBridge.Source
open Text

/-- The mark that closes the last open comment ends the comment; nothing stands behind it. -/
theorem ClosesAll.of_closing_iff {n : Nat} {ms : List CommentMark} (h : ClosesAll n (.closing :: ms)) :
    (n = 1 ∧ ms = []) ∨ (1 < n ∧ ClosesAll (n - 1) ms) := by
  obtain ⟨inner, rest, hinner, hms, hrest⟩ := iff_exists_inner.1 h
  cases hinner with
  | nil =>
    cases hms
    obtain hlast | ⟨k, rfl, houter⟩ := hrest
    · exact .inl hlast
    · exact .inr ⟨Nat.succ_lt_succ houter.pos, houter⟩
  | other => cases hms
  | comment => cases hms

theorem commentMarks_eq_nil {cs : List Char} (h : commentMarks cs = []) : cs = [] := by
  unfold commentMarks at h
  split at h <;> first | rfl | cases h

/-- A block comment is taken up to the mark that closes the last of the open comments, whatever follows. -/
theorem blockComment_of_closesAll {t : List Char} {depth : Nat} (hdepth : 0 < depth)
    (h : ClosesAll depth (commentMarks t)) (rest : List Char) : blockComment depth (t ++ rest) = some (t, rest) := by
  fun_induction commentMarks t generalizing depth with
  | case1 r ih =>
    show (blockComment (depth + 1) (r ++ rest)).map _ = _
    rw [ih (Nat.succ_pos _) h.of_opening]
    rfl
  | case2 r ih =>
    show (if depth ≤ 1 then some (['*', '/'], r ++ rest)
      else (blockComment (depth - 1) (r ++ rest)).map (extend ['*', '/'])) = _
    obtain ⟨rfl, hr⟩ | ⟨hlt, h⟩ := h.of_closing_iff
    · rw [if_pos (Nat.le_refl 1), commentMarks_eq_nil hr]
      rfl
    · rw [if_neg (by omega), ih (by omega) h]
      rfl
  | case3 c r hopen hclose ih =>
    have h := h.of_other
    cases r with
    | nil => exact absurd h ClosesAll.not_nil
    | cons d r =>
      rw [List.cons_append, blockComment.eq_3]
      · rw [ih hdepth h]
        rfl
      · rintro u rfl hu
        exact hopen r rfl (by rw [(List.cons.inj hu).1])
      · rintro u rfl hu
        exact hclose r rfl (by rw [(List.cons.inj hu).1])
  | case4 => exact absurd h ClosesAll.not_nil

theorem exists_of_isBlockComment {cs : List Char} (h : IsBlockComment cs) :
    ∃ t, cs = '/' :: '*' :: t ∧ ClosesAll 1 (commentMarks t) := by
  obtain ⟨inner, hinner, hms⟩ := h
  unfold commentMarks at hms
  split at hms
  · exact ⟨_, rfl, (List.cons.inj hms).2 ▸ .last hinner⟩
  · cases hms
  · cases hms
  · cases hms

/-- A blank, or a comment that is no doc comment. A comment to the end of a line takes its line feed along. -/
inductive Gap where
  | blank (c : Char) (h : isBlank c = true)
  | line (body : List Char) (one : '\n' ∉ body) (plain : isDoc ('/' :: '/' :: body) = false)
  | block (comment : List Char) (closed : IsBlockComment comment) (plain : isDoc comment = false)

def Gap.source : Gap → List Char
  | blank c _ => [c]
  | line body _ _ => '/' :: '/' :: (body ++ ['\n'])
  | block comment _ _ => comment

def Gap.cleared : Gap → List Char
  | blank c _ => [c]
  | line _ _ _ => [' ', '\n']
  | block _ _ _ => [' ']

/-- A gap leaves no word in front of a text. -/
theorem Lexes.skip {c : Char} {r x source : List Char} (h : lexeme c r = .ok ⟨none, source, x⟩) {ws : List Word}
    (hx : Lexes x ws) : Lexes (c :: r) ws := by
  intro line
  obtain ⟨ts, hts, hws⟩ := hx (line + source.count '\n')
  refine ⟨ts, ?_, hws⟩
  rw [tokensFrom_cons h, hts]
  rfl

/-- A token that is no doc comment is a word with the text it takes. -/
theorem Lexes.take {c : Char} {r x source : List Char} {k : TokenKind} (h : lexeme c r = .ok ⟨some k, source, x⟩)
    (hk : k ≠ .doc) {ws : List Word} (hx : Lexes x ws) : Lexes (c :: r) (⟨k, String.ofList source⟩ :: ws) := by
  intro line
  obtain ⟨ts, hts, hws⟩ := hx (line + source.count '\n')
  refine ⟨⟨k, String.ofList source, line⟩ :: ts, ?_, congrArg (_ :: ·) hws⟩
  rw [tokensFrom_cons h, hts, Lexeme.token?, Lexeme.text_eq_source rfl hk]
  rfl

namespace Gap

theorem lexes (g : Gap) {x : List Char} {ws : List Word} (hx : Lexes x ws) : Lexes (g.source ++ x) ws := by
  cases g with
  | blank c h => exact hx.blank h
  | line body one plain =>
    have hbody : ∀ c ∈ '/' :: '/' :: body, (c != '\n') = true := by
      intro c hc
      rw [bne_iff_ne]
      rintro rfl
      exact one (by simpa using hc)
    have hspan : spanOf (· != '\n') ('/' :: '/' :: (body ++ '\n' :: x)) = ('/' :: '/' :: body, '\n' :: x) := by
      show spanOf _ (('/' :: '/' :: body) ++ '\n' :: x) = _
      rw [spanOf, List.takeWhile_append_of_pos hbody, List.dropWhile_append_of_pos hbody]
      simp
    have hplain : isLineDoc ('/' :: '/' :: body) = false := (Bool.or_eq_false_iff.1 plain).1
    have hl := lexeme_lineComment (body ++ '\n' :: x)
    rw [hspan, hplain, if_neg (by decide)] at hl
    have hsource : (line body one plain).source ++ x = '/' :: '/' :: (body ++ '\n' :: x) := by simp [source]
    rw [hsource]
    exact .skip hl (hx.blank (by decide))
  | block comment closed plain =>
    obtain ⟨t, rfl, ht⟩ := exists_of_isBlockComment closed
    have hl := lexeme_blockComment (blockComment_of_closesAll Nat.one_pos ht x)
    have hplain : isBlockDoc ('/' :: '*' :: t) = false := (Bool.or_eq_false_iff.1 plain).2
    rw [hplain, if_neg (by decide)] at hl
    exact .skip hl hx

/-- Of a gap, blanks are left. -/
theorem isBlank_cleared (g : Gap) : g.cleared ≠ [] ∧ ∀ c ∈ g.cleared, isBlank c = true := by
  cases g with
  | blank c h => exact ⟨by simp [cleared], by simpa [cleared] using h⟩
  | line => exact ⟨by simp [cleared], by simpa [cleared] using ⟨by decide, by decide⟩⟩
  | block => exact ⟨by simp [cleared], by simpa [cleared] using by decide⟩

/-- No word goes on with a gap. -/
theorem head_source (g : Gap) : ∃ c r, g.source = c :: r ∧ (isBlank c = true ∨ c = '/') := by
  cases g with
  | blank c h => exact ⟨c, [], rfl, .inl h⟩
  | line => exact ⟨_, _, rfl, .inr rfl⟩
  | block comment closed plain =>
    obtain ⟨t, rfl, -⟩ := exists_of_isBlockComment closed
    exact ⟨_, _, rfl, .inr rfl⟩

end Gap

end RingBridge.Source
