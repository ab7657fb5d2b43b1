import Mathlib.Data.List.Forall2
import RingBridge.Proofs.Source.Extension
/-!
Where tokens stand. A text is cut into tokens with gaps between them, and nothing is lost: a token has the text of its
span, or, if it is a doc comment, the content of the comment there; a gap holds blanks and comments only; and the line
of a token counts the line feeds before its span.
-/
namespace RingBridge.Source
open Text

inductive CommentMark where
  | opening | closing
  | other (c : Char)

def commentMarks : List Char → List CommentMark
  | '/' :: '*' :: r => .opening :: commentMarks r
  | '*' :: '/' :: r => .closing :: commentMarks r
  | c :: r => .other c :: commentMarks r
  | [] => []

/-- Every comment that is opened is closed behind what is inside of it. -/
inductive Nested : List CommentMark → Prop
  | nil : Nested []
  | other (c : Char) {ms : List CommentMark} (h : Nested ms) : Nested (.other c :: ms)
  | comment {inner ms : List CommentMark} (hinner : Nested inner) (h : Nested ms) :
    Nested (.opening :: (inner ++ .closing :: ms))

def IsBlockComment (cs : List Char) : Prop :=
  ∃ inner, Nested inner ∧ commentMarks cs = .opening :: (inner ++ [.closing])

inductive IsComment (rest : List Char) : List Char → Prop
  | line {body : List Char} (hbody : '\n' ∉ body) (hrest : ∀ c ∈ rest.head?, c = '\n') :
    IsComment rest ('/' :: '/' :: body)
  | block {cs : List Char} (h : IsBlockComment cs) : IsComment rest cs

def isDoc (cs : List Char) : Bool := isLineDoc cs || isBlockDoc cs

def docText (cs : List Char) : List Char := if isLineDoc cs then lineDoc cs else blockDoc cs

inductive ClosesAll : Nat → List CommentMark → Prop
  | last {inner : List CommentMark} (hinner : Nested inner) : ClosesAll 1 (inner ++ [.closing])
  | outer {n : Nat} {inner ms : List CommentMark} (hinner : Nested inner) (h : ClosesAll n ms) :
    ClosesAll (n + 1) (inner ++ .closing :: ms)

namespace ClosesAll
variable {n : Nat} {ms : List CommentMark}

theorem pos (h : ClosesAll n ms) : 0 < n := by cases h <;> exact Nat.succ_pos _

theorem other (c : Char) (h : ClosesAll n ms) : ClosesAll n (.other c :: ms) := by
  cases h with
  | last hinner => exact .last (hinner.other c)
  | outer hinner h => exact .outer (hinner.other c) h

/-- One more comment that is opened in front, and closed first. -/
theorem opening (hn : 0 < n) (h : ClosesAll (n + 1) ms) : ClosesAll n (.opening :: ms) := by
  generalize hm : n + 1 = m at h
  cases h with
  | last hinner => omega
  | @outer k inner ms hinner h =>
    obtain rfl : n = k := Nat.succ.inj hm
    cases h with
    | @last inner' hinner' =>
      have hopen : ClosesAll 1 ((.opening :: (inner ++ .closing :: inner')) ++ [.closing]) := .last (.comment hinner hinner')
      simpa using hopen
    | @outer k inner' ms hinner' h =>
      have hopen : ClosesAll (k + 1) ((.opening :: (inner ++ .closing :: inner')) ++ .closing :: ms) :=
        .outer (.comment hinner hinner') h
      simpa using hopen

end ClosesAll

/-- A block comment ends with the mark that closes the last of the comments that are open. -/
theorem closesAll_blockComment {depth : Nat} {cs : List Char} {cut : Cut} (hdepth : 0 < depth)
    (h : blockComment depth cs = some cut) : ClosesAll depth (commentMarks cut.1) := by
  fun_induction blockComment depth cs generalizing cut with
  | case1 depth r ih =>
    obtain ⟨d, hd, rfl⟩ := Option.map_eq_some_iff.1 h
    exact (ih (Nat.succ_pos _) hd).opening hdepth
  | case2 depth r hle =>
    cases h
    obtain rfl : depth = 1 := Nat.le_antisymm hle hdepth
    exact .last .nil
  | case3 depth r hle ih =>
    obtain ⟨d, hd, rfl⟩ := Option.map_eq_some_iff.1 h
    obtain ⟨n, rfl⟩ : ∃ n, depth = n + 1 := ⟨depth - 1, by omega⟩
    exact .outer .nil (ih (by omega) hd)
  | case4 depth c r hopen hclose ih =>
    obtain ⟨d, hd, rfl⟩ := Option.map_eq_some_iff.1 h
    have hcovers : d.1 ++ d.2 = r := covers_blockComment hd
    -- A mark at the front of the comment would be one at the front of the text, which starts with the comment.
    have hmarks : commentMarks (c :: d.1) = .other c :: commentMarks d.1 := by
      rw [commentMarks.eq_3]
      · rintro t rfl ht
        exact hopen (t ++ d.2) rfl (by rw [← hcovers, ht]; rfl)
      · rintro t rfl ht
        exact hclose (t ++ d.2) rfl (by rw [← hcovers, ht]; rfl)
    show ClosesAll depth (commentMarks (c :: d.1))
    rw [hmarks]
    exact (ih hdepth hd).other c
  | case5 => cases h

theorem isBlockComment_blockComment {cs : List Char} {cut : Cut} (h : blockComment 1 cs = some cut) :
    IsBlockComment ('/' :: '*' :: cut.1) := by
  have hcloses := closesAll_blockComment Nat.one_pos h
  rw [IsBlockComment, commentMarks]
  generalize commentMarks cut.1 = ms at hcloses
  cases hcloses with
  | last hinner => exact ⟨_, hinner, rfl⟩
  | outer _ h => exact absurd h.pos (Nat.lt_irrefl 0)

theorem isComment_line (t : List Char) :
    IsComment (t.dropWhile (· != '\n')) ('/' :: '/' :: t.takeWhile (· != '\n')) := by
  refine .line (fun hm => ?_) fun c hc => ?_
  · simpa using List.all_eq_true.1 List.all_takeWhile _ hm
  · have hhead := List.head?_dropWhile_not (· != '\n') t
    rw [hc] at hhead
    simpa using hhead

inductive Lexeme.IsKnown : Lexeme → Prop
  | blank {c : Char} {r : List Char} (hc : isBlank c = true) : IsKnown ⟨none, [c], r⟩
  | comment {cs r : List Char} (h : IsComment r cs) : IsKnown ⟨if isDoc cs then some .doc else none, cs, r⟩
  | code {k : TokenKind} {cs r : List Char} (hk : k ≠ .doc) : IsKnown ⟨some k, cs, r⟩

theorem isKnown_quoted {lead : List Char} {body : Option Cut} {cause : LexCause} {l : Lexeme}
    (h : quoted lead body cause = .ok l) : l.IsKnown := by
  unfold quoted at h
  split at h
  · cases h
    exact .code nofun
  · cases h

theorem isKnown_character {lead cs : List Char} {l : Lexeme} (h : character lead cs = .ok l) : l.IsKnown := by
  unfold character at h
  split at h
  · cases h
    exact .code nofun
  · split at h
    · split at h
      · cases h
        exact .code nofun
      · cases h
    · cases h

theorem isKnown_raw {cs : List Char} {opening : Cut} {l : Lexeme} (h : raw cs opening = .ok l) : l.IsKnown := by
  unfold raw at h
  split at h
  · cases h
    exact .code nofun
  · cases h

theorem isKnown_plain (cs : List Char) (c : Char) (r : List Char) : (plain cs c r).IsKnown := by
  unfold plain
  split
  · exact .code nofun
  · split
    · exact .code nofun
    · split <;> exact .code nofun

theorem isKnown_lexeme {c : Char} {r : List Char} {l : Lexeme} (h : lexeme c r = .ok l) : l.IsKnown := by
  unfold lexeme at h
  split at h
  · next hblank =>
    cases h
    exact .blank hblank
  · split at h
    · next t _ =>
      cases h
      have hkind : isDoc ('/' :: '/' :: t.takeWhile (· != '\n')) = isLineDoc ('/' :: '/' :: t.takeWhile (· != '\n')) :=
        Bool.or_false _
      have hknown := Lexeme.IsKnown.comment (isComment_line t)
      rw [hkind] at hknown
      exact hknown
    · split at h
      · next cut hcut =>
        cases h
        have hknown := Lexeme.IsKnown.comment (r := cut.2) (.block (isBlockComment_blockComment hcut))
        rw [isDoc, show isLineDoc ('/' :: '*' :: cut.1) = false from rfl, Bool.false_or] at hknown
        exact hknown
      · cases h
    · split at h
      · exact isKnown_raw h
      · split at h
        · exact isKnown_quoted h
        · exact isKnown_quoted h
        · exact isKnown_character h
        · exact isKnown_character h
        · cases h
          exact isKnown_plain ..

structure Span where
  start : Nat
  stop : Nat

def Span.slice (a : Span) (text : List Char) : List Char := text.extract a.start a.stop

def gapsFrom (length : Nat) : Nat → List Span → List Span
  | p, [] => [⟨p, length⟩]
  | p, a :: as => ⟨p, a.start⟩ :: gapsFrom length a.stop as

inductive IsGap (rest : List Char) : List Char → Prop
  | nil : IsGap rest []
  | blank {c : Char} {cs : List Char} (hc : isBlank c = true) (h : IsGap rest cs) : IsGap rest (c :: cs)
  | comment {c cs : List Char} (hc : IsComment (cs ++ rest) c) (hdoc : isDoc c = false) (h : IsGap rest cs) :
    IsGap rest (c ++ cs)

/-- A token is read from a span: from a doc comment that it has the content of, or from its own text. Its line is
    that of the first character. -/
structure Token.IsFrom (t : Token) (text : List Char) (a : Span) : Prop where
  start_lt : a.start < a.stop
  stop_le : a.stop ≤ text.length
  line : t.line = 1 + (text.take a.start).count '\n'
  code : t.kind ≠ .doc → t.text.toList = a.slice text
  doc : t.kind = .doc → IsComment (text.drop a.stop) (a.slice text) ∧ isDoc (a.slice text) = true ∧
    t.text.toList = docText (a.slice text)

/-- Tokens are read from spans behind a position, one after the other, and nothing is passed over but gaps. -/
structure Placed (text : List Char) (p : Nat) (spans : List Span) (ts : List Token) : Prop where
  tokens : List.Forall₂ (fun a t => t.IsFrom text a) spans ts
  behind : ∀ a ∈ spans, p ≤ a.start
  apart : spans.Pairwise fun a b => a.stop ≤ b.start
  gaps : ∀ g ∈ gapsFrom text.length p spans, IsGap (text.drop g.stop) (g.slice text)

theorem Span.slice_middle (front cs rest : List Char) :
    Span.slice ⟨front.length, (front ++ cs).length⟩ (front ++ cs ++ rest) = cs := by
  rw [slice, List.extract_eq_take_drop, List.append_assoc, List.drop_left, List.length_append, Nat.add_sub_cancel_left,
    List.take_left]

theorem Span.slice_extend {front cs rest : List Char} {stop : Nat} (h : (front ++ cs).length ≤ stop) :
    Span.slice ⟨front.length, stop⟩ (front ++ cs ++ rest) =
      cs ++ Span.slice ⟨(front ++ cs).length, stop⟩ (front ++ cs ++ rest) := by
  obtain ⟨n, rfl⟩ := Nat.exists_eq_add_of_le h
  have hlen : (front ++ cs).length + n - front.length = cs.length + n := by
    rw [List.length_append, Nat.add_assoc, Nat.add_sub_cancel_left]
  rw [slice, slice, List.extract_eq_take_drop, List.extract_eq_take_drop, Nat.add_sub_cancel_left, List.drop_left, hlen,
    List.append_assoc, List.drop_left, List.take_length_add_append]

/-- What stands in a span and behind it is what stands from its start on. -/
theorem Span.slice_append_drop {a : Span} (h : a.start ≤ a.stop) (text : List Char) :
    a.slice text ++ text.drop a.stop = text.drop a.start := by
  rw [slice, List.extract_eq_take_drop, ← Nat.add_sub_cancel' h, ← List.drop_drop, Nat.add_sub_cancel_left,
    List.take_append_drop]

theorem exists_gapsFrom (length p : Nat) (spans : List Span) : ∃ stop others,
    (∀ q, gapsFrom length q spans = ⟨q, stop⟩ :: others) ∧ ((∀ a ∈ spans, p ≤ a.start) → p ≤ length → p ≤ stop) := by
  cases spans with
  | nil => exact ⟨length, [], fun _ => rfl, fun _ h => h⟩
  | cons a as => exact ⟨a.start, gapsFrom length a.stop as, fun _ => rfl, fun h _ => h a (List.mem_cons_self ..)⟩

namespace Placed
variable {front piece rest : List Char} {spans : List Span} {ts : List Token}

theorem nil (text : List Char) : Placed text text.length [] [] where
  tokens := .nil
  behind := nofun
  apart := .nil
  gaps := by
    refine List.forall_mem_singleton.2 ?_
    rw [Span.slice, List.extract_eq_take_drop, Nat.sub_self]
    exact .nil

/-- A part that belongs to the gap behind it. -/
theorem skip (h : Placed (front ++ piece ++ rest) (front ++ piece).length spans ts)
    (hpiece : ∀ cs ds, cs ++ ds = rest → IsGap ds cs → IsGap ds (piece ++ cs)) :
    Placed (front ++ piece ++ rest) front.length spans ts where
  tokens := h.tokens
  behind a ha := Nat.le_trans (by simp) (h.behind a ha)
  apart := h.apart
  gaps := by
    obtain ⟨stop, others, heq, hstop⟩ := exists_gapsFrom (front ++ piece ++ rest).length (front ++ piece).length spans
    have hgaps := h.gaps
    rw [heq] at hgaps ⊢
    obtain ⟨hfirst, hothers⟩ := List.forall_mem_cons.1 hgaps
    refine List.forall_mem_cons.2 ⟨?_, hothers⟩
    have hle : (front ++ piece).length ≤ stop := hstop h.behind (by simp)
    have hrest := Span.slice_append_drop (a := ⟨(front ++ piece).length, stop⟩) hle (front ++ piece ++ rest)
    rw [List.drop_left] at hrest
    rw [Span.slice_extend hle]
    exact hpiece _ _ hrest hfirst

/-- A token that is read from where the text starts. -/
theorem take {t : Token} (h : Placed (front ++ piece ++ rest) (front ++ piece).length spans ts)
    (ht : t.IsFrom (front ++ piece ++ rest) ⟨front.length, (front ++ piece).length⟩) :
    Placed (front ++ piece ++ rest) front.length (⟨front.length, (front ++ piece).length⟩ :: spans) (t :: ts) where
  tokens := .cons ht h.tokens
  behind := List.forall_mem_cons.2 ⟨Nat.le_refl _, fun a ha => Nat.le_trans (by simp) (h.behind a ha)⟩
  apart := .cons h.behind h.apart
  gaps := by
    refine List.forall_mem_cons.2 ⟨?_, h.gaps⟩
    rw [Span.slice, List.extract_eq_take_drop, Nat.sub_self]
    exact .nil

end Placed

/-- What a known lexeme adds in front of the tokens of the text behind it. -/
theorem Lexeme.IsKnown.placed {l : Lexeme} (h : l.IsKnown) (hne : l.source ≠ []) {front : List Char}
    {spans : List Span} {ts : List Token}
    (hplaced : Placed (front ++ l.source ++ l.rest) (front ++ l.source).length spans ts) :
    ∃ spans, Placed (front ++ l.source ++ l.rest) front.length spans
      ((l.token? (1 + front.count '\n')).toList ++ ts) := by
  have hspan : ∀ t : Token, t.line = 1 + front.count '\n' →
      (t.kind ≠ .doc → t.text.toList = l.source) →
      (t.kind = .doc → IsComment l.rest l.source ∧ isDoc l.source = true ∧ t.text.toList = docText l.source) →
      t.IsFrom (front ++ l.source ++ l.rest) ⟨front.length, (front ++ l.source).length⟩ := by
    intro t hline hcode hdoc
    have hpos := List.length_pos_iff.2 hne
    refine ⟨?_, ?_, ?_, ?_, ?_⟩
    · show front.length < (front ++ l.source).length
      rw [List.length_append]
      omega
    · show (front ++ l.source).length ≤ _
      simp
    · show t.line = 1 + (List.take front.length _).count '\n'
      rw [List.append_assoc, List.take_left, hline]
    · rwa [Span.slice_middle]
    · rw [Span.slice_middle]
      show t.kind = .doc → IsComment (List.drop (front ++ l.source).length _) _ ∧ _
      rwa [List.drop_left]
  cases h with
  | blank hc => exact ⟨spans, hplaced.skip fun cs ds _ hgap => .blank hc hgap⟩
  | @comment cs r hcomment =>
    cases hdoc : isDoc cs with
    | true =>
      refine ⟨_, hplaced.take (hspan ⟨.doc, _, _⟩ rfl (fun h => absurd rfl h) fun _ => ⟨hcomment, hdoc, ?_⟩)⟩
      exact String.toList_ofList
    | false => exact ⟨spans, hplaced.skip fun cs' ds hrest hgap => .comment (hrest ▸ hcomment) hdoc hgap⟩
  | @code k cs r hk =>
    have htext : (Lexeme.mk (some k) cs r).text = cs := by
      cases k with
      | doc => exact absurd rfl hk
      | _ => rfl
    refine ⟨_, hplaced.take (hspan ⟨k, _, _⟩ rfl (fun _ => ?_) fun h => absurd h hk)⟩
    rw [String.toList_ofList, htext]

/-- The line that the tokenizer is on counts the line feeds of the text in front, and each lexeme keeps it so. -/
theorem exists_placed {line : Nat} {cs front : List Char} {ts : List Token} (h : tokensFrom line cs = .ok ts)
    (hline : line = 1 + front.count '\n') : ∃ spans, Placed (front ++ cs) front.length spans ts := by
  fun_induction tokensFrom line cs generalizing front ts with
  | case1 =>
    cases h
    rw [List.append_nil]
    exact ⟨[], .nil front⟩
  | case2 => cases h
  | case3 => cases h
  | case4 line c r l hl rest hrest ih =>
    cases h
    obtain ⟨happend, hne⟩ := starts_lexeme hl
    have hnext : line + l.source.count '\n' = 1 + (front ++ l.source).count '\n' := by
      rw [List.count_append, hline, Nat.add_assoc]
    obtain ⟨spans, hspans⟩ := ih hrest hnext
    rw [← happend, ← List.append_assoc, hline]
    exact (isKnown_lexeme hl).placed hne hspans

/-- The tokens of a text are read from spans of it, which come one after the other and do not overlap. A token other than
    a doc comment has the text of its span, and a doc comment the content of the comment that its span is. Between the
    spans, before them and behind them are blanks, comments to the end of a line, and block comments in which all
    others are closed; none of these is a doc comment. The line of a token is one more than the line feeds before its
    span. -/
theorem tokenize_placed {text : String} {ts : List Token} (h : tokenize text = .ok ts) :
    ∃ spans, Placed text.toList 0 spans ts := by
  have hstart : 1 = 1 + ([] : List Char).count '\n' := rfl
  exact exists_placed h hstart

/-- Line feeds in a comment inside of a comment, behind a doc comment and in a raw string are all counted. -/
theorem tokenize_placed_sample : ∃ ts spans, tokenize "/* a\n/* b */ */ x\n/// d\nr\"\n\" y" = .ok ts ∧
    ts.map (fun t => (t.text, t.line)) = [("x", 2), ("d", 3), ("r\"\n\"", 4), ("y", 5)] ∧
    Placed "/* a\n/* b */ */ x\n/// d\nr\"\n\" y".toList 0 spans ts := by
  have hlines : ∃ ts, tokenize "/* a\n/* b */ */ x\n/// d\nr\"\n\" y" = .ok ts ∧
      ts.map (fun t => (t.text, t.line)) = [("x", 2), ("d", 3), ("r\"\n\"", 4), ("y", 5)] :=
    exists_ok_of_toOption (by decide +kernel)
  obtain ⟨ts, hts, hlines⟩ := hlines
  obtain ⟨spans, hplaced⟩ := tokenize_placed hts
  exact ⟨ts, spans, hts, hlines, hplaced⟩

end RingBridge.Source
