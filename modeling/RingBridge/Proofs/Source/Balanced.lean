import RingBridge.Source.Group
/-!
Token sequences in which every group is closed, as data. Grouping finds exactly the groups they are made of, on
whatever lines the tokens stand.
-/
namespace RingBridge.Source

structure Word where
  kind : TokenKind
  text : String
deriving DecidableEq

def Token.word (t : Token) : Word := ⟨t.kind, t.text⟩

namespace Word

def isBracket (w : Word) : Bool :=
  w.kind == .punct && Delimiter.all.any fun d => d.opening == w.text || d.closing == w.text

def opening (d : Delimiter) : Word := ⟨.punct, d.opening⟩

def closing (d : Delimiter) : Word := ⟨.punct, d.closing⟩

end Word

structure Mark where
  word : Word
  inside : Option Nat := none
deriving DecidableEq

def Cell.mark (c : Cell) : Mark := ⟨c.token.word, c.inside⟩

inductive Balanced where
  | nil
  | word (w : Word) (h : w.isBracket = false) (rest : Balanced)
  | group (d : Delimiter) (inner rest : Balanced)

namespace Balanced

def words : Balanced → List Word
  | nil => []
  | word w _ r => w :: r.words
  | group d inner r => .opening d :: (inner.words ++ .closing d :: r.words)

def marks : Balanced → List Mark
  | nil => []
  | word w _ r => ⟨w, none⟩ :: r.marks
  | group d inner r => ⟨.opening d, some inner.marks.length⟩ :: (inner.marks ++ ⟨.closing d, none⟩ :: r.marks)

def append : Balanced → Balanced → Balanced
  | nil, b => b
  | word w h r, b => word w h (r.append b)
  | group d inner r, b => group d inner (r.append b)

instance : Append Balanced := ⟨append⟩

theorem marks_append (a b : Balanced) : (a ++ b).marks = a.marks ++ b.marks := by
  show (a.append b).marks = _
  induction a with
  | nil => rfl
  | word w h r ih => rw [append, marks, marks, ih, List.cons_append]
  | group d inner r _ ih => rw [append, marks, marks, ih]; simp

theorem words_append (a b : Balanced) : (a ++ b).words = a.words ++ b.words := by
  show (a.append b).words = _
  induction a with
  | nil => rfl
  | word w h r ih => rw [append, words, words, ih, List.cons_append]
  | group d inner r _ ih => rw [append, words, words, ih]; simp

theorem map_word_marks (b : Balanced) : b.marks.map Mark.word = b.words := by
  induction b with
  | nil => rfl
  | word w h r ih => rw [marks, words, List.map_cons, ih]
  | group d inner r ihi ih => simp only [marks, words, List.map_cons, List.map_append, ihi, ih]

def pairs (i : Nat) : Balanced → List (Nat × Nat)
  | nil => []
  | word _ _ r => r.pairs (i + 1)
  | group _ inner r =>
    inner.pairs (i + 1) ++ (i, i + 1 + inner.marks.length) :: r.pairs (i + inner.marks.length + 2)

theorem opens_opening {t : Token} {d : Delimiter} (h : t.word = .opening d) : t.opens? = some d := by
  obtain ⟨kind, text, line⟩ := t
  obtain ⟨rfl, rfl⟩ := Word.mk.inj h
  cases d <;> rfl

theorem closes_closing {t : Token} {d : Delimiter} (h : t.word = .closing d) : t.opens? = none ∧ t.closes? = some d := by
  obtain ⟨kind, text, line⟩ := t
  obtain ⟨rfl, rfl⟩ := Word.mk.inj h
  cases d <;> exact ⟨rfl, rfl⟩

theorem opens_word {t : Token} {w : Word} (h : t.word = w) (hw : w.isBracket = false) :
    t.opens? = none ∧ t.closes? = none := by
  subst h
  simp only [Word.isBracket, Token.word, Bool.and_eq_false_iff, beq_eq_false_iff_ne, List.any_eq_false,
    Bool.or_eq_true, beq_iff_eq, not_or] at hw
  constructor
  · rw [Token.opens?]
    split
    · next hk =>
      have hd := hw.resolve_left (absurd hk)
      exact List.find?_eq_none.2 fun d hm => by simpa using (hd d hm).1
    · rfl
  · rw [Token.closes?]
    split
    · next hk =>
      have hd := hw.resolve_left (absurd hk)
      exact List.find?_eq_none.2 fun d hm => by simpa using (hd d hm).2
    · rfl

/-- Grouping passes over balanced tokens and leaves the open groups as they were. -/
theorem groupsFrom_words (b : Balanced) (stack : List Opening) (i : Nat) {ts : List Token}
    (h : ts.map Token.word = b.words) (rest : List Token) :
    groupsFrom stack i (ts ++ rest) = (groupsFrom stack (i + b.marks.length) rest).map (b.pairs i ++ ·) := by
  induction b generalizing stack i ts rest with
  | nil =>
    obtain rfl := List.map_eq_nil_iff.1 h
    rw [List.nil_append, marks, List.length_nil, Nat.add_zero]
    cases groupsFrom stack i rest <;> rfl
  | word w hw r ih =>
    obtain ⟨t, ts, rfl, ht, hr⟩ := List.map_eq_cons_iff.1 h
    obtain ⟨ho, hc⟩ := opens_word ht hw
    have hlen : i + 1 + r.marks.length = i + (marks (word w hw r)).length := by simp only [marks, List.length_cons]; omega
    rw [List.cons_append, groupsFrom, ho, hc, ← hlen]
    exact ih stack (i + 1) hr rest
  | group d inner r ihi ih =>
    obtain ⟨o, ts, rfl, ho, h⟩ := List.map_eq_cons_iff.1 h
    obtain ⟨is, cs, rfl, hi, h⟩ := List.map_eq_append_iff.1 h
    obtain ⟨c, ts, rfl, hc, hr⟩ := List.map_eq_cons_iff.1 h
    obtain ⟨hco, hcc⟩ := closes_closing hc
    have hlen : i + 1 + inner.marks.length + 1 + r.marks.length = i + (marks (group d inner r)).length := by
      simp only [marks, List.length_cons, List.length_append]; omega
    have hnext : i + 1 + inner.marks.length + 1 = i + inner.marks.length + 2 := by omega
    rw [List.cons_append, List.append_assoc, List.cons_append, groupsFrom, opens_opening ho]
    dsimp only
    rw [ihi _ (i + 1) hi, groupsFrom, hco, hcc]
    dsimp only
    rw [if_pos rfl, ih stack _ hr rest, hlen, hnext]
    cases groupsFrom stack (i + (marks (group d inner r)).length) rest <;> simp [Except.map, pairs]

theorem groups_words (b : Balanced) {ts : List Token} (h : ts.map Token.word = b.words) :
    groups ts = .ok (b.pairs 0) := by
  have hg := groupsFrom_words b [] 0 h []
  rw [List.append_nil] at hg
  rw [groups, hg, groupsFrom]
  simp [Except.map]

theorem insideOf_append (ps qs : List (Nat × Nat)) (k : Nat) :
    insideOf (ps ++ qs) k = (insideOf ps k).or (insideOf qs k) := by
  simp only [insideOf, List.find?_append]
  cases ps.find? fun p => p.1 == k <;> rfl

theorem insideOf_cons (p : Nat × Nat) (ps : List (Nat × Nat)) (k : Nat) :
    insideOf (p :: ps) k = if p.1 = k then some (p.2 - p.1 - 1) else insideOf ps k := by
  simp only [insideOf, List.find?_cons]
  by_cases h : p.1 = k
  · simp [h]
  · rw [if_neg h, beq_eq_false_iff_ne.2 h]

/-- The length of the group that opens at a place. -/
theorem insideOf_pairs (b : Balanced) (i k : Nat) :
    insideOf (b.pairs i) k = if k < i then none else (b.marks[k - i]?).bind Mark.inside := by
  induction b generalizing i with
  | nil => simp [pairs, marks, insideOf]
  | word w hw r ih =>
    rw [pairs, ih, marks]
    by_cases hk : k < i
    · rw [if_pos hk, if_pos (by omega)]
    · rw [if_neg hk]
      by_cases he : k = i
      · subst he
        simp
      · have hs : k - i = k - (i + 1) + 1 := by omega
        rw [if_neg (by omega), hs, List.getElem?_cons_succ]
  | group d inner r ihi ih =>
    rw [pairs, insideOf_append, insideOf_cons, ihi, ih, marks]
    dsimp only
    by_cases h0 : k < i
    · rw [if_pos h0, if_pos (by omega), if_neg (by omega), if_pos (by omega)]
      rfl
    rw [if_neg h0]
    by_cases h1 : k = i
    · subst h1
      rw [if_pos (by omega), if_pos rfl, Nat.sub_self, List.getElem?_cons_zero, Option.none_or, Option.bind_some]
      congr 1
      omega
    have hs : k - i = k - (i + 1) + 1 := by omega
    rw [if_neg (by omega), if_neg (Ne.symm h1), hs, List.getElem?_cons_succ]
    by_cases h2 : k < i + 1 + inner.marks.length
    · rw [List.getElem?_append_left (by omega), if_pos (by omega), Option.or_none]
    rw [List.getElem?_eq_none (by omega), Option.bind_none, Option.none_or, List.getElem?_append_right (by omega)]
    by_cases h3 : k = i + 1 + inner.marks.length
    · have hz : k - (i + 1) - inner.marks.length = 0 := by omega
      rw [if_pos (by omega), hz, List.getElem?_cons_zero]
      rfl
    · have hr : k - (i + 1) - inner.marks.length = k - (i + inner.marks.length + 2) + 1 := by omega
      rw [if_neg (by omega), hr, List.getElem?_cons_succ]

/-- Every balanced sequence of tokens has cells, and these are marked as it says. -/
theorem cells_words (b : Balanced) {ts : List Token} (h : ts.map Token.word = b.words) :
    ∃ cs, cells ts = .ok cs ∧ cs.map Cell.mark = b.marks ∧ cs.map Cell.token = ts := by
  refine ⟨ts.zipIdx.map fun p => ⟨p.1, insideOf (b.pairs 0) p.2⟩, ?_, ?_, ?_⟩
  · rw [cells, groups_words b h]
  · apply List.ext_getElem?
    intro k
    have hk : (b.marks[k]?).map Mark.word = (ts[k]?).map Token.word := by
      rw [← List.getElem?_map, ← List.getElem?_map, map_word_marks, h]
    have hi := insideOf_pairs b 0 k
    rw [if_neg (by omega), Nat.sub_zero] at hi
    rw [List.map_map, List.getElem?_map, List.getElem?_zipIdx]
    cases ht : ts[k]? with
    | none =>
      rw [ht, Option.map_none, Option.map_eq_none_iff] at hk
      rw [hk]
      rfl
    | some t =>
      rw [ht, Option.map_some, Option.map_eq_some_iff] at hk
      obtain ⟨m, hm, hw⟩ := hk
      rw [hm, Option.bind_some] at hi
      rw [hm]
      simp only [Option.map_some, Function.comp, Cell.mark, Nat.zero_add, hi, Option.some.injEq]
      rw [show t.word = m.word from hw.symm]
  · simp [List.map_map, Function.comp_def]

end Balanced
end RingBridge.Source
