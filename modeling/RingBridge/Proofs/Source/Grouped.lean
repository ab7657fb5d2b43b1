import RingBridge.Proofs.Source.Balanced
/-!
Tokens that can be grouped are balanced, so every group of a range is closed in it. A range of cells is read off its
marks; behind each mark that opens a group stand the marks of the group and the one that closes it.
-/
namespace RingBridge.Source

def Closes : List Delimiter → List Word → Prop
  | [], ws => ∃ b : Balanced, ws = b.words
  | d :: ds, ws => ∃ (b : Balanced) (rest : List Word), ws = b.words ++ .closing d :: rest ∧ Closes ds rest

namespace Closes
variable {d : Delimiter} {ds : List Delimiter} {ws : List Word}

theorem word (h : Closes ds ws) {w : Word} (hw : w.isBracket = false) : Closes ds (w :: ws) := by
  cases ds with
  | nil =>
    obtain ⟨b, rfl⟩ := h
    exact ⟨.word w hw b, rfl⟩
  | cons d ds =>
    obtain ⟨b, rest, rfl, hrest⟩ := h
    exact ⟨.word w hw b, rest, rfl, hrest⟩

theorem opening (h : Closes (d :: ds) ws) : Closes ds (.opening d :: ws) := by
  obtain ⟨inner, rest, rfl, hrest⟩ := h
  cases ds with
  | nil =>
    obtain ⟨b, rfl⟩ := hrest
    exact ⟨.group d inner b, rfl⟩
  | cons d' ds =>
    obtain ⟨b, rest, rfl, hrest⟩ := hrest
    refine ⟨.group d inner b, rest, ?_, hrest⟩
    simp [Balanced.words]

theorem closing (h : Closes ds ws) : Closes (d :: ds) (.closing d :: ws) := ⟨.nil, ws, rfl, h⟩

end Closes

theorem Token.word_of_opens {t : Token} {d : Delimiter} (h : t.opens? = some d) : t.word = .opening d := by
  unfold opens? at h
  split at h
  · next hk =>
    have htext := List.find?_some h
    rw [beq_iff_eq] at htext
    rw [word, hk, ← htext, Word.opening]
  · cases h

theorem Token.word_of_closes {t : Token} {d : Delimiter} (h : t.closes? = some d) : t.word = .closing d := by
  unfold closes? at h
  split at h
  · next hk =>
    have htext := List.find?_some h
    rw [beq_iff_eq] at htext
    rw [word, hk, ← htext, Word.closing]
  · cases h

theorem Token.isBracket_eq_false {t : Token} (ho : t.opens? = none) (hc : t.closes? = none) :
    t.word.isBracket = false := by
  unfold opens? at ho
  unfold closes? at hc
  by_cases hk : t.kind = .punct
  · rw [if_pos hk, List.find?_eq_none] at ho hc
    simp only [Word.isBracket, word, hk, beq_self_eq_true, Bool.true_and, List.any_eq_false, Bool.or_eq_true, not_or]
    exact fun d hd => ⟨ho d hd, hc d hd⟩
  · simp [Word.isBracket, word, hk]

/-- Where grouping succeeds, all open groups are closed in what follows. -/
theorem closes_of_groupsFrom {stack : List Opening} {i : Nat} {ts : List Token} {pairs : List (Nat × Nat)}
    (h : groupsFrom stack i ts = .ok pairs) : Closes (stack.map Opening.delimiter) (ts.map Token.word) := by
  induction ts generalizing stack i pairs with
  | nil =>
    cases stack with
    | nil => exact ⟨.nil, rfl⟩
    | cons o rest => cases h
  | cons t ts ih =>
    rw [groupsFrom] at h
    split at h
    · next d ho =>
      rw [List.map_cons, Token.word_of_opens ho]
      exact (ih h).opening
    · next d _ hc =>
      split at h
      · cases h
      · next o rest =>
        split at h
        · next hd =>
          rw [List.map_cons, List.map_cons, Token.word_of_closes hc, ← hd]
          split at h
          · next hrest => exact (ih hrest).closing
          · cases h
        · cases h
    · next ho hc => exact (ih h).word (Token.isBracket_eq_false ho hc)

/-- The marks of cells are those of balanced words. -/
theorem Balanced.exists_of_cells {ts : List Token} {cs : List Cell} (h : cells ts = .ok cs) :
    ∃ b : Balanced, cs.map Cell.mark = b.marks ∧ cs.map Cell.token = ts := by
  obtain ⟨pairs, hpairs⟩ : ∃ pairs, groups ts = .ok pairs := by
    unfold cells at h
    split at h
    · next pairs hp => exact ⟨pairs, hp⟩
    · cases h
  obtain ⟨b, hb⟩ := closes_of_groupsFrom hpairs
  obtain ⟨cs', hcells, hmarks, htokens⟩ := b.cells_words hb
  cases h.symm.trans hcells
  exact ⟨b, hmarks, htokens⟩

def wordsOf (cs : List Cell) : List Word := cs.map fun c => c.token.word

theorem wordsOf_append (cs ds : List Cell) : wordsOf (cs ++ ds) = wordsOf cs ++ wordsOf ds := List.map_append

theorem wordsOf_eq {cs : List Cell} {b : Balanced} (h : cs.map Cell.mark = b.marks) : wordsOf cs = b.words := by
  rw [← b.map_word_marks, ← h, List.map_map]
  rfl

def Mark.Heads (m : Mark) (back : List Mark) : Prop :=
  match m.inside with
  | some n => ∃ (d : Delimiter) (inner : Balanced) (rest : List Mark), m.word = .opening d ∧ n = inner.marks.length ∧
    back = inner.marks ++ ⟨.closing d, none⟩ :: rest
  | none => ∀ d, m.word ≠ .opening d

/-- Every group that opens in the range is closed there. -/
def Grouped : List Mark → Prop
  | [] => True
  | m :: back => m.Heads back ∧ Grouped back

namespace Grouped
variable {ms ns : List Mark}

theorem suffix (h : Grouped ms) (hs : ns <:+ ms) : Grouped ns := by
  induction ms with
  | nil =>
    obtain rfl := List.suffix_nil.1 hs
    trivial
  | cons m ms ih =>
    obtain rfl | hs := List.suffix_cons_iff.1 hs
    · exact h
    · exact ih h.2 hs

theorem append (h : Grouped ms) (h' : Grouped ns) : Grouped (ms ++ ns) := by
  induction ms with
  | nil => exact h'
  | cons m ms ih =>
    refine ⟨?_, ih h.2⟩
    obtain ⟨hm, -⟩ := h
    unfold Mark.Heads at hm ⊢
    split at hm
    · obtain ⟨d, inner, rest, hw, hn, rfl⟩ := hm
      exact ⟨d, inner, rest ++ ns, hw, hn, by simp⟩
    · exact hm

end Grouped

theorem Word.ne_opening_of_isBracket {w : Word} (h : w.isBracket = false) (d : Delimiter) : w ≠ .opening d := by
  rintro rfl
  cases d <;> cases h

theorem Balanced.grouped (b : Balanced) : Grouped b.marks := by
  induction b with
  | nil => trivial
  | word w hw r ih => exact ⟨Word.ne_opening_of_isBracket hw, ih⟩
  | group d inner r ihi ih =>
    have hclosing : Grouped (⟨.closing d, none⟩ :: r.marks) := by
      refine ⟨?_, ih⟩
      intro d'
      cases d <;> cases d' <;> decide
    exact ⟨⟨d, inner, r.marks, rfl, rfl, rfl⟩, ihi.append hclosing⟩

end RingBridge.Source
