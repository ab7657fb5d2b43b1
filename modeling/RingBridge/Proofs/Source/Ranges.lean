import RingBridge.Proofs.Source.Reported
/-!
Ranges and positions. All readers share one sequence of cells, and each stands in a range of it: in the whole, or inside
of a group. Groups are nested, so a jump over a group of a range ends in the range, and is never cut off at its end.
-/
namespace RingBridge.Source

/-- The ranges of some cells: all of them, and the inside of each group that opens in a range. -/
inductive IsRange (cs : List Cell) : List Cell → Prop
  | whole : IsRange cs cs
  | inside {front back : List Cell} {c : Cell} {n : Nat} (h : IsRange cs (front ++ c :: back))
    (hn : c.inside = some n) : IsRange cs (back.take n)

/-- A group in a range where all groups are closed: its inside is in the range, and the closing cell behind it too. -/
theorem exists_inner {front back : List Cell} {c : Cell} {n : Nat}
    (h : Grouped ((front ++ c :: back).map Cell.mark)) (hn : c.inside = some n) :
    ∃ inner : Balanced, (back.take n).map Cell.mark = inner.marks ∧ n < back.length := by
  have hgroup : Grouped ((c :: back).map Cell.mark) := h.suffix ((List.suffix_append front _).map _)
  obtain ⟨hhead, -⟩ := hgroup
  rw [Mark.Heads, show c.mark.inside = some n from hn] at hhead
  obtain ⟨d, inner, rest, -, hlen, hback⟩ := hhead
  refine ⟨inner, ?_, ?_⟩
  · rw [List.map_take, hback, hlen, List.take_left]
  · rw [← List.length_map Cell.mark, hback, List.length_append, List.length_cons]
    omega

/-- Every group that opens in a range is closed in it. -/
theorem IsRange.grouped {cs range : List Cell} (h : IsRange cs range) (hcs : Grouped (cs.map Cell.mark)) :
    Grouped (range.map Cell.mark) := by
  induction h with
  | whole => exact hcs
  | inside _ hn ih =>
    obtain ⟨inner, hinner, -⟩ := exists_inner ih hn
    exact hinner ▸ inner.grouped

/-- The extension block is a range. -/
theorem isRange_of_extension {cs front back : List Cell} {notices : List Notice} {s : Cursor}
    (h : IsRange cs (front ++ back)) (hs : extension? notices back = some (.ok s)) : IsRange cs s.cells := by
  fun_induction extension? notices back generalizing front with
  | case1 c b o r _ n hn =>
    cases hs
    have hopen : IsRange cs ((front ++ [c, b]) ++ o :: r) := by simpa using h
    exact hopen.inside hn
  | case2 => cases hs
  | case3 c b o r _ ih =>
    have hpast : IsRange cs ((front ++ [c]) ++ b :: o :: r) := by simpa using h
    exact ih hpast hs
  | case4 => cases hs

theorem isRange_of_readingRange {cs : List Cell} {s : Cursor} (h : readingRange cs = .ok s) : IsRange cs s.cells := by
  rw [readingRange, Option.getD_eq_iff] at h
  obtain hext | ⟨-, hall⟩ := h
  · have hwhole : IsRange cs ([] ++ cs) := .whole
    exact isRange_of_extension hwhole hext
  · cases hall
    exact .whole

structure Cursor.StandsAt (s : Cursor) (range : List Cell) (p : Nat) : Prop where
  le : p ≤ range.length
  cells : s.cells = range.drop p

namespace Cursor.StandsAt
variable {s t : Cursor} {range : List Cell} {p : Nat}

theorem length_cells (h : s.StandsAt range p) : s.cells.length = range.length - p := by rw [h.cells, List.length_drop]

/-- What is left of a range is left from some position on. -/
theorem exists_of_suffix (h : s.StandsAt range p) (hs : t.cells <:+ s.cells) :
    ∃ q, t.StandsAt range q ∧ p ≤ q ∧ (t.cells.length < s.cells.length → p < q) := by
  have hle := hs.length_le
  have hlen := h.length_cells
  have hp := h.le
  refine ⟨range.length - t.cells.length, ⟨Nat.sub_le .., ?_⟩, by omega, fun hlt => by omega⟩
  exact List.suffix_iff_eq_drop.1 (hs.trans (h.cells ▸ List.drop_suffix ..))

end Cursor.StandsAt

namespace Read

inductive IsStep : {α : Type} → Read α → Prop
  | next : IsStep next
  | expect (text : String) : IsStep (expect text)
  | expectIdent (what : String) : IsStep (expectIdent what)
  | skipGroup : IsStep skipGroup
  | skipAngles : IsStep skipAngles
  | skipStatement : IsStep skipStatement
  | skipItem : IsStep skipItem
  | skipMacro : IsStep skipMacro
  | skipWhere : IsStep skipWhere
  | readType (stops : List String) (what : String) : IsStep (readType stops what)
  | attributes : IsStep attributes
  | visibility : IsStep visibility
  | paramTokens : IsStep paramTokens
  | params : IsStep params
  | function (isPublic : Bool) (docs : List String) : IsStep (function isPublic docs)
  | fields : IsStep fields
  | struct (isPublic : Bool) (docs : List String) : IsStep (struct isPublic docs)
  | methods : IsStep methods
  | impl : IsStep impl
  | prefixDirective : IsStep prefixDirective
  | item : IsStep item
  | file : IsStep file

inductive IsRound : {α : Type} → (Bool → Read (Option α)) → Prop
  | items : IsRound fun _ => do return some (← topLevel)
  | fields : IsRound fun _ => field
  | methods : IsRound fun _ => method
  | params : IsRound param

variable {α : Type}

theorem IsRound.keeps {step : Bool → Read (Option α)} (h : IsRound step) (first : Bool) : Keeps (step first) := by
  cases h with
  | items => exact .bind keeps_topLevel fun _ => .pure _
  | fields => exact keeps_field
  | methods => exact keeps_method
  | params => exact keeps_param first

theorem IsRound.advances {step : Bool → Read (Option α)} (h : IsRound step) (first : Bool) : Advances (step first) := by
  cases h with
  | items => exact .bind_right advances_topLevel fun _ => .pure _
  | fields => exact advances_field
  | methods => exact advances_method
  | params => exact advances_param first

/-- A loop leaves what its last round leaves. -/
theorem keeps_collect {step : Bool → Read (Option α)} {h : ∀ first, Advances (step first)}
    (hk : ∀ first, Keeps (step first)) (first : Bool) : Keeps (collect step h first) := by
  intro s
  unfold after
  fun_induction collect step h first s with
  | case1 => exact List.suffix_refl _
  | case2 first s c r hc f t em => exact (hk first).error em
  | case3 first s c r hc t em => exact (hk first).ok em
  | case4 first s c r hc a t em f u ec ih =>
    rw [ec] at ih
    exact ih.trans ((hk first).ok em)
  | case5 first s c r hc a t em as u ec ih =>
    rw [ec] at ih
    exact ih.trans ((hk first).ok em)

/-- Each round takes a token, so there are no more rounds than tokens. -/
theorem length_collect_le {step : Bool → Read (Option α)} {h : ∀ first, Advances (step first)} {first : Bool}
    {s t : Cursor} {as : List α} (e : collect step h first s = .ok as t) : as.length ≤ s.cells.length := by
  fun_induction collect step h first s generalizing as t with
  | case1 =>
    cases e
    exact Nat.zero_le _
  | case2 => cases e
  | case3 =>
    cases e
    exact Nat.zero_le _
  | case4 => cases e
  | case5 first s c r hc a u hu bs v hv ih =>
    cases e
    have hlt := h first s (some a) u (by simp [hc]) hu
    have hle := ih hv
    rw [List.length_cons]
    omega

theorem IsStep.keeps {m : Read α} (h : IsStep m) : Keeps m := by
  cases h with
  | next => exact keeps_next
  | expect text => exact keeps_expect text
  | expectIdent what => exact keeps_expectIdent what
  | skipGroup => exact keeps_skipGroup
  | skipAngles => exact keeps_skipAngles
  | skipStatement => exact keeps_skipStatement
  | skipItem => exact keeps_skipItem
  | skipMacro => exact keeps_skipMacro
  | skipWhere => exact keeps_skipWhere
  | readType stops what => exact keeps_readType stops what
  | attributes => exact keeps_attributes
  | visibility => exact keeps_visibility
  | paramTokens => exact keeps_paramTokens
  | params => exact keeps_collect IsRound.params.keeps true
  | function isPublic docs => exact keeps_function isPublic docs
  | fields => exact keeps_collect IsRound.fields.keeps true
  | struct isPublic docs => exact keeps_struct isPublic docs
  | methods => exact keeps_collect IsRound.methods.keeps true
  | impl => exact keeps_impl
  | prefixDirective => exact keeps_prefixDirective
  | item => exact keeps_item
  | file => exact keeps_collect IsRound.items.keeps true

/-- A token that is found at an offset is there. -/
theorem lt_of_isAt {cs : List Cell} {text : String} {k : Nat} (h : isAt cs text k = true) : k < cs.length := by
  unfold isAt at h
  split at h
  · next hc => exact (List.getElem?_eq_some_iff.1 hc).1
  · cases h

/-- Where a function is ahead, the keyword for which the qualifiers are passed over is there. -/
theorem isAt_of_fnAheadFrom {prev : Option Token} {cs : List Cell} (h : fnAheadFrom prev cs = true) :
    isAt (cs.dropWhile fun c => !c.token.isNamed "fn") "fn" = true := by
  induction cs generalizing prev with
  | nil => cases h
  | cons c r ih =>
    rw [List.dropWhile_cons]
    cases hfn : c.token.isNamed "fn" with
    | true =>
      rw [Bool.not_true, if_neg Bool.false_ne_true]
      exact hfn
    | false =>
      rw [Bool.not_false, if_pos rfl]
      unfold fnAheadFrom at h
      split at h
      · next hident =>
        simp only [Bool.and_eq_true, decide_eq_true_eq] at hident
        simp [Token.isNamed, hident] at hfn
      · split at h
        · exact ih h
        · split at h
          · exact ih h
          · cases h

end Read

section
open Read

/-- What a cursor at a position of a range does. It moves by a token or over a whole group, and neither is cut off at the
    end; what it looks at is in the range. So no step goes back or leaves the range, and no loop stands still. -/
structure Cursor.Progresses (cs range : List Cell) (p : Nat) (s : Cursor) : Prop where
  token : p < range.length → (skip.after s).StandsAt range (p + 1)
  jump : ∀ c n, range[p]? = some c → c.inside = some n → p + n + 1 < range.length ∧
    ∃ inner t, skipGroup s = .ok inner t ∧ t.StandsAt range (p + n + 2) ∧ IsRange cs inner.cells
  lookahead : ∀ text k, isAt s.cells text k = true → p + k < range.length
  seek : fnAhead s.cells = true → isAt (seekFn.after s).cells "fn" = true
  step : ∀ {α : Type} {m : Read α}, IsStep m → ∃ q, (m.after s).StandsAt range q ∧ p ≤ q
  round : ∀ {α : Type} {step : Bool → Read (Option α)}, IsRound step → p < range.length → ∀ first,
    (∃ f t, step first s = .error f t) ∨ (∃ t, step first s = .ok none t) ∨
      ∃ a t q, step first s = .ok (some a) t ∧ t.StandsAt range q ∧ p < q
  rounds : ∀ {α : Type} {step : Bool → Read (Option α)} (hs : IsRound step) first as t,
    collect step hs.advances first s = .ok as t → p + as.length ≤ range.length

variable {cs range : List Cell} {s : Cursor} {p : Nat}

/-- A group is stepped over as a whole. -/
theorem Cursor.StandsAt.jump (hs : s.StandsAt range p) (hr : IsRange cs range) (hcs : Grouped (cs.map Cell.mark))
    {c : Cell} {n : Nat} (hc : range[p]? = some c) (hn : c.inside = some n) : p + n + 1 < range.length ∧
      ∃ inner t, skipGroup s = .ok inner t ∧ t.StandsAt range (p + n + 2) ∧ IsRange cs inner.cells := by
  obtain ⟨hp, rfl⟩ := List.getElem?_eq_some_iff.1 hc
  have hdrop : range.drop p = range[p] :: range.drop (p + 1) := List.drop_eq_getElem_cons hp
  have hsplit : range = range.take p ++ range[p] :: range.drop (p + 1) := by
    rw [← hdrop, List.take_append_drop]
  have hgrouped := hr.grouped hcs
  rw [hsplit] at hgrouped hr
  obtain ⟨inner, -, hlt⟩ := exists_inner hgrouped hn
  rw [List.length_drop] at hlt
  obtain ⟨line, hskip⟩ : ∃ line, skipGroup s = .ok ⟨(range.drop (p + 1)).take n, line, []⟩
      { s with cells := (range.drop (p + 1)).drop (n + 1) } := by
    simp only [skipGroup, hs.cells, hdrop, hn]
    exact ⟨_, rfl⟩
  refine ⟨by omega, _, _, hskip, ⟨by omega, ?_⟩, hr.inside hn⟩
  show (range.drop (p + 1)).drop (n + 1) = _
  rw [List.drop_drop, show p + 1 + (n + 1) = p + n + 2 by omega]

/-- A round of a loop fails, ends the loop or moves on. -/
theorem Cursor.StandsAt.round (hs : s.StandsAt range p) (hp : p < range.length) {α : Type}
    {step : Bool → Read (Option α)} (h : IsRound step) (first : Bool) :
    (∃ f t, step first s = .error f t) ∨ (∃ t, step first s = .ok none t) ∨
      ∃ a t q, step first s = .ok (some a) t ∧ t.StandsAt range q ∧ p < q := by
  have hne : s.cells ≠ [] := by
    rw [← List.length_pos_iff, hs.length_cells]
    omega
  cases e : step first s with
  | error f t => exact .inl ⟨f, t, rfl⟩
  | ok o t =>
    obtain ⟨q, ht, -, hq⟩ := hs.exists_of_suffix ((h.keeps first).ok e)
    cases o with
    | none => exact .inr (.inl ⟨t, rfl⟩)
    | some a => exact .inr (.inr ⟨a, t, q, rfl, ht, hq (h.advances first s _ t hne e)⟩)

/-- Every reader over tokens whose delimiters match ends, and stays in its range: it starts in one, and wherever a cursor
    stands in one it makes progress there. -/
theorem progresses_of_cells {ts : List Token} (h : cells ts = .ok cs) :
    (∀ s, readingRange cs = .ok s → IsRange cs s.cells ∧ s.StandsAt s.cells 0) ∧
    ∀ (range : List Cell) (s : Cursor) (p : Nat), IsRange cs range → s.StandsAt range p → s.Progresses cs range p := by
  obtain ⟨b, hmarks, -⟩ := Balanced.exists_of_cells h
  have hgrouped : Grouped (cs.map Cell.mark) := hmarks ▸ b.grouped
  refine ⟨fun s hs => ⟨isRange_of_readingRange hs, Nat.zero_le _, rfl⟩, fun range s p hr hs => ?_⟩
  have hlen := hs.length_cells
  exact {
    token := fun hp => by
      refine ⟨hp, ?_⟩
      show s.cells.tail = _
      rw [hs.cells, List.tail_drop]
    jump := fun c n hc hn => hs.jump hr hgrouped hc hn
    lookahead := fun text k hat => by
      have := lt_of_isAt hat
      omega
    seek := fun hahead => isAt_of_fnAheadFrom hahead
    step := fun {α m} hm => by
      obtain ⟨q, hq, hle, -⟩ := hs.exists_of_suffix (hm.keeps s)
      exact ⟨q, hq, hle⟩
    round := fun {α step} hround hp first => hs.round hp hround first
    rounds := fun {α step} hround first as t e => by
      have := length_collect_le e
      have := hs.le
      omega }

/-- A reader inside of the group in `f ( x )`, which is a range of one token. -/
theorem progresses_of_cells_call : ∃ cs x,
    cells [⟨.ident, "f", 1⟩, ⟨.punct, "(", 1⟩, ⟨.ident, "x", 1⟩, ⟨.punct, ")", 1⟩] = .ok cs ∧ IsRange cs [x] ∧
    (Cursor.ofCells cs).Progresses cs cs 0 ∧ (Cursor.ofCells [x]).Progresses cs [x] 0 := by
  have hcells : cells [⟨.ident, "f", 1⟩, ⟨.punct, "(", 1⟩, ⟨.ident, "x", 1⟩, ⟨.punct, ")", 1⟩] =
      .ok [⟨⟨.ident, "f", 1⟩, none⟩, ⟨⟨.punct, "(", 1⟩, some 1⟩, ⟨⟨.ident, "x", 1⟩, none⟩, ⟨⟨.punct, ")", 1⟩, none⟩] := by
    rfl
  have hwhole : ∀ f o x c : Cell, IsRange [f, o, x, c] ([f] ++ o :: [x, c]) := fun _ _ _ _ => .whole
  have hinner : ∀ f o x c : Cell, o.inside = some 1 → IsRange [f, o, x, c] [x] :=
    fun f o x c ho => (hwhole f o x c).inside ho
  obtain ⟨-, hprogress⟩ := progresses_of_cells hcells
  have hgroup := hinner ⟨⟨.ident, "f", 1⟩, none⟩ ⟨⟨.punct, "(", 1⟩, some 1⟩ ⟨⟨.ident, "x", 1⟩, none⟩
    ⟨⟨.punct, ")", 1⟩, none⟩ rfl
  exact ⟨_, _, hcells, hgroup, hprogress _ _ 0 .whole ⟨Nat.zero_le _, rfl⟩, hprogress _ _ 0 hgroup ⟨Nat.zero_le _, rfl⟩⟩

end

end RingBridge.Source
