import RingBridge.Proofs.Layout.Rows
/-!
Operations that are spliced in. A page that is written on its own goes along with the one that is written in place:
every line goes in by the level of the place, and what was there before stays. So operations that come back to the
level where they start can be written first and spliced in later.
-/
namespace RingBridge.Layout
open Text

structure Level where
  depth : Nat := 0
  blocks : Nat := 0
deriving DecidableEq

namespace Level

def after? (l : Level) : Op → Option Level
  | .line _ | .splice _ => some l
  | .indent => some { l with depth := l.depth + 1 }
  | .dedent => if l.depth = 0 then none else some { l with depth := l.depth - 1 }
  | .enter _ _ => some ⟨l.depth + 1, l.blocks + 1⟩
  | .leave => if l.depth = 0 ∨ l.blocks = 0 then none else some ⟨l.depth - 1, l.blocks - 1⟩

def run? (l : Level) (ops : List Op) : Option Level := ops.foldlM after? l

theorem exists_of_run?_cons {l m : Level} {op : Op} {ops : List Op} (h : l.run? (op :: ops) = some m) :
    ∃ k, l.after? op = some k ∧ k.run? ops = some m := by
  rw [run?, List.foldlM_cons] at h
  exact Option.bind_eq_some_iff.1 h

end Level

/-- The operations end as far in as they start, and never go out in between. -/
def ComesBack (ops : List Op) : Prop := (Level.run? {} ops).any (·.depth == 0) = true

instance (ops : List Op) : Decidable (ComesBack ops) := inferInstanceAs (Decidable (_ = true))

theorem ComesBack.exists_run? {ops : List Op} (h : ComesBack ops) : ∃ l, Level.run? {} ops = some l ∧ l.depth = 0 := by
  obtain ⟨l, hl, hdepth⟩ := (Option.any_eq_true ..).1 h
  exact ⟨l, hl, eq_of_beq hdepth⟩

namespace Page

def level (q : Page) : Level := ⟨q.depth, q.footers.length⟩

def placedOn (q p : Page) : Page where
  lines := p.lines ++ q.lines.map (placed p.depth)
  depth := p.depth + q.depth
  footers := q.footers ++ p.footers

theorem empty_placedOn (p : Page) : Page.placedOn {} p = p := by simp [placedOn]

theorem addRows_placedOn (q p : Page) (rs : List Row) :
    (q.placedOn p).addRows (q.placedOn p).depth rs = (q.addRows q.depth rs).placedOn p := by
  have hplaced : placed p.depth ∘ Row.placedAt q.depth = Row.placedAt (p.depth + q.depth) := by
    funext r
    rw [Function.comp, Row.placedAt, Row.placedAt, placed_placed, Nat.add_assoc]
  simp [placedOn, addRows, hplaced]

/-- A step in place is the step on the page of its own, as long as that one stays within it. -/
theorem step_placedOn {q : Page} {op : Op} {l : Level} (h : q.level.after? op = some l) (p : Page) :
    (q.placedOn p).step op = (q.step op).placedOn p ∧ (q.step op).level = l := by
  have hline : ∀ t, (q.placedOn p).addLine t = (q.addLine t).placedOn p := by
    intro t
    rw [addLine_eq, addLine_eq, addRows_placedOn]
  cases op with
  | line t => exact ⟨hline t, Option.some.inj h⟩
  | splice t =>
    have hrows : ∀ r : Page, r.step (.splice t) = r.addRows r.depth ((spliced t).map (Row.mk 0)) :=
      fun r => foldl_addLine r _
    rw [hrows, hrows, addRows_placedOn]
    exact ⟨rfl, Option.some.inj h⟩
  | indent => exact ⟨rfl, Option.some.inj h⟩
  | dedent =>
    rw [Level.after?] at h
    split at h
    · cases h
    · next hdepth =>
      have hdepth : q.depth ≠ 0 := hdepth
      refine ⟨?_, Option.some.inj h⟩
      simp only [step, placedOn, mk.injEq, true_and, and_true]
      omega
  | enter header footer =>
    refine ⟨?_, Option.some.inj h⟩
    rw [step, step, hline]
    rfl
  | leave =>
    rw [Level.after?] at h
    split at h
    · cases h
    · next hopen =>
      obtain ⟨hdepth, hblocks⟩ := not_or.1 hopen
      have hdepth : q.depth ≠ 0 := hdepth
      -- The block that is left is one of the page's own.
      obtain ⟨lines, depth, footers⟩ := q
      cases footers with
      | nil => exact absurd rfl hblocks
      | cons footer rest =>
        refine ⟨?_, Option.some.inj h⟩
        have hlevel : p.depth + depth - 1 = p.depth + (depth - 1) := by
          have : depth ≠ 0 := hdepth
          omega
        simp [step, placedOn, addLine, hlevel, placed_placed]

/-- Operations that are run in place write the page that they write on their own. -/
theorem run_placedOn {q : Page} {ops : List Op} {l : Level} (h : q.level.run? ops = some l) (p : Page) :
    (q.placedOn p).run ops = (q.run ops).placedOn p ∧ (q.run ops).level = l := by
  induction ops generalizing q with
  | nil => exact ⟨rfl, Option.some.inj h⟩
  | cons op ops ih =>
    obtain ⟨k, hk, hops⟩ := Level.exists_of_run?_cons h
    obtain ⟨hstep, hlevel⟩ := step_placedOn hk p
    obtain ⟨hrun, hend⟩ := ih (hlevel ▸ hops)
    exact ⟨(congrArg (run · ops) hstep).trans hrun, hend⟩

end Page

/-- What is written as a line is one line. Spliced text may have many. -/
def Op.IsPlain : Op → Prop
  | .line t => IsLine t
  | .enter header footer => IsLine header ∧ IsLine footer
  | .splice _ | .indent | .dedent | .leave => True

instance : (op : Op) → Decidable op.IsPlain
  | .line t => inferInstanceAs (Decidable (IsLine t))
  | .enter header footer => inferInstanceAs (Decidable (IsLine header ∧ IsLine footer))
  | .splice _ | .indent | .dedent | .leave => inferInstanceAs (Decidable True)

namespace Page

structure IsPlain (q : Page) : Prop where
  lines : ∀ t ∈ q.lines, IsLine t
  footers : ∀ t ∈ q.footers, IsLine t

theorem isLine_of_mem_spliced {s t : String} (h : t ∈ spliced s) : IsLine t := by
  unfold spliced at h
  split at h
  · cases h
  · obtain ⟨cs, hcs, rfl⟩ := List.mem_map.1 h
    rw [isLine_ofList]
    exact fun hfeed => absurd (Spelling.not_blank_of_mem_splitWhere hcs _ hfeed) (by decide)

theorem IsPlain.addLine {q : Page} (h : q.IsPlain) {t : String} (ht : IsLine t) : (q.addLine t).IsPlain where
  lines s hs := (Array.mem_push.1 hs).elim (h.lines s) fun he => he ▸ isLine_placed ht _
  footers := h.footers

theorem IsPlain.addLines {q : Page} (h : q.IsPlain) {ts : List String} (hts : ∀ t ∈ ts, IsLine t) :
    (ts.foldl Page.addLine q).IsPlain := by
  induction ts generalizing q with
  | nil => exact h
  | cons t ts ih =>
    have hts := List.forall_mem_cons.1 hts
    exact ih (h.addLine hts.1) hts.2

theorem IsPlain.step {q : Page} (h : q.IsPlain) {op : Op} (hop : op.IsPlain) : (q.step op).IsPlain := by
  cases op with
  | line t => exact h.addLine hop
  | splice t => exact h.addLines fun _ hs => isLine_of_mem_spliced hs
  | indent | dedent => exact ⟨h.lines, h.footers⟩
  | enter header footer =>
    exact ⟨(h.addLine hop.1).lines, List.forall_mem_cons.2 ⟨hop.2, h.footers⟩⟩
  | leave =>
    obtain ⟨lines, depth, footers⟩ := q
    cases footers with
    | nil => exact h
    | cons footer rest =>
      obtain ⟨hfooter, hrest⟩ := List.forall_mem_cons.1 h.footers
      have hleft : IsPlain ⟨lines, depth - 1, rest⟩ := ⟨h.lines, hrest⟩
      exact hleft.addLine hfooter

theorem IsPlain.run {q : Page} (h : q.IsPlain) {ops : List Op} (hops : ∀ op ∈ ops, op.IsPlain) : (q.run ops).IsPlain := by
  induction ops generalizing q with
  | nil => exact h
  | cons op ops ih =>
    have hops := List.forall_mem_cons.1 hops
    exact ih (h.step hops.1) hops.2

theorem isPlain_empty : IsPlain {} := ⟨nofun, nofun⟩

/-- The text of a page is spliced in line by line, unless it is empty. -/
theorem step_splice_text {q : Page} (hq : q.IsPlain) (hne : q.text ≠ "") (p : Page) :
    p.step (.splice q.text) = { p with lines := p.lines ++ q.lines.map (placed p.depth) } := by
  have hlines : q.lines.toList ≠ [] := by
    intro hnil
    refine hne ?_
    rw [text, hnil, String.intercalate_nil]
  have hread : spliced q.text = q.lines.toList := by
    rw [spliced, if_neg (mt String.isEmpty_iff.1 hne)]
    exact stringLines_intercalate hlines fun t ht => hq.lines t (Array.mem_toList_iff.1 ht)
  show (spliced q.text).foldl addLine p = _
  have hplaced : Row.placedAt p.depth ∘ Row.mk 0 = placed p.depth := rfl
  rw [foldl_addLine, hread, addRows, List.map_map, hplaced, ← Array.toList_map, Array.toArray_toList]

/-- Operations that come back to where they start can be written on a page of their own and spliced in: this gives the
    lines of running them in place, and in both ways the level is what it was. An empty text does not count, since
    nothing is spliced in for it. -/
theorem step_splice_write {ops : List Op} (hops : ∀ op ∈ ops, op.IsPlain) (hback : ComesBack ops) (hne : write ops ≠ "")
    (p : Page) :
    (p.step (.splice (write ops))).lines = (p.run ops).lines ∧
      (p.step (.splice (write ops))).text = (p.run ops).text ∧
      (p.step (.splice (write ops))).depth = p.depth ∧ (p.run ops).depth = p.depth := by
  obtain ⟨l, hrun, hdepth⟩ := hback.exists_run?
  obtain ⟨hrunOn, hlevel⟩ := run_placedOn (q := {}) hrun p
  rw [empty_placedOn] at hrunOn
  have hend : (Page.run {} ops).depth = 0 := (congrArg Level.depth hlevel).trans hdepth
  have hsplice : p.step (.splice (write ops)) =
      { p with lines := p.lines ++ (Page.run {} ops).lines.map (placed p.depth) } :=
    step_splice_text (isPlain_empty.run hops) hne p
  have hlines : (p.step (.splice (write ops))).lines = (p.run ops).lines := by
    rw [hsplice, hrunOn]
    rfl
  refine ⟨hlines, by rw [text, text, hlines], by rw [hsplice], ?_⟩
  rw [hrunOn, placedOn, hend, Nat.add_zero]

def branches : List Op :=
  [.enter "if ready \x7b" "\x7d", .splice "let n = 1;\n\n    use(n);", .dedent, .line "\x7d else \x7b", .indent, .line "",
    .line "return;", .leave]

theorem step_splice_write_branches :
    (∀ op ∈ branches, op.IsPlain) ∧ ComesBack branches ∧ write branches ≠ "" ∧
      ((Page.run {} [.line "start", .indent, .indent]).step (.splice (write branches))).lines =
        #["start", "        if ready \x7b", "            let n = 1;", "", "                use(n);", "        \x7d else \x7b", "",
          "            return;", "        \x7d"] := by
  have hops : ∀ op ∈ branches, op.IsPlain := by decide
  have hback : ComesBack branches := by decide
  have hne : write branches ≠ "" := by decide
  refine ⟨hops, hback, hne, ?_⟩
  rw [(step_splice_write hops hback hne (Page.run {} [.line "start", .indent, .indent])).1]
  decide

end Page
end RingBridge.Layout
