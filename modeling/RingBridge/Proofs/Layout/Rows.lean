import RingBridge.Layout
import RingBridge.Proofs.Text.Lines
/-!
What operations write, as rows: texts with a level that counts from where they are written. Operations that write
rows leave the level and the open blocks of a page as they were.
-/
namespace RingBridge.Layout
open Text

structure Row where
  depth : Nat
  text : String

namespace Row

def deeper (r : Row) : Row := { r with depth := r.depth + 1 }

def placedAt (depth : Nat) (r : Row) : String := placed (depth + r.depth) r.text

theorem placedAt_deeper (depth : Nat) (r : Row) : r.deeper.placedAt depth = r.placedAt (depth + 1) := by
  rw [placedAt, placedAt, deeper, Nat.add_assoc, Nat.add_comm 1]

end Row

theorem indentation_add (a b : Nat) : indentation (a + b) = indentation a ++ indentation b := by
  rw [indentation, indentation, indentation, ← String.ofList_append, List.replicate_append_replicate, Nat.mul_add]

/-- Lines that are placed a second time go in by both levels. -/
theorem placed_placed (a b : Nat) (t : String) : placed a (placed b t) = placed (a + b) t := by
  unfold placed
  cases ht : t.isEmpty with
  | true => rfl
  | false =>
    have hne : (indentation b ++ t).isEmpty = false := by
      simp only [String.isEmpty_eq_false_iff, ne_eq, String.append_eq_empty_iff, not_and] at ht ⊢
      exact fun _ => ht
    simp [hne, indentation_add, String.append_assoc]

theorem isLine_placed {t : String} (h : IsLine t) (depth : Nat) : IsLine (placed depth t) := by
  unfold placed
  split
  · decide
  · refine isLine_append.2 ⟨?_, h⟩
    rw [indentation, isLine_ofList]
    exact fun hm => absurd (List.eq_of_mem_replicate hm) (by decide)

namespace Page

def addRows (p : Page) (depth : Nat) (rs : List Row) : Page :=
  { p with lines := p.lines ++ (rs.map (Row.placedAt depth)).toArray }

theorem addRows_nil (p : Page) (depth : Nat) : p.addRows depth [] = p := by simp [addRows]

theorem addRows_append (p : Page) (depth : Nat) (rs rs' : List Row) :
    p.addRows depth (rs ++ rs') = (p.addRows depth rs).addRows depth rs' := by
  simp [addRows]

theorem addLine_eq (p : Page) (t : String) : p.addLine t = p.addRows p.depth [⟨0, t⟩] := by
  simp [addLine, addRows, Row.placedAt]

end Page

/-- The operations write the rows, wherever they are run. -/
def Writes (ops : List Op) (rs : List Row) : Prop := ∀ p : Page, p.run ops = p.addRows p.depth rs

/-- Inside a block, the operations write the rows, whose level counts from outside it. -/
def WritesInside (ops : List Op) (rs : List Row) : Prop :=
  ∀ (p : Page) depth, p.depth = depth + 1 → p.run ops = p.addRows depth rs

theorem writes_nil : Writes [] [] := fun p => (p.addRows_nil _).symm

theorem writes_line (t : String) : Writes [.line t] [⟨0, t⟩] := fun p => p.addLine_eq t

theorem Writes.append {u v : List Op} {rs rs' : List Row} (hu : Writes u rs) (hv : Writes v rs') :
    Writes (u ++ v) (rs ++ rs') := by
  intro p
  rw [Page.run_append, hu, hv, Page.addRows_append]
  rfl

theorem writes_lines (ts : List String) : Writes (ts.map .line) (ts.map (Row.mk 0)) := by
  induction ts with
  | nil => exact writes_nil
  | cons t ts ih => exact (writes_line t).append ih

theorem Writes.flatMap {α : Type} {as : List α} {ops : α → List Op} {rows : α → List Row}
    (h : ∀ a ∈ as, Writes (ops a) (rows a)) : Writes (as.flatMap ops) (as.flatMap rows) := by
  induction as with
  | nil => exact writes_nil
  | cons a as ih =>
    have h := List.forall_mem_cons.1 h
    exact h.1.append (ih h.2)

theorem Writes.inside {ops : List Op} {rs : List Row} (h : Writes ops rs) : WritesInside ops (rs.map Row.deeper) := by
  intro p depth hp
  have hrows : (rs.map Row.deeper).map (Row.placedAt depth) = rs.map (Row.placedAt (depth + 1)) := by
    rw [List.map_map]
    exact List.map_congr_left fun r _ => r.placedAt_deeper depth
  rw [h p, hp, Page.addRows, Page.addRows, hrows]

theorem WritesInside.append {u v : List Op} {rs rs' : List Row} (hu : WritesInside u rs) (hv : WritesInside v rs') :
    WritesInside (u ++ v) (rs ++ rs') := by
  intro p depth hp
  rw [Page.run_append, hu p depth hp, hv (p.addRows depth rs) depth hp, Page.addRows_append]

/-- One step out, a line, and one step in again. -/
theorem writesInside_turn (t : String) : WritesInside [.dedent, .line t, .indent] [⟨0, t⟩] := by
  intro p depth hp
  simp [Page.run, Page.step, Page.addLine, Page.addRows, Row.placedAt, hp]

def block (header footer : String) (rs : List Row) : List Row := ⟨0, header⟩ :: rs ++ [⟨0, footer⟩]

theorem WritesInside.block {ops : List Op} {rs : List Row} (h : WritesInside ops rs) (header footer : String) :
    Writes (.enter header footer :: ops ++ [.leave]) (Layout.block header footer rs) := by
  intro p
  have henter : p.run (.enter header footer :: ops ++ [.leave]) =
      ((p.step (.enter header footer)).run ops).run [.leave] := by
    rw [List.cons_append, Page.run, List.foldl_cons]
    exact Page.run_append ..
  rw [henter, h _ p.depth rfl]
  simp [Page.run, Page.step, Page.addLine, Page.addRows, Row.placedAt, Layout.block]

def AreLines (rs : List Row) : Prop := ∀ r ∈ rs, IsLine r.text

theorem areLines_row {t : String} (h : IsLine t) (depth : Nat) : AreLines [⟨depth, t⟩] := List.forall_mem_singleton.2 h

theorem AreLines.append {rs rs' : List Row} (h : AreLines rs) (h' : AreLines rs') : AreLines (rs ++ rs') :=
  List.forall_mem_append.2 ⟨h, h'⟩

theorem AreLines.deeper {rs : List Row} (h : AreLines rs) : AreLines (rs.map Row.deeper) := by
  intro r hr
  obtain ⟨q, hq, rfl⟩ := List.mem_map.1 hr
  exact h q hq

theorem AreLines.block {rs : List Row} (h : AreLines rs) {header footer : String} (hh : IsLine header)
    (hf : IsLine footer) : AreLines (Layout.block header footer rs) :=
  ((areLines_row hh 0).append h).append (areLines_row hf 0)

theorem AreLines.placedAt {rs : List Row} (h : AreLines rs) (depth : Nat) : ∀ l ∈ rs.map (Row.placedAt depth), IsLine l := by
  intro l hl
  obtain ⟨r, hr, rfl⟩ := List.mem_map.1 hl
  exact isLine_placed (h r hr) _

theorem Row.placedAt_zero (t : String) : Row.placedAt 0 ⟨0, t⟩ = t := by
  rw [placedAt, placed]
  split
  · next h => exact (String.isEmpty_iff.1 h).symm
  · exact String.empty_append

/-- A line at a level of its own is empty or starts with a space. -/
theorem Row.head_placedAt_deeper (r : Row) {c : Char} (h : (r.deeper.placedAt 0).toList.head? = some c) : c = ' ' := by
  rw [placedAt, placed] at h
  split at h
  · cases h
  · have hspace : indentation (0 + r.deeper.depth) = String.ofList (' ' :: List.replicate (4 * r.depth + 3) ' ') := by
      rw [indentation, Nat.zero_add]
      rfl
    rw [hspace, String.toList_append, String.toList_ofList, List.cons_append, List.head?_cons] at h
    exact (Option.some.inj h).symm

/-- The lines that are written on an empty page. -/
theorem Writes.write_eq {ops : List Op} {rs : List Row} (h : Writes ops rs) :
    write ops = "\n".intercalate (rs.map (Row.placedAt 0)) := by
  rw [write, h {}, Page.text, Page.addRows]
  simp

theorem foldl_addLine (p : Page) (ts : List String) : ts.foldl Page.addLine p = p.addRows p.depth (ts.map (Row.mk 0)) :=
  (List.foldl_map (f := Op.line) (g := Page.step)).symm.trans (writes_lines ts p)

theorem writes_splice (t : String) : Writes [.splice t] ((Page.spliced t).map (Row.mk 0)) := fun p => foldl_addLine p _

/-- Rows that were laid out on their own are spliced in with their levels. -/
theorem Writes.splice {ops : List Op} {rs : List Row} (h : Writes ops rs) (hrs : AreLines rs)
    (hne : (write ops).isEmpty = false) : Writes [.splice (write ops)] rs := by
  intro p
  have hnil : rs.map (Row.placedAt 0) ≠ [] := by
    intro hnil
    rw [h.write_eq, hnil] at hne
    exact absurd hne (by decide)
  -- The lines are read back with the indentation that they have, and that of the page comes before it.
  have hread : Page.spliced (write ops) = rs.map (Row.placedAt 0) := by
    rw [Page.spliced, hne, h.write_eq]
    exact stringLines_intercalate hnil (hrs.placedAt 0)
  have hplaced : ∀ r : Row, Row.placedAt p.depth ⟨0, r.placedAt 0⟩ = r.placedAt p.depth := by
    intro r
    simp only [Row.placedAt, Nat.add_zero, Nat.zero_add, placed_placed]
  have hrows : ((rs.map (Row.placedAt 0)).map (Row.mk 0)).map (Row.placedAt p.depth) = rs.map (Row.placedAt p.depth) := by
    rw [List.map_map, List.map_map]
    exact List.map_congr_left fun r _ => hplaced r
  show (Page.spliced (write ops)).foldl Page.addLine p = _
  rw [foldl_addLine, hread, Page.addRows, Page.addRows, hrows]

end RingBridge.Layout
