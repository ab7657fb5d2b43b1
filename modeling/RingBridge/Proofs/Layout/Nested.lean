import RingBridge.Proofs.Layout.Rows
import RingBridge.Proofs.Text.Braces
/-!
Rows that are nested: each goes in by the braces that are open before it. Lines that are written from nested rows are
indented by their braces.
-/
namespace RingBridge.Text

def Fronted (s : String) : Prop := s.toList.head?.any (· != ' ') = true

instance (s : String) : Decidable (Fronted s) := inferInstanceAs (Decidable (_ = true))

def leading (s : String) : Nat := (s.toList.takeWhile (· == ' ')).length

def closes (s : String) : Bool := (s.toList.dropWhile (· == ' ')).head? == some '\x7d'

/-- Goes in by four blanks for each of `k` open braces, and by four less if a closing brace comes first. -/
def IsIndented (k : Nat) (s : String) : Prop := leading s + (if closes s then 4 else 0) = 4 * k

instance (k : Nat) (s : String) : Decidable (IsIndented k s) := inferInstanceAs (Decidable (_ = _))

theorem Fronted.append {s : String} (h : Fronted s) (t : String) : Fronted (s ++ t) := by
  unfold Fronted at h ⊢
  rw [String.toList_append]
  cases hs : s.toList with
  | nil =>
    rw [hs] at h
    cases h
  | cons c r => rwa [hs] at h

/-- A name of which no character is a blank, before other text. -/
theorem fronted_append {x s : String} (hx : ' ' ∉ x.toList) (hs : Fronted s) : Fronted (x ++ s) := by
  unfold Fronted at hs ⊢
  rw [String.toList_append]
  cases hx' : x.toList with
  | nil => exact hs
  | cons c r =>
    rw [hx', List.mem_cons, not_or] at hx
    simpa using Ne.symm hx.1

/-- Nothing is closed before anything is open. -/
theorem Turns.closes_eq_false {j : Nat} {s : String} (h : Turns 0 j s) : closes s = false := by
  unfold Turns braces at h
  unfold closes
  generalize s.toList = cs at h ⊢
  induction cs with
  | nil => rfl
  | cons c r ih =>
    obtain ⟨k, hk, hr⟩ := Option.bind_eq_some_iff.1 h
    by_cases hc : c = ' '
    · subst hc
      obtain rfl : 0 = k := Option.some.inj hk
      exact ih hr
    · have hne : c ≠ '\x7d' := by
        rintro rfl
        cases hk
      rw [List.dropWhile_cons_of_neg (by simpa using hc)]
      simpa using hne

end RingBridge.Text

namespace RingBridge.Layout
open Text

/-- The row leads from `i` open braces to `j`, and is empty or has the level that belongs to `i`. -/
structure Row.Fits (i j : Nat) (r : Row) : Prop where
  turns : Turns i j r.text
  level : r.text = "" ∨ Fronted r.text ∧ r.depth + (if closes r.text then 1 else 0) = i

/-- The rows lead from `i` open braces to the last number, and each fits in its place. -/
inductive Nested : Nat → List Row → Nat → Prop
  | nil (i : Nat) : Nested i [] i
  | cons {i j k : Nat} {r : Row} {rs : List Row} (head : r.Fits i j) (tail : Nested j rs k) : Nested i (r :: rs) k

variable {i j k : Nat} {r : Row} {rs rs' : List Row}

theorem Row.Fits.nested (h : r.Fits i j) : Nested i [r] j := .cons h (.nil j)

theorem Nested.append (h : Nested i rs j) (h' : Nested j rs' k) : Nested i (rs ++ rs') k := by
  induction h with
  | nil i => exact h'
  | cons head tail ih => exact .cons head (ih h')

theorem Nested.flatMap {α : Type} {as : List α} {rows : α → List Row} (h : ∀ a ∈ as, Nested i (rows a) i) :
    Nested i (as.flatMap rows) i := by
  induction as with
  | nil => exact .nil i
  | cons a as ih =>
    have h := List.forall_mem_cons.1 h
    exact h.1.append (ih h.2)

theorem Nested.exists_of_append (h : Nested i (rs ++ rs') k) : ∃ j, Nested i rs j ∧ Nested j rs' k := by
  induction rs generalizing i with
  | nil => exact ⟨i, .nil i, h⟩
  | cons r rs ih =>
    cases h with
    | cons head tail =>
      obtain ⟨j, hrs, hrs'⟩ := ih tail
      exact ⟨j, .cons head hrs, hrs'⟩

theorem Row.Fits.deeper (h : r.Fits i j) : r.deeper.Fits (i + 1) (j + 1) where
  turns := h.turns.add 1
  level := by
    refine h.level.imp_right fun ⟨hfront, hdepth⟩ => ⟨hfront, ?_⟩
    rw [← hdepth, Row.deeper, Nat.add_right_comm]

theorem Nested.deeper (h : Nested i rs j) : Nested (i + 1) (rs.map Row.deeper) (j + 1) := by
  induction h with
  | nil i => exact .nil (i + 1)
  | cons head tail ih => exact .cons head.deeper ih

/-- A line between blocks, or the first one of a block. -/
theorem fits_outer {t : String} (h : Turns 0 j t) (hfront : Fronted t) : Row.Fits 0 j ⟨0, t⟩ where
  turns := h
  level := .inr ⟨hfront, by rw [h.closes_eq_false]; rfl⟩

theorem fits_empty (i : Nat) (depth : Nat) : Row.Fits i i ⟨depth, ""⟩ := ⟨turns_empty i, .inl rfl⟩

/-- A line that starts with the closing brace of a block. -/
theorem fits_closing {t : String} (h : Turns 1 j t) (hclose : t.toList.head? = some '\x7d') : Row.Fits 1 j ⟨0, t⟩ where
  turns := h
  level := by
    refine .inr ⟨?_, ?_⟩
    · rw [Fronted, hclose]
      rfl
    · cases ht : t.toList with
      | nil =>
        rw [ht] at hclose
        cases hclose
      | cons c r =>
        obtain rfl : c = '\x7d' := by simpa [ht] using hclose
        rw [closes, ht]
        rfl

/-- A block of rows that are nested in its header. -/
theorem Nested.block {header footer : String} (h : Nested 1 rs 1) (hh : Turns 0 1 header) (hfront : Fronted header)
    (hf : Turns 1 0 footer ∧ footer.toList.head? = some '\x7d') : Nested 0 (Layout.block header footer rs) 0 :=
  ((fits_outer hh hfront).nested.append h).append (fits_closing hf.1 hf.2).nested

/-- The footer of most blocks. -/
theorem turns_brace : Turns 1 0 "\x7d" ∧ "\x7d".toList.head? = some '\x7d' := by decide

theorem isBraceless_indentation (depth : Nat) : IsBraceless (indentation depth) := by
  have hblank : ∀ c ∈ (indentation depth).toList, c = ' ' := by
    rw [indentation, String.toList_ofList]
    exact fun c hc => List.eq_of_mem_replicate hc
  exact ⟨fun hm => absurd (hblank _ hm) (by decide), fun hm => absurd (hblank _ hm) (by decide)⟩

theorem turns_placedAt (h : Turns i j r.text) (depth : Nat) : Turns i j (r.placedAt depth) := by
  unfold Row.placedAt placed
  split
  · next he =>
    rw [String.isEmpty_iff.1 he] at h
    exact h
  · exact Turns.append ((isBraceless_indentation _).isLevel.turns i) h

theorem leading_indentation {t : String} (h : Fronted t) (depth : Nat) :
    leading (indentation depth ++ t) = 4 * depth ∧ closes (indentation depth ++ t) = closes t := by
  unfold Fronted at h
  unfold leading closes
  rw [String.toList_append, indentation, String.toList_ofList]
  cases ht : t.toList with
  | nil =>
    rw [ht] at h
    cases h
  | cons c r =>
    rw [ht] at h
    have hc : (c == ' ') = false := by simpa using h
    simp [hc]

/-- A row is written as an empty line, or as one that is indented by the braces before it. -/
theorem Row.Fits.isIndented (h : r.Fits i j) (hne : r.placedAt 0 ≠ "") : IsIndented i (r.placedAt 0) := by
  unfold Row.placedAt placed at hne ⊢
  split at hne
  · exact absurd rfl hne
  · next he =>
    obtain ⟨hfront, hdepth⟩ := h.level.resolve_left fun ht => he (String.isEmpty_iff.2 ht)
    obtain ⟨hleading, hcloses⟩ := leading_indentation hfront (0 + r.depth)
    rw [if_neg he, IsIndented, hleading, hcloses, ← hdepth, Nat.zero_add, Nat.mul_add]
    split <;> rfl

/-- The lines of nested rows lead where the rows do. -/
theorem Nested.turns (h : Nested i rs j) : Turns i j ("\n".intercalate (rs.map (Row.placedAt 0))) := by
  have hfeed : IsBraceless "\n" := by decide
  induction h with
  | nil i =>
    rw [List.map_nil, String.intercalate_nil]
    exact turns_empty i
  | @cons i j k r rs head tail ih =>
    cases rs with
    | nil =>
      cases tail
      simpa using turns_placedAt head.turns 0
    | cons q qs =>
      rw [List.map_cons, List.map_cons, String.intercalate_cons_cons]
      exact ((turns_placedAt head.turns 0).append (hfeed.isLevel.turns j)).append ih

/-- Each line of nested rows is empty or indented by the braces that are open before it. -/
theorem Nested.isIndented (h : Nested i rs j) {before after : List String} {l : String}
    (hl : rs.map (Row.placedAt 0) = before ++ l :: after) (hne : l ≠ "") :
    ∃ k, Turns i k ("\n".intercalate before) ∧ IsIndented k l := by
  obtain ⟨front, rest, rfl, rfl, hrest⟩ := List.map_eq_append_iff.1 hl
  obtain ⟨r, back, rfl, rfl, rfl⟩ := List.map_eq_cons_iff.1 hrest
  obtain ⟨k, hfront, hback⟩ := h.exists_of_append
  cases hback with
  | cons head tail => exact ⟨k, hfront.turns, head.isIndented hne⟩

end RingBridge.Layout
