import RingBridge.Proofs.Source.Balanced
import RingBridge.Source.Item
/-!
What a step reads, told by marks alone: from cells with some marks it succeeds, gives a value, reports nothing and
leaves cells with other marks. Steps in a row are read one after the other.
-/
namespace RingBridge.Source

def Cursor.marks (s : Cursor) : List Mark := s.cells.map Cell.mark

def Word.isNamed (w : Word) (text : String) : Bool := (w.kind == .ident || w.kind == .punct) && w.text == text

def namedAt (ms : List Mark) (text : String) (offset : Nat := 0) : Bool :=
  match ms[offset]? with
  | some m => m.word.isNamed text
  | none => false

theorem isAt_eq {cs : List Cell} {ms : List Mark} (h : cs.map Cell.mark = ms) (text : String) (offset : Nat) :
    isAt cs text offset = namedAt ms text offset := by
  subst h
  rw [isAt, namedAt, List.getElem?_map]
  cases cs[offset]? <;> rfl

namespace Read

variable {α β : Type} {ms ns os : List Mark} {P : α → Prop} {Q : β → Prop}

def Reads (m : Read α) (ms : List Mark) (P : α → Prop) (ns : List Mark) : Prop :=
  ∀ s : Cursor, s.marks = ms → ∃ a t, m s = .ok a t ∧ P a ∧ t.marks = ns ∧ t.notices = s.notices

theorem Reads.bind {m : Read α} {f : α → Read β} (hm : Reads m ms P ns) (hf : ∀ a, P a → Reads (f a) ns Q os) :
    Reads (m >>= f) ms Q os := by
  intro s hs
  obtain ⟨a, t, e, ha, ht, hn⟩ := hm s hs
  obtain ⟨b, u, e', hb, hu, hn'⟩ := hf a ha t ht
  refine ⟨b, u, ?_, hb, hu, hn'.trans hn⟩
  simp only [Bind.bind, EStateM.bind, e, e']

theorem Reads.pure {a : α} (h : P a) : Reads (Pure.pure a) ms P ms := fun s hs => ⟨a, s, rfl, h, hs, rfl⟩

theorem reads_cells : Reads cells ms (fun cs => cs.map Cell.mark = ms) ms := fun s hs => ⟨_, s, rfl, hs, hs, rfl⟩

theorem reads_at (text : String) (offset : Nat) : Reads (at_ text offset) ms (· = namedAt ms text offset) ms :=
  fun s hs => ⟨_, s, rfl, isAt_eq hs text offset, hs, rfl⟩

theorem Reads.at {text : String} {offset : Nat} {m n : Read α} (h : namedAt ms text offset = true)
    (hm : Reads m ms P ns) : Reads (at_ text offset >>= fun b => if b = true then m else n) ms P ns := by
  refine (reads_at text offset).bind fun b hb => ?_
  rw [if_pos (hb.trans h)]
  exact hm

theorem Reads.not_at {text : String} {offset : Nat} {m n : Read α} (h : namedAt ms text offset = false)
    (hn : Reads n ms P ns) : Reads (at_ text offset >>= fun b => if b = true then m else n) ms P ns := by
  refine (reads_at text offset).bind fun b hb => ?_
  rw [if_neg (by rw [hb.trans h]; decide)]
  exact hn

theorem reads_atEnd : Reads atEnd ms (· = ms.isEmpty) ms := by
  intro s hs
  refine ⟨_, s, rfl, ?_, hs, rfl⟩
  rw [← hs, Cursor.marks, List.isEmpty_map]

theorem Reads.not_end {m n : Read α} (hne : ms ≠ []) (hn : Reads n ms P ns) :
    Reads (atEnd >>= fun b => if b = true then m else n) ms P ns := by
  refine reads_atEnd.bind fun b hb => ?_
  rw [if_neg (by rw [hb, List.isEmpty_eq_false_iff.2 hne]; decide)]
  exact hn

theorem reads_skip {m : Mark} : Reads skip (m :: ms) (fun _ => True) ms := by
  intro s hs
  refine ⟨(), _, rfl, trivial, ?_, rfl⟩
  rw [Cursor.marks, List.map_tail, ← Cursor.marks, hs, List.tail_cons]

theorem cells_of_marks {s : Cursor} {m : Mark} (h : s.marks = m :: ms) :
    ∃ c r, s.cells = c :: r ∧ c.mark = m ∧ r.map Cell.mark = ms := List.map_eq_cons_iff.1 h

theorem reads_expect {w : Word} {i : Option Nat} {text : String} (h : w.text = text) :
    Reads (expect text) (⟨w, i⟩ :: ms) (fun _ => True) ms := by
  intro s hs
  obtain ⟨c, r, hc, hm, hr⟩ := cells_of_marks hs
  have ht : c.token.text = text := (congrArg (fun m => m.word.text) hm).trans h
  exact ⟨c.token, { s with cells := r }, by simp only [expect, hc, ht, if_true], trivial, hr, rfl⟩

theorem reads_expectIdent {x : String} {i : Option Nat} {what : String} :
    Reads (expectIdent what) (⟨⟨.ident, x⟩, i⟩ :: ms) (fun t => t.text = x) ms := by
  intro s hs
  obtain ⟨c, r, hc, hm, hr⟩ := cells_of_marks hs
  have hk : c.token.kind = .ident := congrArg (fun m => m.word.kind) hm
  have ht : c.token.text = x := congrArg (fun m => m.word.text) hm
  exact ⟨c.token, { s with cells := r }, by simp only [expectIdent, hc, hk, if_true], ht, hr, rfl⟩

theorem reads_skipGroup {w : Word} {c : Mark} {inner : List Mark} :
    Reads skipGroup (⟨w, some inner.length⟩ :: (inner ++ c :: ms)) (fun i => i.marks = inner) ms := by
  intro s hs
  obtain ⟨o, r, ho, hm, hr⟩ := cells_of_marks hs
  have hi : o.inside = some inner.length := congrArg Mark.inside hm
  refine ⟨_, { s with cells := r.drop (inner.length + 1) }, by simp only [skipGroup, ho, hi]; rfl, ?_, ?_, rfl⟩
  · show (r.take inner.length).map Cell.mark = inner
    rw [List.map_take, hr, List.take_left]
  · show (r.drop (inner.length + 1)).map Cell.mark = ms
    rw [List.map_drop, hr, ← List.drop_drop, List.drop_left]
    rfl

theorem Reads.within {inner : Cursor} {m : Read α} {is left : List Mark} (hm : Reads m is P left)
    (hi : inner.marks = is) : Reads (within inner m) ms P ms := by
  intro s hs
  obtain ⟨a, t, e, ha, _⟩ := hm inner hi
  exact ⟨a, s, by simp only [Read.within, e], ha, hs, rfl⟩

/-- A group whose inside is read by one step and left. -/
theorem Reads.group {w : Word} {c : Mark} {inner left : List Mark} {m : Read α} (hm : Reads m inner P left) :
    Reads (skipGroup >>= fun i => Read.within i m) (⟨w, some inner.length⟩ :: (inner ++ c :: ms)) P ms :=
  reads_skipGroup.bind fun _ hi => hm.within hi

section
variable {step : Bool → Read (Option α)} {h : ∀ first, Advances (step first)}

theorem reads_collect_nil (first : Bool) : Reads (collect step h first) [] (· = []) [] := by
  intro s hs
  have hc : s.cells = [] := List.map_eq_nil_iff.1 hs
  refine ⟨[], s, ?_, rfl, hs, rfl⟩
  rw [collect]
  split
  · rfl
  · next hc' => rw [hc] at hc'; simp at hc'

theorem reads_collect_cons {first : Bool} {a : α} {as : List α} (hne : ms ≠ [])
    (hs : Reads (step first) ms (· = some a) ns) (hr : Reads (collect step h false) ns (· = as) os) :
    Reads (collect step h first) ms (· = a :: as) os := by
  intro s hm
  have hc : s.cells ≠ [] := fun he => hne (by rw [← hm, Cursor.marks, he]; rfl)
  obtain ⟨b, t, e, hb, ht, hn⟩ := hs s hm
  subst hb
  obtain ⟨bs, u, e', hbs, hu, hn'⟩ := hr t ht
  subst hbs
  refine ⟨a :: bs, u, ?_, rfl, hu, hn'.trans hn⟩
  rw [collect]
  split
  · next he => exact absurd he hc
  · split
    · next he => rw [e] at he; simp at he
    · next he => rw [e] at he; simp at he
    · next he =>
      rw [e] at he
      cases he
      rw [e']

end

def Unadorned (ms : List Mark) : Prop := ∀ m, ms.head? = some m → m.word.kind ≠ .doc ∧ m.word.text ≠ "#"

theorem reads_attributes (h : Unadorned ms) : Reads attributes ms (· = []) ms := by
  intro s hs
  have hl : attributeList s.lastLine s.cells = .ok ([], s.cells) := by
    rw [attributeList.eq_def]
    split
    · next he => rw [he]
    · next c r he =>
      rw [Cursor.marks, he] at hs
      obtain ⟨hk, ht⟩ : c.token.kind ≠ .doc ∧ c.token.text ≠ "#" := h c.mark (by rw [← hs]; rfl)
      rw [if_neg hk, if_neg ht, he]
  exact ⟨[], s, by simp only [attributes, hl], rfl, hs, rfl⟩

theorem reads_visibility_pub (h : namedAt ms "(" = false) :
    Reads visibility (⟨⟨.ident, "pub"⟩, none⟩ :: ms) (· = true) ms :=
  .at rfl (reads_skip.bind fun _ _ => .not_at h (.pure rfl))

theorem reads_visibility (h : namedAt ms "pub" = false) : Reads visibility ms (· = false) ms := .not_at h (.pure rfl)

theorem reads_generics (h : namedAt ms "<" = false) : Reads generics ms (fun _ => True) ms := .not_at h (.pure trivial)

theorem reads_optional {text : String} (h : namedAt ms text = false) : Reads (optional text) ms (fun _ => True) ms :=
  .not_at h (.pure trivial)

theorem reads_skipWhere (h : namedAt ms "where" = false) : Reads skipWhere ms (fun _ => True) ms := by
  intro s hs
  have hw : isAt s.cells "where" = false := (isAt_eq hs _ _).trans h
  exact ⟨(), s, by simp only [skipWhere, hw]; rfl, trivial, hs, rfl⟩

end Read
end RingBridge.Source
