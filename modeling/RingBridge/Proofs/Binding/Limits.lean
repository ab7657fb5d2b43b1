import RingBridge.Proofs.Binding.Readers
import RingBridge.Proofs.Code.Limits
import RingBridge.Proofs.Shape.Names
/-!
The code of a binding does nothing but test and read its own argument, under the tags of the named types in its
shape. Every argument is checked or tested.
-/
namespace RingBridge
open Code

variable {L : Limits}

/-- The named types of a shape may be tagged, borrowed and written. -/
def Shape.Within (L : Limits) (s : Shape) : Prop := ∀ x ∈ s.names, L.tags x ∧ L.borrows x ∧ L.Allows x

theorem Pointee.value_within {p : Pointee} {ptr : String} (hp : L.borrows p.struct ∧ L.Allows p.struct)
    (hptr : L.Allows ptr) : (p.value ptr).Within L := by
  cases h : p.borrowed <;> simp [Pointee.value, h, hp, hptr]

theorem Shape.Within.pointee {s : Shape} (h : s.Within L) {p : Pointee} (hp : s.pointee? = some p) :
    L.tags p.struct ∧ L.borrows p.struct ∧ L.Allows p.struct :=
  h p.struct (names_of_pointee hp ▸ List.mem_singleton_self _)

@[simp] theorem Shape.scalar_within {s : Shape} {slot : Slot} : (s.scalar slot).Within L ↔ slot.Within L .read := by
  cases s <;> rfl

namespace Binding

def ItemReader.Within (L : Limits) (item : ItemReader) : Prop :=
  ∀ target list i n, L.Allows target → L.Allows list → L.Allows i → (item target list i n).1.Within L

theorem listPointer_within {ptr list i : String} (n : NameScope) (hptr : L.Allows ptr) (hlist : L.Allows list)
    (hi : L.Allows i) : (listPointer ptr list i n).1.Within L := by
  have hsub : L.Allows (n.fresh "sub").1 := Limits.allows_fresh_word n (by decide)
  simp [listPointer, Stmt.Within, hptr, hlist, hi, hsub]

theorem pushLeaf_within {s : Shape} (hs : s.Within L) (boxes : Nat) : (pushLeaf s boxes).Within L := by
  intro vec list i n hvec hlist hi
  unfold pushLeaf
  cases hp : s.pointee? with
  | none => simp [Stmt.Within, hvec, hlist, hi]
  | some p =>
    have hptr : L.Allows (n.fresh "ptr").1 := Limits.allows_fresh_word _ (by decide)
    simp [Stmt.Within, hvec, hptr, listPointer_within, hlist, hi, Pointee.value_within (hs.pointee hp).2]

theorem bindLeaf_within {s : Shape} (hs : s.Within L) (boxes : Nat) : (bindLeaf s boxes).Within L := by
  intro value list i n hvalue hlist hi
  unfold bindLeaf
  cases hp : s.pointee? with
  | none => simp [Stmt.Within, hvalue, hlist, hi]
  | some p =>
    have hptr : L.Allows (n.fresh "ptr").1 := Limits.allows_fresh_word _ (by decide)
    simp [Stmt.Within, hvalue, hptr, listPointer_within, hlist, hi, Pointee.value_within (hs.pointee hp).2]

theorem fill_within {item : ItemReader} (hitem : item.Within L) {vec list : String} (n : NameScope)
    (hvec : L.Allows vec) (hlist : L.Allows list) : (fill item vec list n).1.Within L := by
  have hi : L.Allows (n.fresh "i").1 := Limits.allows_fresh_word _ (by decide)
  exact ⟨⟨hvec, trivial⟩, hi, hlist, hitem _ _ _ _ hvec hlist hi⟩

theorem nested_within {item : ItemReader} (hitem : item.Within L) (finish : Expr → Stmt)
    (hfinish : ∀ x, L.Allows x → (finish (.var x)).Within L) {list i : String} (n : NameScope) (hlist : L.Allows list)
    (hi : L.Allows i) : (nested item list i finish n).1.Within L := by
  have hsub : L.Allows (n.fresh "sub").1 := Limits.allows_fresh_word _ (by decide)
  have hvec : L.Allows ((n.fresh "sub").2.fresh "inner").1 := Limits.allows_fresh_word _ (by decide)
  exact ⟨⟨hsub, hlist, hi⟩, fill_within hitem _ hvec hsub, hfinish _ hvec⟩

theorem reader_within (o : Bool) (s : Shape) (boxes : Nat) : s.Within L → (reader o s boxes).Within L := by
  induction o, s, boxes using reader_induction with
  | boxed o s sp boxes ih => exact fun hs => reader_boxed o s sp boxes ▸ ih hs
  | option s sp boxes ih =>
    intro hs vec list i n hvec hlist hi
    have hvalue : L.Allows (n.fresh "item").1 := Limits.allows_fresh_word _ (by decide)
    exact ⟨ih hs _ _ _ _ hvalue hlist hi, hvec, (Expr.within_boxes boxes).2 hvalue⟩
  | vector s sp boxes ih =>
    intro hs vec list i n hvec hlist hi
    exact ⟨⟨hlist, hi⟩, nested_within (ih hs) (fun e => .push vec (e.boxes boxes))
      (fun x hx => ⟨hvec, (Expr.within_boxes boxes).2 hx⟩) n hlist hi⟩
  | optionalVector s sp boxes ih =>
    intro hs value list i n hvalue hlist hi
    exact ⟨hvalue, ⟨hlist, hi⟩, nested_within (ih hs) (fun e => .yield (.some (e.boxes boxes)))
      (fun x hx => (Expr.within_boxes (e := .var x) boxes).2 hx) n hlist hi, trivial⟩
  | leaf s boxes hs => exact fun hwithin => reader_leaf hs boxes ▸ pushLeaf_within hwithin boxes
  | optionalLeaf s boxes hs => exact fun hwithin => reader_optionalLeaf hs boxes ▸ bindLeaf_within hwithin boxes

theorem allows_stem {x : String} (h : L.Allows x) : L.Allows (stem x) := by
  intro c hc
  rw [stem, Text.onText, String.toList_ofList] at hc
  exact h c ((List.dropWhile_suffix _).subset hc)

theorem collect_within {target : String} {s : Shape} {idx : Int} (mutable : Bool) (n : NameScope) (hs : s.Within L)
    (htarget : L.Allows target) (hread : L.accesses (.read idx)) : (collect target s idx mutable n).1.Within L := by
  have hlist : L.Allows (n.fresh (stem target ++ "_list")).1 :=
    Limits.allows_fresh (Limits.allows_append.2 ⟨allows_stem htarget, Limits.allows_of_word (by decide)⟩)
  cases hview : s.isTextView with
  | true =>
    have howned : L.Allows ((n.fresh (stem target ++ "_list")).2.fresh (stem target ++ "_owned")).1 :=
      Limits.allows_fresh (Limits.allows_append.2 ⟨allows_stem htarget, Limits.allows_of_word (by decide)⟩)
    simp only [collect, hview, if_true]
    exact ⟨⟨hlist, hread⟩, fill_within (reader_within false s 0 hs) _ howned hlist, htarget, howned⟩
  | false =>
    simp only [collect, hview]
    refine ⟨⟨hlist, hread⟩, fill_within (reader_within false s 0 hs) _ htarget hlist, ?_⟩
    cases mutable with
    | true => exact ⟨htarget, htarget⟩
    | false => trivial

theorem optional_within {name : String} {s : Shape} {idx : Int} (n : NameScope) (hs : s.Within L) (hname : L.Allows name)
    (hread : L.accesses (.read idx)) (htest : L.accesses (.test idx)) : (optional name s idx n).1.Within L := by
  have hs : s.unbox.1.Within L := by
    rwa [Shape.Within, Shape.names_unbox]
  unfold optional
  generalize s.unbox = unboxed at hs
  obtain ⟨t, boxes⟩ := unboxed
  have hstr : L.Allows (n.fresh "s").1 := Limits.allows_fresh_word _ (by decide)
  cases t with
  | text sp =>
    simp only
    split <;> simp [Stmt.Within, hname, hstr, hread, htest]
  | vector t _ =>
    have hvec : L.Allows ((n.fresh "s").2.fresh "vec").1 := Limits.allows_fresh_word _ (by decide)
    have hbody := collect_within (s := t) false ((n.fresh "s").2.fresh "vec").2 hs hvec hread
    simp [Stmt.Within, hname, htest, hbody, hvec]
  | number w | boolean => simp [Stmt.Within, hname, hread, htest]
  | _ =>
    simp only
    split
    · next p hp =>
      have hptr : L.Allows ((n.fresh "s").2.fresh "ptr").1 := Limits.allows_fresh_word _ (by decide)
      have hstruct := hs.pointee hp
      simp [Stmt.Within, hname, htest, hread, hptr, hstruct, Pointee.value_within hstruct.2 hptr]
    · simp [Stmt.Within, hname, hread, htest]

theorem guardedPointer_within {ptr struct : String} {idx : Int} (hptr : L.Allows ptr) (htag : L.tags struct)
    (hstruct : L.Allows struct) (hread : L.accesses (.read idx)) : (guardedPointer ptr idx struct).Within L :=
  ⟨⟨hptr, hread, htag, hstruct⟩, hptr, hstruct, trivial⟩

theorem allows_pointerName {name : String} (h : L.Allows name) : L.Allows (pointerName name) :=
  Limits.allows_append.2 ⟨Limits.allows_of_word (by decide), h⟩

theorem allows_sliceName {name : String} (h : L.Allows name) : L.Allows (sliceName name) :=
  Limits.allows_append.2 ⟨Limits.allows_append.2 ⟨Limits.allows_of_word (by decide), h⟩,
    Limits.allows_of_word (by decide)⟩

/-- What is passed on reads no argument and has no tag in it. -/
theorem arg_within {name : String} (idx : Int) (hname : L.Allows name) :
    (s : Shape) → (∀ x ∈ s.names, L.borrows x ∧ L.Allows x) → (ofShape name idx s).arg.Within L
  | .number _, _ | .boolean, _ | .unit, _ | .result _ _, _ | .tuple _ _, _ | .mapping _ _ _, _ | .unknown _, _
  | .vector _ _, _ | .option _ _, _ | .named _ _, _ => hname
  | .text sp, _ => by
    show (textArg name sp).Within L
    unfold textArg
    repeat' split
    all_goals exact hname
  | .slice _ _ _, _ => allows_sliceName hname
  | .boxed t _, hs => arg_within idx hname t hs
  | .reference t m _, hs => by
    have ih := arg_within idx hname t hs
    cases t with
    | named struct _ =>
      obtain ⟨hborrow, hstruct⟩ := hs struct (List.mem_singleton_self _)
      exact ⟨hborrow, allows_pointerName hname, hstruct⟩
    | _ => exact ih

/-- The code of a parameter tests and reads its own argument. -/
theorem gets_within {name : String} {idx : Int} (hname : L.Allows name) (hread : L.accesses (.read idx))
    (htest : L.accesses (.test idx)) : (s : Shape) → s.Within L → ∀ c ∈ (ofShape name idx s).gets, c.Within L
  | .number _, _ | .boolean, _ | .text _, _ | .unit, _ | .result _ _, _ | .tuple _ _, _ | .mapping _ _ _, _
  | .unknown _, _ => List.forall_mem_singleton.2 ⟨hname, hread⟩
  | .vector _ _, hs => List.forall_mem_singleton.2 (collect_within _ _ hs hname hread)
  | .slice _ _ _, hs => List.forall_mem_singleton.2 (collect_within _ _ hs (allows_sliceName hname) hread)
  | .option _ _, hs => List.forall_mem_singleton.2 (optional_within _ hs hname hread htest)
  | .named struct _, hs => by
    obtain ⟨htag, hborrow, hstruct⟩ := hs struct (List.mem_singleton_self _)
    have hptr := allows_pointerName hname
    exact List.forall_mem_singleton.2
      ⟨guardedPointer_within hptr htag hstruct hread, hname, hborrow, hptr, hstruct⟩
  | .boxed t _, hs => gets_within hname hread htest t hs
  | .reference t m _, hs => by
    have ih := gets_within hname hread htest t hs
    have hrebind : ∀ c ∈ if m && (ofShape name idx t).arg = .var name then [Code.line (.bind true name (.var name))] else [],
        c.Within L := by
      split
      · exact List.forall_mem_singleton.2 ⟨hname, hname⟩
      · nofun
    cases t with
    | named struct _ =>
      obtain ⟨htag, -, hstruct⟩ := hs struct (List.mem_singleton_self _)
      exact List.forall_mem_singleton.2 (guardedPointer_within (allows_pointerName hname) htag hstruct hread)
    | _ => exact List.forall_mem_append.2 ⟨ih, hrebind⟩

/-- Every argument is checked, or tested where it is read. -/
theorem exists_check_or_test (name : String) (idx : Int) : (s : Shape) →
    (∃ k, .check k idx ∈ (ofShape name idx s).checks) ∨
      ∃ c ∈ (ofShape name idx s).gets, ∃ k, .test (.isKind k (.argument idx)) ∈ c.atoms
  | .number _ | .boolean | .text _ | .unit | .result _ _ | .tuple _ _ | .mapping _ _ _ | .unknown _ | .named _ _
  | .vector _ _ | .slice _ _ _ => .inl ⟨_, List.mem_singleton_self _⟩
  | .option s _ => by
    refine .inr ⟨_, List.mem_singleton_self _, .string, ?_⟩
    unfold optional
    generalize s.unbox = unboxed
    obtain ⟨t, boxes⟩ := unboxed
    cases t with
    | text sp | vector t _ | number w | boolean => exact List.mem_cons_self ..
    | _ =>
      simp only
      split <;> exact List.mem_cons_self ..
  | .boxed t _ => exists_check_or_test name idx t
  | .reference t m _ => by
    have ih := exists_check_or_test name idx t
    cases t with
    | named _ _ => exact .inl ⟨_, List.mem_singleton_self _⟩
    | _ => exact ih.imp_right fun ⟨c, hc, h⟩ => ⟨c, List.mem_append_left _ hc, h⟩

end Binding
end RingBridge
