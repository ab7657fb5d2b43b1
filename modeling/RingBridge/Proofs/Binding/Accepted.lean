import RingBridge.Proofs.Binding.Loops
import RingBridge.Proofs.Code.Facts
import RingBridge.Proofs.Module.Kinds
/-!
Values that are accepted. An option, the items of a vector and its optional items take values of one kind, which is
decided by the shape apart from the kind that a parameter of the shape is checked for. The two kinds differ for slices,
and for references to what is not read as a number.
-/
namespace RingBridge
open Code

def Facts.Accepts (f : Facts) (idx : Int) (k : Kind) : Prop :=
  f.kind (.slot (.argument idx)) = some k ∧ (k = .string ∨ k = .pointer → f.blank (.slot (.argument idx)) = false)

def Facts.AcceptsItem (f : Facts) (slot : Slot) : Kind → Prop
  | .pointer => f.kind (.slot slot) = some .pointer ∧ f.blank (.slot slot) = false ∨
      f.kind (.slot slot) = some .list ∧ f.kind (.first slot) = some .pointer ∧ f.blank (.first slot) = false
  | k => f.kind (.slot slot) = some k

namespace Shape

/-- Options and items of the shape are read as numbers, though the argument itself is checked for another kind. -/
def isMisread : Shape → Bool
  | slice _ _ _ => true
  | reference (named _ _) _ _ => false
  | reference t _ _ => t.checked? != some .number
  | boxed t _ => t.isMisread
  | _ => false

theorem itemKind_eq_iff {k : Kind} : (s : Shape) → s.checked? = some k → (s.itemKind = k ↔ s.isMisread = false)
  | boxed t _, h => itemKind_eq_iff t h
  | reference t _ _, h => by
    have hnumber : (Kind.number = k ↔ (t.checked? != some .number) = false) := by
      rw [show t.checked? = some k from h]
      cases k <;> decide
    cases t with
    | named n _ => exact iff_of_true (Option.some.inj h) rfl
    | _ => exact hnumber
  | slice _ _ _, h => by
    obtain rfl := Option.some.inj h
    exact iff_of_false (fun h => by cases h) (fun h => by cases h)
  | number _, h | text _, h | boolean, h | unit, h | result _ _, h | tuple _ _, h | mapping _ _ _, h | named _ _, h
  | unknown _, h | vector _ _, h => iff_of_true (Option.some.inj h) rfl

theorem isOptional_of_checked {k : Kind} : (s : Shape) → s.checked? = some k → s.isOptional = false
  | boxed t _, h => isOptional_of_checked t h
  | number _, _ | text _, _ | boolean, _ | unit, _ | result _ _, _ | tuple _ _, _ | mapping _ _ _, _ | named _ _, _
  | unknown _, _ | vector _ _, _ | slice _ _ _, _ | reference _ _ _, _ => rfl

theorem itemKind_of_pointee {s : Shape} {p : Pointee} (h : s.pointee? = some p) : s.itemKind = .pointer := by
  cases s with
  | named n _ => rfl
  | reference t m _ => cases t <;> first | rfl | cases h
  | _ => cases h

theorem itemKind_ne_pointer : (s : Shape) → s.unbox.1.pointee? = none → s.itemKind ≠ .pointer
  | boxed t _, h => itemKind_ne_pointer t h
  | named n _, h => by cases h
  | reference t m _, h => by
    cases t with
    | named n _ => cases h
    | _ => exact fun he => by cases he
  | number _, _ | text _, _ | boolean, _ | unit, _ | result _ _, _ | tuple _ _, _ | mapping _ _ _, _ | unknown _, _
  | vector _ _, _ | slice _ _ _, _ | option _ _, _ => fun he => by cases he

theorem itemKind_unbox : (s : Shape) → s.unbox.1.itemKind = s.itemKind
  | boxed t _ => itemKind_unbox t
  | number _ | text _ | boolean | unit | result _ _ | tuple _ _ | mapping _ _ _ | named _ _ | unknown _ | vector _ _
  | slice _ _ _ | option _ _ | reference _ _ _ => rfl

end Shape

theorem Facts.acceptsItem_iff (f : Facts) {k : Kind} (hk : k ≠ .pointer) (slot : Slot) :
    f.AcceptsItem slot k ↔ f.kind (.slot slot) = some k := by
  cases k with
  | pointer => exact absurd rfl hk
  | _ => rfl

namespace Binding
variable {f : Facts} {κ : Known}

theorem listPointer_under (ptr list i : String) (n : NameScope) : (listPointer ptr list i n).1.Under f κ fun τ =>
    f.isBlank (τ.vars ptr) = false ↔ f.AcceptsItem (.item list (.var i)) .pointer := by
  apply Under.letChain
  · intro hpointer
    have hkind : f.kind (.slot (.item list (.var i))) = some .pointer := of_decide_eq_true hpointer
    apply Under.line rfl
    simp [Facts.AcceptsItem, Facts.isBlank, hkind]
  · intro hpointer hlist
    have hkind : f.kind (.slot (.item list (.var i))) = some .list := of_decide_eq_true hlist
    apply Under.seq
    apply Under.line rfl
    apply Under.line rfl
    by_cases hfirst : f.kind (.first (.item list (.var i))) = some .pointer
    · simp [Facts.AcceptsItem, Facts.isBlank, Facts.holds, hkind, hfirst]
    · simp [Facts.AcceptsItem, Facts.isBlank, Facts.holds, hkind, hfirst]
  · intro hpointer hlist
    have hpointer : f.kind (.slot (.item list (.var i))) ≠ some .pointer := of_decide_eq_false hpointer
    have hlist : f.kind (.slot (.item list (.var i))) ≠ some .list := of_decide_eq_false hlist
    apply Under.line rfl
    simp [Facts.AcceptsItem, Facts.isBlank, hpointer, hlist]

theorem bindLeaf_under {s : Shape} (hs : IsLeaf s) (boxes : Nat) (value list i : String) (n : NameScope) :
    (bindLeaf s boxes value list i n).1.Under f κ fun τ =>
      τ.vars value = .some ↔ f.AcceptsItem (.item list (.var i)) s.itemKind := by
  obtain ⟨hunbox, hkind⟩ := hs
  unfold bindLeaf
  cases hp : s.pointee? with
  | none =>
    have hne := s.itemKind_ne_pointer (by rw [hunbox, hp])
    rw [f.acceptsItem_iff hne, hkind hp]
    apply Under.line rfl
    by_cases h : f.kind (.slot (.item list (.var i))) = some s.scalarKind
    · simp [h]
    · simp [h]
  | some p =>
    rw [Shape.itemKind_of_pointee hp]
    apply Under.seq
    apply Under.weaken (listPointer_under _ list i _)
    intro τ hτ
    rw [← hτ]
    apply Under.letIf
    · intro hnull
      apply Under.line rfl
      simp [show f.isBlank (τ.vars _) = true from hnull]
    · intro hnull
      apply Under.line rfl
      simp [show f.isBlank (τ.vars _) = false from hnull]

/-- An optional item is `Some` exactly where the item is of the kind. -/
theorem optionalItem_under (s : Shape) (boxes : Nat) : ∀ (value list i : String) (n : NameScope),
    (optionalItem s boxes value list i n).1.Under f κ fun τ =>
      τ.vars value = .some ↔ f.AcceptsItem (.item list (.var i)) s.itemKind := by
  induction s, boxes using optionalItem_induction with
  | boxed s sp boxes ih => exact ih
  | vector s sp boxes =>
    intro value list i n
    show Under f κ _ fun τ => τ.vars value = .some ↔ f.kind _ = some .list
    apply Under.letIf
    · intro hlist
      apply Under.seq
      apply Under.line rfl
      apply Under.seq
      apply Under.weaken (.of_through (goes_fill (fills_of_goes (goes_element s 0)) ..).through)
      intro τ _
      apply Under.line rfl
      have hkind : f.kind (.slot (.item list (.var i))) = some .list := of_decide_eq_true hlist
      simp [hkind]
    · intro hlist
      apply Under.line rfl
      have hkind : f.kind (.slot (.item list (.var i))) ≠ some .list := of_decide_eq_false hlist
      simp [hkind]
  | leaf s boxes hs =>
    have hread : optionalItem s boxes = bindLeaf s boxes := reader_optionalLeaf hs boxes
    exact hread ▸ bindLeaf_under (isLeaf_of_readsLeaf hs) boxes

theorem collect_through (target : String) (s : Shape) (idx : Int) (mutable : Bool) (n : NameScope) :
    (collect target s idx mutable n).1.Through fun _ => True := by
  have hfill : ∀ vec list m, (fill (element s 0) vec list m).1.Through fun _ => True :=
    fun vec list m => (goes_fill (fills_of_goes (goes_element s 0)) vec list m).through.weaken fun _ _ => trivial
  unfold collect
  cases hview : s.isTextView with
  | true =>
    simp only [if_true]
    exact .line_seq rfl (.seq ((hfill _ _ _).weaken fun _ _ => .line rfl trivial))
  | false =>
    simp only [Bool.false_eq_true, if_false]
    refine .line_seq rfl (.seq ((hfill _ _ _).weaken fun _ _ => ?_))
    cases mutable with
    | true => exact .line rfl trivial
    | false => exact .skip trivial

/-- After the branch for texts, which gives nothing, the branch for a kind decides. -/
theorem chain_under {name : String} {idx : Int} {k : Kind} {body : Code} (hk : k ≠ .string)
    (hbody : f.kind (.slot (.argument idx)) = some k → body.Under f κ fun τ => τ.last = .some ↔ f.Accepts idx k) :
    (Code.letChain name (.isKind .string (.argument idx)) (.line (.yield .none)) (.isKind k (.argument idx)) body
      (.line (.yield .none))).Under f κ fun τ => τ.vars name = .some ↔ f.Accepts idx k := by
  have hnone : f.kind (.slot (.argument idx)) ≠ some k → (Code.line (.yield .none)).Under f κ fun τ =>
      (τ.set name τ.last).vars name = .some ↔ f.Accepts idx k := by
    intro hkind
    apply Under.line rfl
    simp [Facts.Accepts, hkind]
  apply Under.letChain
  · intro hstring
    have hstring : f.kind (.slot (.argument idx)) = some .string := of_decide_eq_true hstring
    exact hnone fun h => hk (Option.some.inj (h.symm.trans hstring))
  · intro _ hkind
    apply (hbody (of_decide_eq_true hkind)).weaken
    intro τ hτ
    rw [Known.vars_set_self]
    exact hτ
  · intro _ hkind
    exact hnone (of_decide_eq_false hkind)

/-- An optional argument is `Some` exactly where the argument is of the kind of an item of the shape. -/
theorem optional_under (name : String) (s : Shape) (idx : Int) (n : NameScope) :
    (optional name s idx n).1.Under f κ fun τ => τ.vars name = .some ↔ f.Accepts idx s.itemKind := by
  have hboxed := fun t sp => Shape.unbox_ne_boxed t sp s
  have hnumber : ∀ {e : Expr}, f.kind (.slot (.argument idx)) = some .number →
      (Code.line (.yield (.some e))).Under f κ fun τ => τ.last = .some ↔ f.Accepts idx .number := by
    intro e hkind
    apply Under.line rfl
    simp [Facts.Accepts, hkind]
  have hpointer : ∀ {ptr struct : String} {e : Expr}, f.kind (.slot (.argument idx)) = some .pointer →
      (Code.seq (.line (.bind false ptr (.handle idx struct)))
        (.line (.yield (.cond (.isNull ptr) .none (.some e))))).Under f κ
        fun τ => τ.last = .some ↔ f.Accepts idx .pointer := by
    intro ptr struct e hkind
    apply Under.seq
    apply Under.line rfl
    apply Under.line rfl
    cases hblank : f.blank (.slot (.argument idx)) with
    | true => simp [Facts.holds, Facts.isBlank, Facts.Accepts, hkind, hblank]
    | false => simp [Facts.holds, Facts.isBlank, Facts.Accepts, hkind, hblank]
  rw [← Shape.itemKind_unbox]
  unfold optional
  generalize s.unbox = unboxed at hboxed
  obtain ⟨t, boxes⟩ := unboxed
  cases t with
  | boxed t sp => exact absurd rfl (hboxed t sp)
  | text sp =>
    show Under f κ _ fun τ => τ.vars name = .some ↔ f.Accepts idx .string
    apply Under.letIf
    · intro hstring
      have hkind : f.kind (.slot (.argument idx)) = some .string := of_decide_eq_true hstring
      apply Under.seq
      apply Under.line rfl
      apply Under.line rfl
      cases hblank : f.blank (.slot (.argument idx)) with
      | true => simp [Facts.holds, Facts.isBlank, Facts.Accepts, hkind, hblank]
      | false => simp [Facts.holds, Facts.isBlank, Facts.Accepts, hkind, hblank]
    · intro hstring
      have hkind : f.kind (.slot (.argument idx)) ≠ some .string := of_decide_eq_false hstring
      apply Under.line rfl
      simp [Facts.Accepts, hkind]
  | vector t _ =>
    refine chain_under (k := .list) (by decide) fun hkind => ?_
    apply Under.seq
    apply Under.weaken (.of_through (collect_through _ t idx false _))
    intro τ _
    apply Under.line rfl
    simp [Facts.Accepts, hkind]
  | number w | boolean => exact chain_under (by decide) hnumber
  | named struct sp => exact chain_under (by decide) hpointer
  | reference t m sp =>
    cases t with
    | named struct _ => exact chain_under (by decide) hpointer
    | _ => exact chain_under (by decide) hnumber
  | _ => exact chain_under (by decide) hnumber

def IsItemLoop (b : Binding) (idx : Int) (l : Loop) : Prop :=
  ∃ rest loops, b.gets = [.seq (.line (.bind false l.list (.list (.argument idx)))) rest] ∧ b.loops = l :: loops

/-- As an option, a shape is there for the arguments of a kind; as items of a vector, for the items of the kind, and no
    others. -/
structure TakesKind (name : String) (idx : Int) (t : Shape) (k : Kind) : Prop where
  option (sp : String) : ∃ c, (ofShape name idx (.option t sp)).gets = [c] ∧
    ∀ (f : Facts) (κ : Known), c.Under f κ fun τ => τ.vars name = .some ↔ f.Accepts idx k
  items (sp : String) : ∃ l, IsItemLoop (ofShape name idx (.vector t sp)) idx l ∧
    ∀ (f : Facts) (κ : Known) p r, l.body.Path p r → f.Agrees κ p → r = true ∧ pushes l.vec p ≤ 1 ∧
      (pushes l.vec p = 1 ↔ f.AcceptsItem (.item l.list (.var l.index)) k)
  optionalItems (sp sp' : String) : ∃ l, IsItemLoop (ofShape name idx (.vector (.option t sp) sp')) idx l ∧
    ∀ (f : Facts) (κ : Known) p r, l.body.Path p r → f.Agrees κ p →
      r = true ∧ ∃ q x, p = q ++ [.stmt (.push l.vec (.var x))] ∧
      ((f.after κ q).vars x = .some ↔ f.AcceptsItem (.item l.list (.var l.index)) k)

theorem holds_iff_acceptsItem {s : Shape} {list i : String} {before : List Step} {t : Test}
    (h : TestsItem s list i before t) (hagree : f.Agrees κ before) :
    f.holds (f.after κ before) t = true ↔ f.AcceptsItem (.item list (.var i)) s.itemKind := by
  unfold TestsItem at h
  cases hp : s.unbox.1.pointee? with
  | none =>
    rw [hp] at h
    obtain ⟨rfl, rfl⟩ := h
    rw [f.acceptsItem_iff (s.itemKind_ne_pointer hp)]
    exact decide_eq_true_iff
  | some p =>
    rw [hp] at h
    obtain ⟨ptr, n, hpath, rfl⟩ := h
    have hblank : f.isBlank ((f.after κ before).vars ptr) = false ↔ _ :=
      (listPointer_under ptr list i n _ _ hpath hagree).2
    rw [← Shape.itemKind_unbox, Shape.itemKind_of_pointee hp, ← hblank]
    show (!f.isBlank _) = true ↔ _
    rw [Bool.not_eq_true']

/-- Each turn pushes an item exactly if it is of the kind. -/
theorem PushesByItem.accepts {l : Loop} {s : Shape} (h : PushesByItem l s) (hs : s.isOptional = false) {p : List Step}
    {r : Bool} (hp : l.body.Path p r) (hagree : f.Agrees κ p) : r = true ∧ pushes l.vec p ≤ 1 ∧
      (pushes l.vec p = 1 ↔ f.AcceptsItem (.item l.list (.var l.index)) s.itemKind) := by
  obtain ⟨hr, -, hle, -, htested⟩ := h p r hp
  obtain ⟨before, t, holds, after, rfl, ht, hbefore, hafter⟩ := htested hs
  obtain ⟨hagree, hrest⟩ := (f.agrees_append ..).1 hagree
  have hholds := (f.agrees_test.1 hrest).1
  have hcount : pushes l.vec (.move (.test t holds) :: after) = pushes l.vec after :=
    List.countP_cons_of_neg (by simp [Step.pushesTo])
  refine ⟨hr, hle, ?_⟩
  rw [← holds_iff_acceptsItem ht hagree, hholds, pushes_append, hbefore, hcount, hafter]
  cases holds <;> decide

theorem exists_itemLoop {name : String} (hname : IsApart name) (idx : Int) (s : Shape) (sp : String) :
    ∃ l n, IsItemLoop (ofShape name idx (.vector s sp)) idx l ∧ l.body = (element s 0 l.vec l.list l.index n).1 ∧
      PushesByItem l s := by
  obtain ⟨vec, list, m, rest, hvec, hcode, hloops⟩ := exists_fill_collect name s idx false {}
  have hfill : (ofShape name idx (.vector s sp)).loops = (fill (element s 0) vec list m).1.loops := by
    rw [loops, ofShape, List.flatMap_singleton]
    exact hloops
  refine ⟨⟨vec, list, (m.fresh "i").1, (element s 0 vec list (m.fresh "i").1 (m.fresh "i").2).1⟩, (m.fresh "i").2,
    ⟨rest, _, congrArg (fun c => [c]) hcode, hfill⟩, rfl, ?_⟩
  · exact pushesByItem ((hvec hname).notMem_since (goes_element s 0 ..).leads)

/-- The kind of an item is what a shape takes everywhere but as an argument of its own. -/
theorem takesKind_itemKind {name : String} (hname : IsApart name) (idx : Int) {t : Shape} (ht : t.isOptional = false) :
    TakesKind name idx t t.itemKind where
  option sp := ⟨_, rfl, fun f κ => optional_under name t idx {}⟩
  items sp := by
    obtain ⟨l, n, hl, -, hpushes⟩ := exists_itemLoop hname idx t sp
    exact ⟨l, hl, fun f κ p r hp hagree => hpushes.accepts ht hp hagree⟩
  optionalItems sp sp' := by
    obtain ⟨l, n, hl, hbody, -⟩ := exists_itemLoop hname idx (.option t sp) sp'
    refine ⟨l, hl, fun f κ p r hp hagree => ?_⟩
    rw [hbody] at hp
    have hitem : Under f κ _ _ := optionalItem_under t 0 (n.fresh "item").1 l.list l.index (n.fresh "item").2
    cases hp with
    | left hread => exact absurd (hitem _ _ hread hagree).1 Bool.false_ne_true
    | seq hread hpush =>
      cases hpush
      obtain ⟨hagree, -⟩ := (f.agrees_append ..).1 hagree
      exact ⟨rfl, _, _, rfl, (hitem _ _ hread hagree).2⟩

/-- A value of one kind tells two kinds apart. -/
theorem TakesKind.unique {name : String} {idx : Int} {t : Shape} {k k' : Kind} (h : TakesKind name idx t k)
    (h' : TakesKind name idx t k') : k = k' := by
  obtain ⟨c, hc, hsome⟩ := h.option ""
  obtain ⟨c', hc', hsome'⟩ := h'.option ""
  obtain rfl : c = c' := List.singleton_inj.1 (hc.symm.trans hc')
  let f : Facts := ⟨fun _ => some k, fun _ => false⟩
  let κ : Known := ⟨fun _ => .other, .other⟩
  obtain ⟨p, r, hp, hagree⟩ := exists_agreeing f κ c
  have haccepts : f.Accepts idx k := ⟨rfl, fun _ => rfl⟩
  have hbound := (hsome f κ p r hp hagree).2.2 haccepts
  exact Option.some.inj ((hsome' f κ p r hp hagree).2.1 hbound).1

theorem checked_of_checks {name : String} {idx : Int} {t : Shape} {k : Kind}
    (h : (ofShape name idx t).checks = [.check k idx]) : t.checked? = some k := by
  rw [checks_ofShape, Shape.checkLine] at h
  cases hc : t.checked? with
  | none =>
    rw [hc] at h
    cases h
  | some k' =>
    rw [hc] at h
    have hkind : Stmt.check k' idx = .check k idx := List.singleton_inj.1 h
    cases hkind
    rfl

/-- Of a shape that a parameter is checked for a kind of, options, items and optional items take the values of one kind.
    It is the kind that is checked, unless the shape is a slice, or a reference, other than to a named type, to what is
    not checked for a number: then it is the numbers. -/
theorem takesKind_iff (x : String) (i : Nat) (t : Shape) {k : Kind}
    (h : (ofShape (Wrapper.localName x i) i t).checks = [.check k i]) :
    TakesKind (Wrapper.localName x i) i t t.itemKind ∧
      (TakesKind (Wrapper.localName x i) i t k ↔ t.isMisread = false) := by
  have hchecked := checked_of_checks h
  have htakes := takesKind_itemKind (Wrapper.isLocal_localName x i).isApart i (t.isOptional_of_checked hchecked)
  refine ⟨htakes, ?_⟩
  rw [← t.itemKind_eq_iff hchecked]
  exact ⟨fun hk => htakes.unique hk, fun he => he ▸ htakes⟩

/-- A counter is taken as a pointer wherever it stands. -/
theorem takesKind_counter :
    (ofShape (Wrapper.localName "c" 1) 1 (.named "Counter" "Counter")).checks = [.check .pointer 1] ∧
    TakesKind (Wrapper.localName "c" 1) 1 (.named "Counter" "Counter") .pointer := by
  have hchecks : (ofShape (Wrapper.localName "c" 1) 1 (.named "Counter" "Counter")).checks = [.check .pointer 1] := rfl
  exact ⟨hchecks, (takesKind_iff "c" 1 _ hchecks).2.2 rfl⟩

/-- A slice is checked for a list, and taken as a number otherwise. -/
theorem takesKind_slice_not : (ofShape "x" 1 (.slice (.number .i32) false "&[i32]")).checks = [.check .list 1] ∧
    ¬ TakesKind "x" 1 (.slice (.number .i32) false "&[i32]") .list := by
  have hlocal : IsLocal "x" := .inr (by decide)
  have htakes := takesKind_itemKind hlocal.isApart 1 (t := .slice (.number .i32) false "&[i32]") rfl
  exact ⟨rfl, fun h => absurd (htakes.unique h) (by decide)⟩

end Binding
end RingBridge
