import RingBridge.Proofs.Source.Reported
/-!
What is read from ranges of a kind. What holds of the functions and structs that are read holds of the declarations of a
whole file, if what is left of a range and the inside of its groups are of the same kind.
-/
namespace RingBridge.Source

/-- A kind of ranges to which whatever is left of a range belongs as well. -/
class Inherited (I : List Cell → Prop) : Prop where
  suffix {cs ds : List Cell} (h : I cs) (hs : ds <:+ cs) : I ds

namespace Read
variable {α β : Type} {I J : List Cell → Prop} {P : α → Prop} {Q : β → Prop} {m n : Read α} {f : α → Read β}

def Yields (I : List Cell → Prop) (m : Read α) (P : α → Prop) : Prop := ∀ s a t, I s.cells → m s = .ok a t → P a

/-- Steps in a row succeed one after the other. -/
theorem exists_of_bind {s u : Cursor} {b : β} (e : (m >>= f) s = .ok b u) : ∃ a t, m s = .ok a t ∧ f a t = .ok b u := by
  simp only [Bind.bind, EStateM.bind] at e
  cases em : m s with
  | error g t =>
    rw [em] at e
    cases e
  | ok a t =>
    rw [em] at e
    exact ⟨a, t, rfl, e⟩

/-- A step that leaves a range of another kind. -/
theorem Yields.bindTo (hm : ∀ s a t, I s.cells → m s = .ok a t → P a ∧ J t.cells) (hf : ∀ a, P a → Yields J (f a) Q) :
    Yields I (m >>= f) Q := by
  intro s b u hs e
  obtain ⟨a, t, em, e⟩ := exists_of_bind e
  obtain ⟨ha, ht⟩ := hm s a t hs em
  exact hf a ha t b u ht e

theorem Yields.pure {a : α} (h : P a) : Yields I (Pure.pure a) P := by
  intro s b t _ e
  cases e
  exact h

theorem Yields.ite {c : Prop} [Decidable c] (hm : Yields I m P) (hn : Yields I n P) : Yields I (if c then m else n) P := by
  split <;> assumption

theorem Yields.none : Yields I (Pure.pure none) fun o => ∀ a ∈ o, P a := .pure (by simp)

theorem Yields.some {a : α} (h : P a) : Yields I (Pure.pure (some a)) fun o => ∀ b ∈ o, P b :=
  .pure fun _ hb => Option.some.inj hb ▸ h

theorem yields_fail (fault : Fault) : Yields I (fail fault) P := fun _ _ _ _ e => by cases e

theorem yields_failHere (cause : Cause) : Yields I (failHere cause) P := fun _ _ _ _ e => by cases e

theorem Yields.within {inner : Cursor} (hi : I inner.cells) (hm : Yields I m P) : Yields J (within inner m) P := by
  intro s a t _ e
  unfold Read.within at e
  split at e
  · next em =>
    cases e
    exact hm inner _ _ hi em
  · cases e

theorem subset_of_skipGroup {s i t : Cursor} (e : skipGroup s = .ok i t) : i.cells ⊆ s.cells := by
  unfold skipGroup at e
  split at e
  · next c r hc =>
    split at e
    · cases e
      exact fun d hd => hc ▸ List.mem_cons_of_mem c (List.mem_of_mem_take hd)
    · cases e
  · cases e

section
variable [Inherited I]

theorem Yields.bind (hk : Keeps m) (hm : Yields I m P) (hf : ∀ a, P a → Yields I (f a) Q) : Yields I (m >>= f) Q :=
  .bindTo (fun s a t hs e => ⟨hm s a t hs e, Inherited.suffix hs (hk.ok e)⟩) hf

/-- A step that comes after another one, whatever that reads. -/
theorem Yields.after (hk : Keeps m) (hf : ∀ a, Yields I (f a) Q) : Yields I (m >>= f) Q :=
  .bind hk (P := fun _ => True) (fun _ _ _ _ _ => trivial) fun a _ => hf a

/-- A loop reads what each of its steps reads. -/
theorem Yields.collect {step : Bool → Read (Option α)} {h : ∀ first, Advances (step first)}
    (hk : ∀ first, Keeps (step first)) (hstep : ∀ first, Yields I (step first) fun o => ∀ a ∈ o, P a) (first : Bool) :
    Yields I (collect step h first) fun as => ∀ a ∈ as, P a := by
  intro s as t hs e
  fun_induction Read.collect step h first s generalizing as t with
  | case1 =>
    cases e
    exact List.forall_mem_nil P
  | case2 => cases e
  | case3 =>
    cases e
    exact List.forall_mem_nil P
  | case4 => cases e
  | case5 first s c r hc a u hu bs v hv ih =>
    cases e
    -- What a step leaves is of the same kind, so the rest of the loop reads nothing else.
    refine List.forall_mem_cons.2 ⟨hstep first s _ u hs hu a rfl, ?_⟩
    exact ih bs _ (Inherited.suffix hs ((hk first).ok hu)) hv

end

structure ItemsYield (I : List Cell → Prop) (F : Function String → Prop) (T : Declaration String → Prop) : Prop where
  inside : Yields I skipGroup fun inner => I inner.cells
  function : ∀ isPublic docs, Yields I (function isPublic docs) F
  struct : ∀ isPublic docs, Yields I (struct isPublic docs) fun t => T (.struct t)
  func : ∀ f, F f → T (.func f)
  impl : ∀ i : Impl String, i.name ≠ "" → (∀ f ∈ i.methods, F f) → T (.impl i)

def Found.Holds (T : Declaration String → Prop) (x : Found) : Prop := ∀ decl, x = .declaration decl → T decl

namespace ItemsYield
variable [Inherited I] {F : Function String → Prop} {T : Declaration String → Prop} (h : ItemsYield I F T)
include h

theorem member (isPublic : Bool) (docs : List String) : Yields I (member isPublic docs) fun o => ∀ f ∈ o, F f := by
  refine .after keeps_cells fun cs => .ite (.bind (keeps_function _ _) (h.function _ _) fun g hg => .some hg) ?_
  split
  · exact yields_fail _
  · refine .ite (.after keeps_skipStatement fun _ => .none) (.ite ?_ (yields_fail _))
    exact .after keeps_skipMacro fun _ => .none

theorem methods : Yields I methods fun os => ∀ o ∈ os, ∀ f ∈ o, F f := by
  refine .collect (fun _ => keeps_method) (fun _ => ?_) true
  refine .after keeps_attributes fun docs => .after keeps_atEnd fun _ => .ite .none ?_
  refine .after keeps_visibility fun _ => .bind (keeps_member _ _) (h.member _ _) fun o ho => ?_
  exact .some ho

theorem implBody : Yields I implBody fun inner => I inner.cells :=
  .after (keeps_at _ _) fun _ => .ite h.inside (yields_failHere _)

theorem inherentImpl (line : Nat) (type : String) :
    Yields I (inherentImpl line type) fun o => ∀ i ∈ o, T (.impl i) := by
  refine .after keeps_skipWhere fun _ => .bind keeps_implBody h.implBody fun inner hinner => ?_
  dsimp only
  split
  · exact yields_fail _
  · next hname =>
    refine .bind (keeps_within _ _) (.within hinner h.methods) fun ms hms => .pure fun i hi => ?_
    cases hi
    refine h.impl _ (fun he => hname (String.isEmpty_iff.2 he)) fun f hf => ?_
    obtain ⟨o, ho, hfo⟩ := List.mem_filterMap.1 hf
    exact hms o ho f hfo

omit h in
theorem traitImpl (trait : String) : Yields I (traitImpl trait) fun o => ∀ i ∈ o, T (.impl i) := by
  refine .after keeps_skip fun _ => .after (keeps_readType _ _) fun _ => .after keeps_skipWhere fun _ => ?_
  exact .after keeps_implBody fun _ => .after (keeps_note _) fun _ => .none

theorem impls : Yields I Read.impl fun o => ∀ i ∈ o, T (.impl i) := by
  refine .after (keeps_optional _) fun _ => .after (keeps_expect _) fun _ => .after keeps_generics fun _ => ?_
  refine .after (keeps_optional _) fun _ => .after (keeps_readType _ _) fun _ => .after (keeps_at _ _) fun _ => ?_
  exact .ite (traitImpl _) (h.inherentImpl _ _)

theorem itemBody (isPublic : Bool) (docs : List String) (c : Cell) (cs : List Cell) :
    Yields I (itemBody isPublic docs c cs) fun o => ∀ decl ∈ o, T decl := by
  unfold Read.itemBody
  split
  · exact .bind (keeps_struct _ _) (h.struct _ _) fun t ht => .some ht
  · refine .bind keeps_impl h.impls fun o ho => .pure fun decl hd => ?_
    obtain ⟨i, hi, rfl⟩ := Option.map_eq_some_iff.1 hd
    exact ho i hi
  · exact .bind (keeps_function _ _) (h.function _ _) fun f hf => .some (h.func f hf)
  · exact .after keeps_skipStatement fun _ => .none
  · exact .after (keeps_noteAll _) fun _ => .after keeps_skipItem fun _ => .none
  · exact .after keeps_skipMacro fun _ => .none
  · exact yields_fail _

omit [Inherited I] h in
theorem nothing : Yields I (Pure.pure .nothing) (Found.Holds T) := .pure fun _ hx => by cases hx

theorem itemAt (isPublic : Bool) (docs : List String) (cs : List Cell) :
    Yields I (itemAt isPublic docs cs) (Found.Holds T) := by
  cases cs with
  | nil => exact nothing
  | cons c r =>
    refine .bind (keeps_itemBody _ _ _ _) (h.itemBody _ _ _ _) fun o ho => .pure fun decl hd => ?_
    cases o with
    | none => cases hd
    | some decl' =>
      cases hd
      exact ho _ rfl

theorem item : Yields I item (Found.Holds T) := by
  refine .after keeps_head fun _ => .after keeps_atEnd fun _ => .ite nothing ?_
  exact .after keeps_cells fun cs => h.itemAt _ _ cs

omit h in
theorem prefixDirective : Yields I prefixDirective (Found.Holds T) := by
  refine .after (keeps_expect _) fun _ => .after (keeps_expect _) fun _ => .after keeps_next fun t => ?_
  exact .ite (.after (keeps_expect _) fun _ => .pure fun _ hx => by cases hx) (yields_fail _)

theorem file : Yields I file fun found => ∀ x ∈ found, x.Holds T := by
  refine .collect (fun _ => .bind keeps_topLevel fun _ => .pure _) (fun _ => ?_) true
  refine .bind keeps_topLevel (P := Found.Holds T) ?_ fun x hx => .some hx
  exact .after keeps_cells fun cs => .ite prefixDirective h.item

theorem of_extension {notices : List Notice} {cs : List Cell} {s : Cursor} (hcs : I cs)
    (hs : extension? notices cs = some (.ok s)) : I s.cells := by
  fun_induction extension? notices cs with
  | case1 c b o r _ n hn =>
    cases hs
    have hgroup : I (o :: r) := Inherited.suffix hcs ⟨[c, b], rfl⟩
    obtain ⟨i, t, hskip, hi⟩ : ∃ i t, skipGroup ⟨o :: r, 0, []⟩ = .ok i t ∧ i.cells = r.take n := by
      simp only [skipGroup, hn]
      exact ⟨_, _, rfl, rfl⟩
    exact hi ▸ h.inside _ i t hgroup hskip
  | case2 => cases hs
  | case3 c b o r _ ih => exact ih (Inherited.suffix hcs (List.suffix_cons c _)) hs
  | case4 => cases hs

theorem of_readingRange {cs : List Cell} {s : Cursor} (hcs : I cs) (hs : readingRange cs = .ok s) : I s.cells := by
  rw [readingRange, Option.getD_eq_iff] at hs
  obtain hext | ⟨-, hall⟩ := hs
  · exact h.of_extension hcs hext
  · cases hall
    exact hcs

/-- Of every declaration of a text whose cells are of the kind. -/
theorem readSource {text moduleName : String} {d : Document String} (hcells : ∀ cs, cellsOf text = .ok cs → I cs)
    (hread : (readSource text moduleName).document = .ok d) : ∀ decl ∈ d.decls, T decl := by
  unfold Source.readSource at hread
  split at hread
  · cases hread
  · next cs hcs =>
    unfold readCells at hread
    split at hread
    · cases hread
    · next s hs =>
      split at hread
      · next found t hfound =>
        cases hread
        intro decl hd
        obtain ⟨x, hx, he⟩ := List.mem_filterMap.1 hd
        have hholds := h.file s found t (h.of_readingRange (hcells cs hcs) hs) hfound x hx
        split at he
        · cases he
          exact hholds _ rfl
        · cases he
      · cases hread

end ItemsYield
end Read
end RingBridge.Source
