import RingBridge.Proofs.Binding.Loops
/-!
Texts that are lent. The items of a list of borrowed text are read as owned texts and pushed to a vector. For the outermost
list of a parameter, a vector of views is made of it and handed on, and the owner stays where it is. Lists inside the items
of another list have no views: there the vector that owns the texts is itself handed on.
-/
namespace RingBridge
open Code NameScope

/-- The variables that an expression hands on as they are: alone, or in boxes, options, references and slices. -/
def Expr.carried : Expr → List String
  | var x => [x]
  | some e | box e | refer _ e | full e => e.carried
  | cond _ a b => a.carried ++ b.carried
  | _ => []

namespace Stmt

def carried : Stmt → List String
  | push _ e | yield e | bind _ _ e => e.carried
  | _ => []

def view? : Stmt → Option (String × String)
  | bindViews _ view owner => some (view, owner)
  | _ => none

def IsQuiet (s : Stmt) : Prop := s.view? = none ∧ ∀ vec e, s ≠ push vec e

end Stmt

def Code.stmts : Code → List Stmt
  | line s => [s]
  | seq a b | letIf _ _ a b => a.stmts ++ b.stmts
  | fragment c | when _ c | items _ _ c | each _ _ c | eachPair _ _ _ c | matchOption _ _ c _ | matchResult _ _ c _ =>
    c.stmts
  | letChain _ _ a₁ _ a₂ b => a₁.stmts ++ a₂.stmts ++ b.stmts
  | skip | matchDone _ _ | receive _ _ => []

def Code.carried (c : Code) : List String := c.stmts.flatMap Stmt.carried

def Loop.PushesText (l : Loop) : Prop := ∃ slot, l.body.stmts = [.push l.vec (.text slot)]

namespace Binding

def stmts (b : Binding) : List Stmt := b.gets.flatMap Code.stmts

def carried (b : Binding) : List String := b.stmts.flatMap Stmt.carried ++ b.arg.carried

/-- Views of a vector are handed on, made when all items are in it, and the vector itself is not. -/
structure Lends (b : Binding) (owner : String) : Prop where
  kept : owner ∉ b.carried
  viewed : ∃ before m view after, b.stmts = before ++ .bindViews m view owner :: after ∧ view ∈ b.carried ∧
    ∀ e, .push owner e ∉ after

structure HandsOver (b : Binding) (vec : String) : Prop where
  carried : vec ∈ b.carried
  unviewed : ∀ s ∈ b.stmts, ∀ view, s.view? ≠ some (view, vec)

theorem HandsOver.not_lends {b : Binding} {vec : String} (h : b.HandsOver vec) : ¬ b.Lends vec :=
  fun hl => hl.kept h.carried

theorem carried_boxes (e : Expr) (k : Nat) : (e.boxes k).carried = e.carried := by
  induction k with
  | zero => rfl
  | succ k ih => exact ih

theorem carried_value (p : Pointee) (ptr : String) : (p.value ptr).carried = [] := by
  unfold Pointee.value
  cases p.borrowed <;> rfl

theorem carried_scalar (s : Shape) (slot : Slot) : (s.scalar slot).carried = [] := by
  cases s <;> rfl

abbrev LoopsOver (loops : List Loop) (shapes : List Shape) : Prop :=
  List.Forall₂ (fun l t => t.isTextView = true → l.PushesText) loops shapes

/-- Code for one item: what it hands on are temporaries for items, each vector that is filled for a list inside the item is
    among them, and no views are made. -/
structure Inner (c : Code) (shapes : List Shape) : Prop where
  loops : LoopsOver c.loops shapes
  vectors : ∀ l ∈ c.loops, l.vec ∈ c.carried
  names : ∀ y ∈ c.carried, ¬ IsApart y
  views : ∀ s ∈ c.stmts, s.view? = none

theorem not_isApart_fresh (n : NameScope) {st : String} (h : st ∈ itemStems) : ¬ IsApart (n.fresh st).1 :=
  fun ha => ha st h _ rfl

/-- Code without lists inside that hands nothing on. -/
theorem Inner.leaf {c : Code} (hloops : c.loops = []) (hcarried : c.carried = [])
    (hviews : ∀ s ∈ c.stmts, s.view? = none) : Inner c [] where
  loops := hloops ▸ .nil
  vectors := by
    rw [hloops]
    nofun
  names := by
    rw [hcarried]
    nofun
  views := hviews

/-- What is put behind code for an item hands on more temporaries, if any. -/
theorem Inner.seq_line {c : Code} {shapes : List Shape} (h : Inner c shapes) {s : Stmt}
    (hnames : ∀ y ∈ s.carried, ¬ IsApart y) (hview : s.view? = none) : Inner (.seq c (.line s)) shapes where
  loops := by
    rw [loops_seq_line]
    exact h.loops
  vectors := by
    rw [loops_seq_line, Code.carried, Code.stmts, List.flatMap_append]
    exact fun l hl => List.mem_append_left _ (h.vectors l hl)
  names := by
    intro y hy
    rw [Code.carried, Code.stmts, List.flatMap_append] at hy
    obtain hy | hy := List.mem_append.1 hy
    · exact h.names y hy
    · exact hnames y (by simpa [Code.stmts] using hy)
  views := List.forall_mem_append.2 ⟨h.views, List.forall_mem_singleton.2 hview⟩

/-- A branch that yields nothing is put behind it. -/
theorem Inner.letIf_none {c : Code} {shapes : List Shape} (h : Inner c shapes) {x : String} {t : Test} :
    Inner (.letIf x t c (.line (.yield .none))) shapes where
  loops := by
    rw [show (Code.letIf x t c (.line (.yield .none))).loops = c.loops from List.append_nil _]
    exact h.loops
  vectors := by
    have hcarried : (Code.letIf x t c (.line (.yield .none))).carried = c.carried := by
      simp [Code.carried, Code.stmts, Stmt.carried, Expr.carried]
    rw [hcarried, show (Code.letIf x t c (.line (.yield .none))).loops = c.loops from List.append_nil _]
    exact h.vectors
  names := (h.seq_line (s := .yield .none) nofun rfl).names
  views := (h.seq_line (s := .yield .none) nofun rfl).views

theorem pushLeaf_inner (s : Shape) (boxes : Nat) (vec list i : String) (n : NameScope) :
    Inner (pushLeaf s boxes vec list i n).1 [] := by
  refine .leaf ?_ ?_ ?_
  all_goals
    unfold pushLeaf
    cases s.pointee? <;>
      simp [Code.loops, Code.carried, Code.stmts, listPointer, Stmt.carried, Expr.carried, carried_boxes, carried_value, carried_scalar,
        Stmt.view?]

theorem bindLeaf_inner (s : Shape) (boxes : Nat) (value list i : String) (n : NameScope) :
    Inner (bindLeaf s boxes value list i n).1 [] := by
  refine .leaf ?_ ?_ ?_
  all_goals
    unfold bindLeaf
    cases s.pointee? <;>
      simp [Code.loops, Code.carried, Code.stmts, listPointer, Stmt.carried, Expr.carried, carried_boxes, carried_value, carried_scalar,
        Stmt.view?]

/-- The loop over borrowed texts pushes them as owned ones. -/
theorem pushesText_element {s : Shape} (h : s.isTextView = true) (vec list i : String) (n : NameScope) :
    Loop.PushesText ⟨vec, list, i, (element s 0 vec list i n).1⟩ := by
  cases s with
  | text sp => exact ⟨_, rfl⟩
  | _ => cases h

/-- The list in an item is read into a temporary vector. -/
theorem exists_nested (item : ItemReader) (list i : String) (finish : Expr → Stmt) (n : NameScope) :
    ∃ sub inner j m, ¬ IsApart inner ∧ (nested item list i finish n).1 =
      .seq (.line (.bind false sub (.list (.item list (.var i)))))
        (.seq (.seq (.line (.bind true inner .newVec)) (.items j sub (item inner sub j m).1))
          (.line (finish (.var inner)))) :=
  ⟨_, _, _, _, not_isApart_fresh (n.fresh "sub").2 (by decide), rfl⟩

/-- The vector for the list in an item is handed on. -/
theorem nested_inner {s : Shape} (hs : ∀ vec list i n, Inner (element s 0 vec list i n).1 s.inside) (list i : String)
    (finish : Expr → Stmt) (hcarried : ∀ e, (finish e).carried = e.carried) (hview : ∀ e, (finish e).view? = none)
    (n : NameScope) : Inner (nested (element s 0) list i finish n).1 (s :: s.inside) := by
  obtain ⟨sub, inner, j, m, hinner, hcode⟩ := exists_nested (element s 0) list i finish n
  have hbody := hs inner sub j m
  have hall : (nested (element s 0) list i finish n).1.carried = (element s 0 inner sub j m).1.carried ++ [inner] := by
    have hbind : ∀ m x e, (Stmt.bind m x e).carried = e.carried := fun _ _ _ => rfl
    simp [hcode, Code.carried, Code.stmts, hbind, Expr.carried, hcarried]
  have hloops : (nested (element s 0) list i finish n).1.loops =
      ⟨inner, sub, j, (element s 0 inner sub j m).1⟩ :: (element s 0 inner sub j m).1.loops := by
    rw [hcode]
    exact List.append_nil _
  constructor
  · rw [hloops]
    exact .cons (fun h => pushesText_element h ..) hbody.loops
  · rw [hloops, hall]
    refine List.forall_mem_cons.2 ⟨List.mem_append_right _ (List.mem_singleton_self _), fun l hl => ?_⟩
    exact List.mem_append_left _ (hbody.vectors l hl)
  · rw [hall]
    exact List.forall_mem_append.2 ⟨hbody.names, List.forall_mem_singleton.2 hinner⟩
  · have hviews := hbody.views
    have hbind : ∀ m x e, (Stmt.bind m x e).view? = none := fun _ _ _ => rfl
    simpa [hcode, Code.stmts, hbind, hview, or_imp, forall_and] using hviews

theorem reader_inner (o : Bool) (s : Shape) (boxes : Nat) : ∀ (target list i : String) (n : NameScope),
    Inner (reader o s boxes target list i n).1 (if o then s.insideOptional else s.inside) := by
  induction o, s, boxes using reader_induction with
  | boxed o s sp boxes ih => exact reader_boxed o s sp boxes ▸ ih
  | option s sp boxes ih =>
    intro vec list i n
    refine (ih (n.fresh "item").1 list i (n.fresh "item").2).seq_line ?_ rfl
    rw [Stmt.carried, carried_boxes]
    exact List.forall_mem_singleton.2 (not_isApart_fresh n (by decide))
  | vector s sp boxes ih =>
    intro vec list i n
    have hnested := nested_inner ih list i (fun e => .push vec (e.boxes boxes)) (fun e => carried_boxes e boxes)
      (fun _ => rfl) n
    exact ⟨hnested.loops, hnested.vectors, hnested.names, hnested.views⟩
  | optionalVector s sp boxes ih =>
    intro value list i n
    have hnested := nested_inner ih list i (fun e => .yield (.some (e.boxes boxes))) (fun e => carried_boxes e boxes)
      (fun _ => rfl) n
    exact hnested.letIf_none
  | leaf s boxes hs => exact inside_leaf hs ▸ reader_leaf hs boxes ▸ pushLeaf_inner s boxes
  | optionalLeaf s boxes hs => exact insideOptional_leaf hs ▸ reader_optionalLeaf hs boxes ▸ bindLeaf_inner s boxes

def IsOwner (x : String) : Prop := ∃ lead k, x = numbered (lead ++ "_owned") k

theorem IsOwner.underscore {x : String} (h : IsOwner x) : '_' ∈ x.toList.drop 2 := by
  obtain ⟨lead, k, rfl⟩ := h
  rw [toList_numbered]
  simp

/-- The name of an owner does not end as that of a slice does. -/
theorem not_isOwner_sliceName (name : String) : ¬ IsOwner (sliceName name) := by
  rintro ⟨lead, k, he⟩
  rw [sliceName_eq_numbered] at he
  exact append_ne_vec lead name (by decide)
    ((endsPlain_collector lead (by decide)).eq_of_numbered (endsPlain_collector name (by decide)) he.symm)

theorem IsLocal.not_isOwner {name : String} (h : IsLocal name) : ¬ IsOwner name := by
  intro ho
  obtain ⟨i, rfl⟩ | h := h
  · have hdigits : '_' ∉ (toString i).toList := fun hm => absurd (isDigit_of_mem_toString hm) (by decide)
    exact hdigits (by simpa using ho.underscore)
  · obtain ⟨lead, k, rfl⟩ := ho
    rw [toList_numbered] at h
    exact h ⟨_, rfl⟩

/-- The variable of an optional vector. -/
theorem not_isOwner_vec (n : NameScope) : ¬ IsOwner (n.fresh "vec").1 := by
  intro ho
  have hmem := ho.underscore
  rw [NameScope.fresh, toList_numbered] at hmem
  have hdigit : '_' ∈ NameScope.digits (n.stems.count "vec") := by simpa using hmem
  exact absurd (isDigit_of_mem_digits hdigit) (by decide)

structure CollectsViews (c : Code) (target : String) (l : Loop) : Prop where
  loops : c.loops = [l]
  owner : IsOwner l.vec
  pushes : l.PushesText
  stmts : ∃ before m, c.stmts = before ++ [.bindViews m target l.vec]
  carried : c.carried = []

structure CollectsItems (c : Code) (target : String) (l : Loop) (shapes : List Shape) : Prop where
  loops : c.loops = l :: l.body.loops
  inner : Inner l.body shapes
  carried : ∀ y ∈ l.body.carried, y ∈ c.carried
  names : ∀ y ∈ c.carried, y ∈ l.body.carried ∨ y = target
  views : ∀ s ∈ c.stmts, s.view? = none

theorem collect_views (target : String) {s : Shape} (h : s.isTextView = true) (idx : Int) (mutable : Bool) (n : NameScope) :
    s.inside = [] ∧ ∃ l, CollectsViews (collect target s idx mutable n).1 target l := by
  cases s with
  | text sp =>
    unfold collect
    rw [h]
    exact ⟨rfl, _, ⟨rfl, ⟨_, _, rfl⟩, ⟨_, rfl⟩, ⟨[_, _, _], _, rfl⟩, rfl⟩⟩
  | _ => cases h

/-- Other items are pushed to the target itself, which may be made mutable in the end. -/
theorem exists_collect (target : String) {s : Shape} (h : s.isTextView = false) (idx : Int) (mutable : Bool)
    (n : NameScope) : ∃ list j m, (collect target s idx mutable n).1 =
      .seq (.line (.bind false list (.list (.argument idx))))
        (.seq (.seq (.line (.bind true target .newVec)) (.items j list (element s 0 target list j m).1))
          (if mutable then .line (.bind true target (.var target)) else .skip)) := by
  unfold collect
  rw [h]
  exact ⟨_, _, _, rfl⟩

theorem collect_items (target : String) {s : Shape} (h : s.isTextView = false) (idx : Int) (mutable : Bool)
    (n : NameScope) : ∃ l, CollectsItems (collect target s idx mutable n).1 target l s.inside := by
  obtain ⟨list, j, m, hcode⟩ := exists_collect target h idx mutable n
  have hbody : Inner (element s 0 target list j m).1 s.inside := reader_inner false s 0 target list j m
  generalize (element s 0 target list j m).1 = body at hcode hbody
  generalize hrebind : (if mutable then Code.line (.bind true target (.var target)) else .skip) = rebind at hcode
  have hnames : ∀ y ∈ rebind.carried, y = target := by
    subst hrebind
    cases mutable <;> simp [Code.carried, Code.stmts, Stmt.carried, Expr.carried]
  have hquiet : ∀ s ∈ rebind.stmts, s.view? = none := by
    subst hrebind
    cases mutable <;> simp [Code.stmts, Stmt.view?]
  have hcarried : (collect target s idx mutable n).1.carried = body.carried ++ rebind.carried := by
    simp [hcode, Code.carried, Code.stmts, Stmt.carried, Expr.carried]
  refine ⟨⟨target, list, j, body⟩, ?_, hbody, fun y hy => ?_, fun y hy => ?_, ?_⟩
  · rw [hcode]
    subst hrebind
    cases mutable <;> exact List.append_nil _
  · rw [hcarried]
    exact List.mem_append_left _ hy
  · rw [hcarried] at hy
    exact (List.mem_append.1 hy).imp_right (hnames y)
  · rw [hcode]
    refine List.forall_mem_cons.2 ⟨rfl, List.forall_mem_cons.2 ⟨rfl, ?_⟩⟩
    exact List.forall_mem_append.2 ⟨hbody.views, hquiet⟩

/-- The loops of a binding push texts where the items are borrowed texts; if those of the first loop are, their owner is
    lent, and the vectors of all other loops are handed on. -/
structure Delivers (b : Binding) (shapes : List Shape) : Prop where
  loops : LoopsOver b.loops shapes
  outermost : ∀ l ∈ b.loops.head?, ∀ t ∈ shapes.head?, t.isTextView = true → b.Lends l.vec
  nested : ∀ l ∈ b.loops.tail, b.HandsOver l.vec

theorem Delivers.of_nil {b : Binding} (h : b.loops = []) : b.Delivers [] where
  loops := h ▸ .nil
  outermost := by
    rw [h]
    nofun
  nested := by
    rw [h]
    nofun

/-- What comes behind the code of a parameter does not matter, as long as it hands on nothing else. -/
theorem Delivers.extend {b b' : Binding} {shapes : List Shape} (h : b.Delivers shapes) (hloops : b'.loops = b.loops)
    {behind : List Stmt} (hstmts : b'.stmts = b.stmts ++ behind) (hquiet : ∀ s ∈ behind, s.IsQuiet)
    (hcarried : ∀ y, y ∈ b'.carried ↔ y ∈ b.carried) : b'.Delivers shapes where
  loops := hloops ▸ h.loops
  outermost := by
    intro l hl t ht hview
    obtain ⟨hkept, before, m, view, after, hat, hin, hpush⟩ := h.outermost l (hloops ▸ hl) t ht hview
    refine ⟨fun hm => hkept ((hcarried _).1 hm), before, m, view, after ++ behind, ?_, (hcarried _).2 hin, fun e he => ?_⟩
    · rw [hstmts, hat, List.append_assoc, List.cons_append]
    · obtain he | he := List.mem_append.1 he
      · exact hpush e he
      · exact (hquiet _ he).2 _ e rfl
  nested := by
    intro l hl
    have hover := h.nested l (hloops ▸ hl)
    refine ⟨(hcarried _).2 hover.carried, fun s hs view => ?_⟩
    rw [hstmts] at hs
    obtain hs | hs := List.mem_append.1 hs
    · exact hover.unviewed s hs view
    · rw [(hquiet s hs).1]
      exact nofun

/-- A list is collected in a variable, which is then handed on. -/
theorem Delivers.of_collect {b : Binding} (target : String) (s : Shape) (idx : Int) (mutable : Bool) (n : NameScope)
    (before behind : List Stmt) (names : List String) (hloops : b.loops = (collect target s idx mutable n).1.loops)
    (hstmts : b.stmts = before ++ (collect target s idx mutable n).1.stmts ++ behind)
    (hquiet : ∀ s ∈ before ++ behind, s.IsQuiet)
    (hcarried : ∀ y, y ∈ b.carried ↔ y ∈ (collect target s idx mutable n).1.carried ∨ y ∈ names)
    (hnames : ∀ y ∈ names, ¬ IsOwner y) (htarget : target ∈ names) : b.Delivers (s :: s.inside) := by
  cases hview : s.isTextView with
  | true =>
    obtain ⟨hinside, l, hl⟩ := collect_views target hview idx mutable n
    rw [hl.loops] at hloops
    rw [hinside]
    refine ⟨hloops ▸ .cons (fun _ => hl.pushes) .nil, ?_, by rw [hloops]; nofun⟩
    rw [hloops]
    rintro l' hl' - - -
    obtain rfl : l = l' := Option.some.inj hl'
    obtain ⟨first, m, hfirst⟩ := hl.stmts
    refine ⟨fun hm => ?_, before ++ first, m, target, behind, ?_, (hcarried _).2 (.inr htarget), fun e he => ?_⟩
    · rw [hcarried, hl.carried] at hm
      exact hnames _ (hm.resolve_left List.not_mem_nil) hl.owner
    · rw [hstmts, hfirst]
      simp
    · exact (hquiet _ (List.mem_append_right _ he)).2 _ e rfl
  | false =>
    obtain ⟨l, hl⟩ := collect_items target hview idx mutable n
    rw [hl.loops] at hloops
    refine ⟨?_, ?_, ?_⟩
    · rw [hloops]
      refine .cons (fun h => ?_) hl.inner.loops
      rw [hview] at h
      cases h
    · rintro - - t ht htext
      obtain rfl : s = t := Option.some.inj ht
      rw [hview] at htext
      cases htext
    · rw [hloops]
      intro l' hl'
      have hvec := hl.inner.vectors l' hl'
      refine ⟨(hcarried _).2 (.inl (hl.carried _ hvec)), fun st hst view => ?_⟩
      have hnone : st.view? = none := by
        rw [hstmts, List.append_assoc] at hst
        obtain hst | hst := List.mem_append.1 hst
        · exact (hquiet st (List.mem_append_left _ hst)).1
        · obtain hst | hst := List.mem_append.1 hst
          · exact hl.views st hst
          · exact (hquiet st (List.mem_append_right _ hst)).1
      rw [hnone]
      exact nofun

/-- An optional vector is collected in a temporary, and that is yielded. Other options have no loops. -/
theorem delivers_optional {name : String} (hname : ¬ IsOwner name) (s : Shape) (idx : Int) (n : NameScope) :
    Delivers ⟨[], [(optional name s idx n).1], .var name⟩ s.insideOptional := by
  have hboxed := fun t sp => Shape.unbox_ne_boxed t sp s
  rw [← insideOptional_unbox]
  unfold optional
  generalize s.unbox = unboxed at hboxed
  obtain ⟨t, boxes⟩ := unboxed
  cases t with
  | boxed t sp => exact absurd rfl (hboxed t sp)
  | vector t _ =>
    let vec := ((n.fresh "s").2.fresh "vec").1
    let c := (collect vec t idx false ((n.fresh "s").2.fresh "vec").2).1
    have hnames : ∀ y ∈ [vec, name], ¬ IsOwner y :=
      List.forall_mem_cons.2 ⟨not_isOwner_vec _, List.forall_mem_singleton.2 hname⟩
    generalize hb : Binding.mk [] [_] (.var name) = b
    have hstmts : b.stmts = [.yield .none] ++ c.stmts ++ [.yield (.some ((Expr.var vec).boxes boxes)), .yield .none] := by
      subst hb
      show ([_] ++ (c.stmts ++ [_]) ++ [_]) ++ [] = [_] ++ c.stmts ++ [_, _]
      simp only [List.append_nil, List.append_assoc, List.cons_append, List.nil_append]
      rfl
    have hsome : (Stmt.yield (.some ((Expr.var vec).boxes boxes))).carried = [vec] := carried_boxes (.var vec) boxes
    have hnone : (Stmt.yield .none).carried = [] := rfl
    have harg : b.arg.carried = [name] := hb ▸ rfl
    refine .of_collect vec t idx false _ _ _ [vec, name] ?_ hstmts ?_ (fun y => ?_) hnames (List.mem_cons_self ..)
    · subst hb
      show ([] ++ (Code.seq c (.line _)).loops ++ []) ++ [] = c.loops
      rw [loops_seq_line]
      simp
    · simp [Stmt.IsQuiet, Stmt.view?]
    · rw [carried, hstmts, harg]
      simp [hsome, hnone, Code.carried, c]
  | text sp | number w | boolean => exact .of_nil rfl
  | _ =>
    dsimp only
    split <;> exact .of_nil rfl

/-- A list that is bound to its variable, or a slice of one. -/
theorem Delivers.of_variable {b : Binding} {target : String} (htarget : ¬ IsOwner target) (s : Shape) (idx : Int)
    (mutable : Bool) (hloops : b.loops = (collect target s idx mutable {}).1.loops)
    (hstmts : b.stmts = (collect target s idx mutable {}).1.stmts) (harg : b.arg.carried = [target]) :
    b.Delivers (s :: s.inside) := by
  refine .of_collect target s idx mutable {} [] [] [target] hloops ?_ nofun (fun y => ?_)
    (List.forall_mem_singleton.2 htarget) (List.mem_singleton_self _)
  · rw [hstmts, List.nil_append, List.append_nil]
  · rw [carried, hstmts, harg, List.mem_append, Code.carried]

/-- A reference is to what is bound without it. A variable that it makes mutable is bound once more. -/
theorem Delivers.reference {name : String} {idx : Int} {t : Shape} (h : (ofShape name idx t).Delivers t.itemShapes)
    (m : Bool) (sp : String) : (ofShape name idx (.reference t m sp)).Delivers (Shape.reference t m sp).itemShapes := by
  let rebind : List Code := if m && (ofShape name idx t).arg = .var name then [.line (.bind true name (.var name))] else []
  have hloops : rebind.flatMap Code.loops = [] := by
    unfold rebind
    split <;> rfl
  have hquiet : ∀ s ∈ rebind.flatMap Code.stmts, s.IsQuiet := by
    unfold rebind
    split
    · exact List.forall_mem_singleton.2 ⟨rfl, nofun⟩
    · nofun
  have hcarried : ∀ y ∈ (rebind.flatMap Code.stmts).flatMap Stmt.carried, y ∈ (ofShape name idx t).arg.carried := by
    unfold rebind
    split
    · next harg =>
      have harg : (ofShape name idx t).arg = .var name := of_decide_eq_true (Bool.and_eq_true_iff.1 harg).2
      rw [harg]
      exact fun y hy => hy
    · nofun
  cases t with
  | named n _ => exact .of_nil rfl
  | _ =>
    refine h.extend ?_ List.flatMap_append hquiet fun y => ?_
    · show (_ ++ rebind).flatMap Code.loops = _
      rw [List.flatMap_append, hloops, List.append_nil]
      rfl
    · show y ∈ ((_ ++ rebind).flatMap Code.stmts).flatMap Stmt.carried ++ _ ↔ _
      rw [List.flatMap_append, List.flatMap_append, List.append_assoc, carried, List.mem_append, List.mem_append,
        List.mem_append]
      exact or_congr_right ⟨fun h => h.elim (hcarried y) id, .inr⟩

theorem delivers_ofShape {name : String} (hname : ¬ IsOwner name) (idx : Int) :
    (s : Shape) → (ofShape name idx s).Delivers s.itemShapes
  | .number _ | .boolean | .text _ | .unit | .result _ _ | .tuple _ _ | .mapping _ _ _ | .unknown _ | .named _ _ =>
    .of_nil rfl
  | .vector t _ => .of_variable hname t idx false (List.append_nil _) (List.append_nil _) rfl
  | .slice t m _ => .of_variable (not_isOwner_sliceName name) t idx m (List.append_nil _) (List.append_nil _) rfl
  | .option t _ => delivers_optional hname t idx {}
  | .boxed t _ => (delivers_ofShape hname idx t).extend rfl (List.append_nil _).symm nofun fun _ => Iff.rfl
  | .reference t m sp => (delivers_ofShape hname idx t).reference m sp

/-- All owners of borrowed texts are lent exactly if no list inside another one has such items. -/
theorem Delivers.lends_iff {b : Binding} {shapes : List Shape} (h : b.Delivers shapes) :
    (∀ p ∈ b.loops.zip shapes, p.2.isTextView = true → b.Lends p.1.vec) ↔ ∀ t ∈ shapes.tail, t.isTextView = false := by
  have hlength := h.loops.length_eq
  have houter := h.outermost
  have hnested := h.nested
  generalize b.loops = loops at hlength houter hnested
  cases shapes with
  | nil => cases loops <;> simp
  | cons t shapes =>
    cases loops with
    | nil => cases hlength
    | cons l loops =>
      rw [List.zip_cons_cons, List.forall_mem_cons]
      have hfirst : t.isTextView = true → b.Lends l.vec := houter l rfl t rfl
      have hlast : shapes.length = loops.length := (Nat.succ.inj hlength).symm
      constructor
      · rintro ⟨-, hrest⟩ u hu
        obtain ⟨k, hk, rfl⟩ := List.mem_iff_getElem.1 hu
        have hk' : k < loops.length := hlast ▸ hk
        have hmem : (loops[k], shapes[k]) ∈ loops.zip shapes :=
          List.mem_iff_getElem.2 ⟨k, List.length_zip ▸ Nat.lt_min.2 ⟨hk', hk⟩, List.getElem_zip⟩
        refine Bool.eq_false_iff.2 fun hview => ?_
        exact (hnested _ (List.getElem_mem _)).not_lends (hrest _ hmem hview)
      · intro hrest
        refine ⟨hfirst, fun p hp hview => ?_⟩
        rw [hrest p.2 (List.of_mem_zip hp).2] at hview
        cases hview

/-- For every shape of a parameter, the loops that fill vectors of borrowed texts push owned texts. Of the outermost list,
    views of the owner are handed on, and the owner is not; of the lists inside its items, the owner itself is handed on,
    and no views are made. So borrowed text is delivered as such in all of them exactly if no list inside of another one
    has items of it. -/
theorem ofShape_lends (x : String) (i : Nat) (s : Shape) :
    (ofShape (Wrapper.localName x i) i s).Delivers s.itemShapes ∧
    ((∀ p ∈ (ofShape (Wrapper.localName x i) i s).loops.zip s.itemShapes,
        p.2.isTextView = true → (ofShape (Wrapper.localName x i) i s).Lends p.1.vec) ↔
      ∀ t ∈ s.itemShapes.tail, t.isTextView = false) := by
  have hdelivers := delivers_ofShape (Wrapper.isLocal_localName x i).not_isOwner i s
  exact ⟨hdelivers, hdelivers.lends_iff⟩

/-- Of lists of borrowed texts in a list, the owners are pushed themselves. -/
theorem ofShape_lends_not : ∃ p ∈ (ofShape "x" 1 (.vector (.vector (.text "&str") "Vec<&str>") "Vec<Vec<&str>>")).loops.zip
      (Shape.vector (.vector (.text "&str") "Vec<&str>") "Vec<Vec<&str>>").itemShapes, p.2 = .text "&str" ∧
    ¬ (ofShape "x" 1 (.vector (.vector (.text "&str") "Vec<&str>") "Vec<Vec<&str>>")).Lends p.1.vec ∧
    (ofShape "x" 1 (.vector (.vector (.text "&str") "Vec<&str>") "Vec<Vec<&str>>")).HandsOver p.1.vec := by
  have hlocal : IsLocal "x" := .inr (by decide)
  have hover := (delivers_ofShape hlocal.not_isOwner 1 (.vector (.vector (.text "&str") "Vec<&str>")
    "Vec<Vec<&str>>")).nested _ (List.mem_cons_self ..)
  exact ⟨_, .tail _ (.head _), rfl, hover.not_lends, hover⟩

end Binding
end RingBridge
