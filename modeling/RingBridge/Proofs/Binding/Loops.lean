import RingBridge.Binding
import RingBridge.Proofs.Binding.Readers
import RingBridge.Proofs.Code.Numbered
import RingBridge.Proofs.Code.Traces
import RingBridge.Proofs.Module.Hygiene
/-!
Loops that fill vectors. Each turn pushes at most one item: one on every way where the items are optional, and otherwise
one where the item passes its test.
-/
namespace RingBridge
open Code

def Step.pushesTo (vec : String) : Step → Bool
  | .stmt (.push x _) => x = vec
  | _ => false

namespace Code

def pushes (vec : String) (p : List Step) : Nat := p.countP (Step.pushesTo vec)

theorem pushes_append (vec : String) (p q : List Step) : pushes vec (p ++ q) = pushes vec p + pushes vec q :=
  List.countP_append

/-- A way that binds only names among `names`, and pushes `k` times to one vector; to the others, if they do not go by
    one of the names, it pushes nothing. -/
structure Pushes (vec : String) (names : List String) (k : Nat) (p : List Step) : Prop where
  bound : boundBy p ⊆ names
  count : ∀ x, x ∉ names → pushes x p = if x = vec then k else 0

namespace Pushes
variable {vec x : String} {names names' : List String} {j k : Nat} {p q : List Step} {s : Step}

theorem nil (vec : String) (names : List String) : Pushes vec names 0 [] :=
  ⟨List.nil_subset _, fun _ _ => (ite_self 0).symm⟩

theorem mono (h : Pushes vec names k p) (hn : names ⊆ names') : Pushes vec names' k p :=
  ⟨List.Subset.trans h.bound hn, fun x hx => h.count x fun hm => hx (hn hm)⟩

theorem append (hp : Pushes vec names j p) (hq : Pushes vec names k q) : Pushes vec names (j + k) (p ++ q) where
  bound := by
    rw [boundBy, List.flatMap_append]
    exact List.append_subset.2 ⟨hp.bound, hq.bound⟩
  count x hx := by
    rw [pushes_append, hp.count x hx, hq.count x hx]
    split <;> rfl

/-- A step that itself pushes nothing. -/
theorem cons (hbinders : s.binders ⊆ names) (hpush : ∀ x, s.pushesTo x = false) (h : Pushes vec names k p) :
    Pushes vec names k (s :: p) where
  bound := List.append_subset.2 ⟨hbinders, h.bound⟩
  count x hx := by rw [pushes, List.countP_cons_of_neg (by simp [hpush]), ← pushes, h.count x hx]

/-- A way on which nothing is pushed. -/
theorem of_quiet (h : ∀ s ∈ p, s.binders ⊆ names ∧ ∀ x, s.pushesTo x = false) : Pushes vec names 0 p := by
  induction p with
  | nil => exact .nil vec names
  | cons s p ih =>
    have h := List.forall_mem_cons.1 h
    exact (ih h.2).cons h.1.1 h.1.2

theorem binds (h : Pushes vec names k p) (hx : x ∈ names) (hbinders : s.binders = [x])
    (hpush : ∀ x, s.pushesTo x = false) : Pushes vec names k (s :: p) :=
  .cons (hbinders ▸ List.cons_subset.2 ⟨hx, List.nil_subset _⟩) hpush h

/-- One push. -/
theorem push (vec : String) (names : List String) (e : Expr) : Pushes vec names 1 [.stmt (.push vec e)] where
  bound := List.nil_subset _
  count x _ := by simp [pushes, Step.pushesTo, eq_comm]

/-- Pushes to a vector that was made on the way do not count. -/
theorem hidden (h : Pushes x names j p) (hx : x ∈ names) : Pushes vec names 0 p where
  bound := h.bound
  count y hy := by
    have hne : y ≠ x := fun he => hy (he ▸ hx)
    rw [h.count y hy, if_neg hne, ite_self]

end Pushes
end Code

structure Loop where
  vec : String
  list : String
  index : String
  body : Code

def Code.loops : Code → List Loop
  | seq (line (.bind true vec .newVec)) (items i l c) => ⟨vec, l, i, c⟩ :: c.loops
  | seq a b => a.loops ++ b.loops
  | fragment c | when _ c | items _ _ c | each _ _ c | eachPair _ _ _ c | matchOption _ _ c _
  | matchResult _ _ c _ => c.loops
  | letIf _ _ a b => a.loops ++ b.loops
  | letChain _ _ a₁ _ a₂ b => a₁.loops ++ a₂.loops ++ b.loops
  | skip | line _ | matchDone _ _ | receive _ _ => []

def Binding.loops (b : Binding) : List Loop := b.gets.flatMap Code.loops

theorem Code.loops_seq {a b : Code} (hb : ∀ i l c, b ≠ .items i l c) : (seq a b).loops = a.loops ++ b.loops := by
  rw [Code.loops]
  intro _ i l c _
  exact hb i l c

theorem Code.loops_seq_line (a : Code) (s : Stmt) : (seq a (line s)).loops = a.loops := by
  have hline : ∀ i l c, line s ≠ items i l c := fun _ _ _ h => by cases h
  rw [loops_seq hline]
  exact List.append_nil _

namespace Shape

theorem unbox_ne_boxed (t : Shape) (sp : String) : (s : Shape) → s.unbox.1 ≠ boxed t sp
  | boxed s _ => unbox_ne_boxed t sp s
  | number _ | text _ | boolean | unit | slice _ _ _ | option _ _ | result _ _ | tuple _ _ | mapping _ _ _
  | reference _ _ _ | named _ _ | unknown _ | vector _ _ => fun h => by cases h

def isOptional (s : Shape) : Bool :=
  match s.unbox.1 with
  | .option _ _ => true
  | _ => false

def itemKind : Shape → Kind
  | boxed t _ => t.itemKind
  | vector _ _ => .list
  | named _ _ | reference (named _ _) _ _ => .pointer
  | text _ => .string
  | _ => .number

mutual

def inside : Shape → List Shape
  | boxed t _ => t.inside
  | option t _ => t.insideOptional
  | vector t _ => t :: t.inside
  | _ => []

def insideOptional : Shape → List Shape
  | boxed t _ => t.insideOptional
  | vector t _ => t :: t.inside
  | _ => []

end

def itemShapes : Shape → List Shape
  | vector t _ | slice t _ _ => t :: t.inside
  | option t _ => t.insideOptional
  | boxed t _ | reference t _ _ => t.itemShapes
  | _ => []

end Shape

namespace Binding
open NameScope

/-- The test of an item, after the steps that lead to it: for its kind, or for the pointer that was read from it. -/
def TestsItem (s : Shape) (list i : String) (before : List Step) (t : Test) : Prop :=
  match s.unbox.1.pointee? with
  | some _ => ∃ ptr n, (listPointer ptr list i n).1.Path before true ∧ t = .notNull ptr
  | none => before = [] ∧ t = .isKind s.itemKind (.item list (.var i))

/-- A way through the code for one item: it pushes once, or the test of the item decides if it does. -/
def ItemWay (s : Shape) (vec list i : String) (names : List String) (p : List Step) : Prop :=
  if s.isOptional then Pushes vec names 1 p else
    ∃ before t holds after, p = before ++ .move (.test t holds) :: after ∧ TestsItem s list i before t ∧
      Pushes vec names 0 before ∧ Pushes vec names (if holds then 1 else 0) after

theorem ItemWay.pushes {s : Shape} {vec list i : String} {names : List String} {p : List Step}
    (h : ItemWay s vec list i names p) : ∃ k ≤ 1, Pushes vec names k p := by
  unfold ItemWay at h
  split at h
  · exact ⟨1, Nat.le_refl 1, h⟩
  · obtain ⟨before, t, holds, after, rfl, -, hbefore, hafter⟩ := h
    refine ⟨_, ?_, hbefore.append (hafter.cons (List.nil_subset _) fun _ => rfl)⟩
    cases holds <;> decide

/-- The body of a loop keeps the name of its vector and pushes to it at most once a turn: once on every way where the
    items are optional, and otherwise once after the test of the item, if it holds. -/
def PushesByItem (l : Loop) (s : Shape) : Prop :=
  l.body.Through fun p => l.vec ∉ boundBy p ∧ pushes l.vec p ≤ 1 ∧ (s.isOptional = true → pushes l.vec p = 1) ∧
    (s.isOptional = false → ∃ before t holds after, p = before ++ .move (.test t holds) :: after ∧
      TestsItem s l.list l.index before t ∧ pushes l.vec before = 0 ∧ pushes l.vec after = if holds then 1 else 0)

def itemStems : List String := ["i", "item", "sub", "inner", "ptr"]

/-- Code made in a scope for an item: it comes to its end on every way, and a way satisfies `Q` with the temporaries
    that were handed out. -/
structure Goes (n : NameScope) (r : Code × NameScope) (Q : List String → List Step → Prop) : Prop where
  leads : Leads (· ∈ itemStems) n r.2
  through : r.1.Through (Q (n.since r.2))

theorem goes_listPointer (ptr list i : String) (n : NameScope) :
    Goes n (listPointer ptr list i n) fun names p => ∀ vec, Pushes vec (ptr :: names) 0 p := by
  have hleads : Leads (· ∈ itemStems) n (n.fresh "sub").2 := .fresh n (by decide)
  have hsub : (n.fresh "sub").1 ∈ n.since (listPointer ptr list i n).2 := (Leads.refl (· ∈ itemStems) _).mem_since.1
  refine ⟨hleads, .letChain ?_ ?_ ?_⟩
  · exact .line rfl fun vec => .of_quiet (by simp [Step.binders, Stmt.binders, Step.pushesTo])
  · refine .line_seq rfl (.line rfl fun vec => .of_quiet ?_)
    simpa [Step.binders, Stmt.binders, Step.pushesTo] using .inr hsub
  · exact .line rfl fun vec => .of_quiet (by simp [Step.binders, Stmt.binders, Step.pushesTo])

def ItemReader.Fills (item : ItemReader) : Prop :=
  ∀ vec list i n, Goes n (item vec list i n) fun names p => ∃ k, Pushes vec names k p

theorem goes_fill {item : ItemReader} (hitem : item.Fills) (vec list : String) (n : NameScope) :
    Goes n (fill item vec list n) fun names p => ∃ k, Pushes vec (vec :: names) k p := by
  have hbody := hitem vec list (n.fresh "i").1 (n.fresh "i").2
  obtain ⟨hi, hnames⟩ := hbody.leads.mem_since
  have hloop : (Code.items (n.fresh "i").1 list (item vec list (n.fresh "i").1 (n.fresh "i").2).1).Through fun p =>
      ∃ k, Pushes vec (n.since (fill item vec list n).2) k p := by
    apply Through.items
    · exact ⟨0, .of_quiet (by simp [Step.binders, Step.pushesTo])⟩
    · apply hbody.through.weaken
      rintro p ⟨j, hp⟩ q ⟨k, hq⟩
      exact ⟨j + k, ((hp.mono hnames).append hq).binds hi rfl fun _ => rfl⟩
  refine ⟨(Leads.fresh n (by decide)).trans hbody.leads, .line_seq rfl (hloop.weaken ?_)⟩
  rintro p ⟨k, hp⟩
  exact ⟨k, (hp.mono (List.subset_cons_self ..)).binds (List.mem_cons_self ..) rfl fun _ => rfl⟩

/-- The list in an item is read into a vector of its own. Only what it is used for in the end can push to another one. -/
theorem goes_nested {item : ItemReader} (hitem : item.Fills) (list i : String) (finish : Expr → Stmt)
    (hfinish : ∀ e, (finish e).goesOn = true) (n : NameScope) :
    Goes n (nested item list i finish n) fun names p =>
      ∃ q inner, p = q ++ [.stmt (finish (.var inner))] ∧ ∀ vec, Pushes vec names 0 q := by
  have hfill := goes_fill hitem ((n.fresh "sub").2.fresh "inner").1 (n.fresh "sub").1 ((n.fresh "sub").2.fresh "inner").2
  obtain ⟨hinner, hnames⟩ := hfill.leads.mem_since
  have hleads := (Leads.fresh (n.fresh "sub").2 (P := (· ∈ itemStems)) (by decide)).trans hfill.leads
  obtain ⟨hsub, hnames'⟩ := hleads.mem_since
  refine ⟨(Leads.fresh n (by decide)).trans hleads, .line_seq rfl (.seq (hfill.through.weaken ?_))⟩
  rintro p ⟨k, hp⟩
  have hp := hp.mono (List.cons_subset.2 ⟨hnames' hinner, List.Subset.trans hnames hnames'⟩)
  exact .line (hfinish _) ⟨_ :: p, _, rfl, fun vec => (hp.hidden (hnames' hinner)).binds hsub rfl fun _ => rfl⟩

theorem fills_of_goes {s : Shape} {item : ItemReader}
    (hitem : ∀ vec list i n, Goes n (item vec list i n) (ItemWay s vec list i)) : item.Fills := by
  intro vec list i n
  refine ⟨(hitem vec list i n).leads, (hitem vec list i n).through.weaken fun p hp => ?_⟩
  obtain ⟨k, -, hp⟩ := hp.pushes
  exact ⟨k, hp⟩

/-- A way on which the test of an item is made that is not optional. -/
theorem ItemWay.of_test {s : Shape} {vec list i : String} {names : List String} {before after : List Step} {t : Test}
    (holds : Bool) (hs : s.isOptional = false) (ht : TestsItem s list i before t) (hbefore : Pushes vec names 0 before)
    (hafter : Pushes vec names (if holds then 1 else 0) after) :
    ItemWay s vec list i names (before ++ .move (.test t holds) :: after) := by
  rw [ItemWay, hs]
  exact ⟨before, t, holds, after, rfl, ht, hbefore, hafter⟩

def IsLeaf (s : Shape) : Prop := s.unbox.1 = s ∧ (s.pointee? = none → s.itemKind = s.scalarKind)

theorem isLeaf_of_readsLeaf {o : Bool} {s : Shape} (hs : readsLeaf o s = true) : IsLeaf s := by
  cases s with
  | boxed _ _ | vector _ _ => cases hs
  | named _ _ => exact ⟨rfl, fun h => by cases h⟩
  | reference t _ _ =>
    refine ⟨rfl, fun h => ?_⟩
    cases t with
    | named _ _ => cases h
    | _ => rfl
  | _ => exact ⟨rfl, fun _ => rfl⟩

theorem isOptional_leaf {s : Shape} (hs : readsLeaf false s = true) : s.isOptional = false := by
  cases s with
  | boxed _ _ | option _ _ | vector _ _ => cases hs
  | _ => rfl

theorem inside_leaf {s : Shape} (hs : readsLeaf false s = true) : s.inside = [] := by
  cases s with
  | boxed _ _ | option _ _ | vector _ _ => cases hs
  | _ => rfl

theorem insideOptional_leaf {s : Shape} (hs : readsLeaf true s = true) : s.insideOptional = [] := by
  cases s with
  | boxed _ _ | vector _ _ => cases hs
  | _ => rfl

theorem goes_pushLeaf {s : Shape} (hs : IsLeaf s) (hopt : s.isOptional = false) (boxes : Nat) (vec list i : String)
    (n : NameScope) : Goes n (pushLeaf s boxes vec list i n) (ItemWay s vec list i) := by
  obtain ⟨hunbox, hkind⟩ := hs
  unfold pushLeaf
  cases hp : s.pointee? with
  | none =>
    refine ⟨.refl _ n, ?_⟩
    have ht : TestsItem s list i [] (.isKind s.scalarKind (.item list (.var i))) := by
      rw [TestsItem, hunbox, hp, hkind hp]
      exact ⟨rfl, rfl⟩
    apply Through.when
    · exact .line rfl (.of_test true hopt ht (.nil ..) (.push ..))
    · exact .of_test false hopt ht (.nil ..) (.nil ..)
  | some pointee =>
    have hread := goes_listPointer (n.fresh "ptr").1 list i (n.fresh "ptr").2
    obtain ⟨hptr, hnames⟩ := hread.leads.mem_since
    refine ⟨(Leads.fresh n (by decide)).trans hread.leads, .seq fun p r hpath => ?_⟩
    obtain ⟨rfl, hp'⟩ := hread.through p r hpath
    refine ⟨rfl, ?_⟩
    have ht : TestsItem s list i p (.notNull (n.fresh "ptr").1) := by
      rw [TestsItem, hunbox, hp]
      exact ⟨_, _, hpath, rfl⟩
    have hp' := (hp' vec).mono (List.cons_subset.2 ⟨hptr, hnames⟩)
    apply Through.when
    · exact .line rfl (.of_test true hopt ht hp' (.push ..))
    · exact .of_test false hopt ht hp' (.nil ..)

abbrev BindsOnly (value : String) (names : List String) (p : List Step) : Prop := ∀ vec, Pushes vec (value :: names) 0 p

theorem goes_bindLeaf (s : Shape) (boxes : Nat) (value list i : String) (n : NameScope) :
    Goes n (bindLeaf s boxes value list i n) (BindsOnly value) := by
  unfold bindLeaf
  cases hp : s.pointee? with
  | none =>
    exact ⟨.refl _ n, .line rfl fun vec => .of_quiet (by simp [Step.binders, Stmt.binders, Step.pushesTo])⟩
  | some pointee =>
    have hread := goes_listPointer (n.fresh "ptr").1 list i (n.fresh "ptr").2
    obtain ⟨hptr, hnames⟩ := hread.leads.mem_since
    refine ⟨(Leads.fresh n (by decide)).trans hread.leads, .seq (hread.through.weaken fun p hp => ?_)⟩
    have hp := fun vec => (hp vec).mono (List.subset_cons_of_subset value (List.cons_subset.2 ⟨hptr, hnames⟩))
    apply Through.letIf
    · exact .line rfl fun vec => (hp vec).append (.of_quiet (by simp [Step.binders, Stmt.binders, Step.pushesTo]))
    · exact .line rfl fun vec => (hp vec).append (.of_quiet (by simp [Step.binders, Stmt.binders, Step.pushesTo]))

theorem goes_reader (o : Bool) (s : Shape) (boxes : Nat) : ∀ (target list i : String) (n : NameScope),
    Goes n (reader o s boxes target list i n) (if o then BindsOnly target else ItemWay s target list i) := by
  induction o, s, boxes using reader_induction with
  | boxed o s sp boxes ih => exact reader_boxed o s sp boxes ▸ ih
  | option s sp boxes ih =>
    intro vec list i n
    have hread := ih (n.fresh "item").1 list i (n.fresh "item").2
    obtain ⟨hitem, hnames⟩ := hread.leads.mem_since
    refine ⟨(Leads.fresh n (by decide)).trans hread.leads, .seq (hread.through.weaken fun p hp => .line rfl ?_)⟩
    exact ((hp vec).mono (List.cons_subset.2 ⟨hitem, hnames⟩)).append (.push vec _ _)
  | vector s sp boxes ih =>
    intro vec list i n
    have hbody := goes_nested (fills_of_goes ih) list i (fun e => .push vec (e.boxes boxes)) (fun _ => rfl) n
    have ht : TestsItem (.vector s "") list i [] (.isKind .list (.item list (.var i))) := ⟨rfl, rfl⟩
    refine ⟨hbody.leads, .when (hbody.through.weaken ?_) (.of_test false rfl ht (.nil ..) (.nil ..))⟩
    rintro _ ⟨q, inner, rfl, hq⟩
    exact .of_test true rfl ht (.nil ..) ((hq vec).append (.push vec _ _))
  | optionalVector s sp boxes ih =>
    intro value list i n
    have hbody := goes_nested (fills_of_goes ih) list i (fun e => .yield (.some (e.boxes boxes))) (fun _ => rfl) n
    refine ⟨hbody.leads, .letIf (hbody.through.weaken ?_) (.line rfl fun vec => ?_)⟩
    · rintro _ ⟨q, inner, rfl, hq⟩ vec
      have hq := (hq vec).mono (List.subset_cons_self value _)
      rw [List.append_assoc]
      refine (hq.append (.of_quiet ?_)).cons (List.nil_subset _) fun _ => rfl
      simp [Step.binders, Stmt.binders, Step.pushesTo]
    · exact .of_quiet (by simp [Step.binders, Stmt.binders, Step.pushesTo])
  | leaf s boxes hs =>
    exact reader_leaf hs boxes ▸ goes_pushLeaf (isLeaf_of_readsLeaf hs) (isOptional_leaf hs) boxes
  | optionalLeaf s boxes hs => exact reader_optionalLeaf hs boxes ▸ goes_bindLeaf s boxes

theorem goes_element (s : Shape) (boxes : Nat) (vec list i : String) (n : NameScope) :
    Goes n (element s boxes vec list i n) (ItemWay s vec list i) :=
  goes_reader false s boxes vec list i n

def IsApart (x : String) : Prop := ∀ st ∈ itemStems, ∀ k, x ≠ numbered st k

theorem IsApart.notMem_since {x : String} (hx : IsApart x) {n m : NameScope} (h : Leads (· ∈ itemStems) n m) :
    x ∉ n.since m := by
  obtain ⟨added, hm, hadded⟩ := h
  rw [since_of_stems hm]
  intro hmem
  obtain ⟨st, hst, k, -, he⟩ := exists_stem_of_mem hmem
  exact hx st (hadded st hst) k he

theorem isApart_of_lead {x : String} (h : ∀ st ∈ itemStems, lead x ≠ '_' :: '_' :: lead st) : IsApart x := by
  rintro st hst k rfl
  exact h st hst (lead_numbered st k)

/-- After the underscores in front, a temporary has another one only if its stem has one. -/
theorem ne_numbered_of_underscore {x st : String} (hx : '_' ∈ x.toList.drop 2) (hst : '_' ∉ st.toList) (k : Nat) :
    x ≠ numbered st k := by
  rintro rfl
  rw [toList_numbered, List.drop_succ_cons, List.drop_succ_cons, List.drop_zero, List.mem_append] at hx
  obtain hx | hx := hx
  · exact hst hx
  · exact absurd (isDigit_of_mem_digits hx) (by decide)

theorem isApart_of_underscore {x : String} (h : '_' ∈ x.toList.drop 2) : IsApart x :=
  have hwords : ∀ st ∈ itemStems, '_' ∉ st.toList := by decide
  fun st hst => ne_numbered_of_underscore h (hwords st hst)

theorem endsPlain_collector (lead : String) {tail : String} (ht : tail ∈ collectorTails) : EndsPlain (lead ++ tail) := by
  have htails : ∀ tail ∈ collectorTails, EndsPlain tail := by decide
  rw [EndsPlain, getLast?_collector lead ht]
  exact htails tail ht

theorem sliceName_eq_numbered (name : String) : sliceName name = numbered (name ++ "_vec") 0 :=
  String.append_assoc ..

theorem isApart_sliceName (name : String) : IsApart (sliceName name) :=
  isApart_of_underscore (by simp [sliceName])

theorem isApart_owned (n : NameScope) (target : String) : IsApart (n.fresh (stem target ++ "_owned")).1 :=
  isApart_of_underscore (by rw [NameScope.fresh, toList_numbered]; simp)

theorem isApart_vec (n : NameScope) : IsApart (n.fresh "vec").1 := by
  apply isApart_of_lead
  rw [NameScope.fresh, lead_numbered]
  decide

theorem IsLocal.isApart {name : String} (h : IsLocal name) : IsApart name := by
  obtain ⟨i, rfl⟩ | h := h
  · apply isApart_of_lead
    rw [lead_number _ (by decide)]
    decide
  · rintro st hst k rfl
    rw [toList_numbered] at h
    exact h ⟨_, rfl⟩

theorem pushesByItem {s : Shape} {vec list i : String} {n : NameScope} (h : vec ∉ n.since (element s 0 vec list i n).2) :
    PushesByItem ⟨vec, list, i, (element s 0 vec list i n).1⟩ s := by
  refine (goes_element s 0 vec list i n).through.weaken fun p hp => ?_
  obtain ⟨k, hk, hpushes⟩ := hp.pushes
  have hcount : ∀ {j q}, Pushes vec (n.since (element s 0 vec list i n).2) j q → pushes vec q = j := by
    intro j q hq
    rw [hq.count vec h, if_pos rfl]
  refine ⟨fun hm => h (hpushes.bound hm), hcount hpushes ▸ hk, fun hs => ?_, fun hs => ?_⟩
  · rw [ItemWay, hs] at hp
    exact hcount hp
  · rw [ItemWay, hs] at hp
    obtain ⟨before, t, holds, after, rfl, ht, hbefore, hafter⟩ := hp
    exact ⟨before, t, holds, after, rfl, ht, hcount hbefore, hcount hafter⟩

abbrev LoopsFor (loops : List Loop) (shapes : List Shape) : Prop := List.Forall₂ PushesByItem loops shapes

theorem loopsFor_fill {s : Shape} {vec list : String} {n : NameScope}
    (hvec : vec ∉ (n.fresh "i").2.since (fill (element s 0) vec list n).2)
    (hbody : LoopsFor (element s 0 vec list (n.fresh "i").1 (n.fresh "i").2).1.loops s.inside) :
    LoopsFor (fill (element s 0) vec list n).1.loops (s :: s.inside) :=
  .cons (pushesByItem hvec) hbody

theorem loops_nested (item : ItemReader) (list i : String) (finish : Expr → Stmt) (n : NameScope) :
    (nested item list i finish n).1.loops =
      (fill item ((n.fresh "sub").2.fresh "inner").1 (n.fresh "sub").1 ((n.fresh "sub").2.fresh "inner").2).1.loops := by
  exact (List.append_nil _)

theorem loopsFor_nested {s : Shape} (hs : ∀ vec list i n, LoopsFor (element s 0 vec list i n).1.loops s.inside)
    (list i : String) (finish : Expr → Stmt) (n : NameScope) :
    LoopsFor (nested (element s 0) list i finish n).1.loops (s :: s.inside) := by
  rw [loops_nested]
  refine loopsFor_fill (fun hm => ?_) (hs ..)
  have hleads := (goes_element s 0 ((n.fresh "sub").2.fresh "inner").1 (n.fresh "sub").1
    (((n.fresh "sub").2.fresh "inner").2.fresh "i").1 (((n.fresh "sub").2.fresh "inner").2.fresh "i").2).leads
  have hinner : Leads (· ∈ itemStems) ((n.fresh "sub").2.fresh "inner").2 _ := (Leads.fresh _ (by decide)).trans hleads
  exact hinner.fresh_notMem (by decide) (hleads.mem_since.2 hm)

theorem loopsFor_pushLeaf (s : Shape) (boxes : Nat) (vec list i : String) (n : NameScope) :
    LoopsFor (pushLeaf s boxes vec list i n).1.loops [] := by
  unfold pushLeaf
  cases s.pointee? <;> exact .nil

theorem loopsFor_bindLeaf (s : Shape) (boxes : Nat) (value list i : String) (n : NameScope) :
    LoopsFor (bindLeaf s boxes value list i n).1.loops [] := by
  unfold bindLeaf
  cases s.pointee? <;> exact .nil

theorem loopsFor_reader (o : Bool) (s : Shape) (boxes : Nat) : ∀ (target list i : String) (n : NameScope),
    LoopsFor (reader o s boxes target list i n).1.loops (if o then s.insideOptional else s.inside) := by
  induction o, s, boxes using reader_induction with
  | boxed o s sp boxes ih => exact reader_boxed o s sp boxes ▸ ih
  | option s sp boxes ih =>
    intro vec list i n
    show LoopsFor (Code.seq _ (.line _)).loops _
    rw [Code.loops_seq_line]
    exact ih ..
  | vector s sp boxes ih =>
    exact fun vec list i n => loopsFor_nested ih list i (fun e => .push vec (e.boxes boxes)) n
  | optionalVector s sp boxes ih =>
    intro value list i n
    show LoopsFor (_ ++ []) _
    rw [List.append_nil]
    exact loopsFor_nested ih list i (fun e => .yield (.some (e.boxes boxes))) n
  | leaf s boxes hs => exact inside_leaf hs ▸ reader_leaf hs boxes ▸ loopsFor_pushLeaf s boxes
  | optionalLeaf s boxes hs => exact insideOptional_leaf hs ▸ reader_optionalLeaf hs boxes ▸ loopsFor_bindLeaf s boxes

/-- The list at a position is read, and the loop over its items is the first one. It fills the target, or a vector that
    owns the texts. -/
theorem exists_fill_collect (target : String) (s : Shape) (idx : Int) (mutable : Bool) (n : NameScope) :
    ∃ vec list m rest, (IsApart target → IsApart vec) ∧
      (collect target s idx mutable n).1 = .seq (.line (.bind false list (.list (.argument idx)))) rest ∧
      (collect target s idx mutable n).1.loops = (fill (element s 0) vec list m).1.loops := by
  unfold collect
  cases hview : s.isTextView with
  | true =>
    simp only [if_true]
    refine ⟨_, _, ((n.fresh (stem target ++ "_list")).2.fresh (stem target ++ "_owned")).2, _,
      fun _ => isApart_owned (n.fresh (stem target ++ "_list")).2 target, rfl, ?_⟩
    show [] ++ (Code.seq _ (.line _)).loops = _
    rw [Code.loops_seq_line, List.nil_append]
  | false =>
    simp only [Bool.false_eq_true, if_false]
    have hrebind : (if mutable then Code.line (.bind true target (.var target)) else .skip).loops = [] := by
      cases mutable <;> rfl
    have hitems : ∀ i l c, (if mutable then Code.line (.bind true target (.var target)) else .skip) ≠ .items i l c := by
      intro i l c h
      cases mutable <;> cases h
    refine ⟨_, _, (n.fresh (stem target ++ "_list")).2, _, id, rfl, ?_⟩
    show [] ++ (Code.seq _ _).loops = _
    rw [Code.loops_seq hitems, hrebind, List.append_nil, List.nil_append]

theorem loopsFor_collect {target : String} (htarget : IsApart target) (s : Shape) (idx : Int) (mutable : Bool)
    (n : NameScope) : LoopsFor (collect target s idx mutable n).1.loops (s :: s.inside) := by
  obtain ⟨vec, list, m, rest, hvec, -, hloops⟩ := exists_fill_collect target s idx mutable n
  rw [hloops]
  exact loopsFor_fill ((hvec htarget).notMem_since (goes_element s 0 ..).leads) (loopsFor_reader false s 0 ..)

theorem insideOptional_unbox : (s : Shape) → s.unbox.1.insideOptional = s.insideOptional
  | .boxed s _ => insideOptional_unbox s
  | .number _ | .text _ | .boolean | .unit | .slice _ _ _ | .option _ _ | .result _ _ | .tuple _ _ | .mapping _ _ _
  | .reference _ _ _ | .named _ _ | .unknown _ | .vector _ _ => rfl

theorem loopsFor_optional (name : String) (s : Shape) (idx : Int) (n : NameScope) :
    LoopsFor (optional name s idx n).1.loops s.insideOptional := by
  have hboxed := fun t sp => Shape.unbox_ne_boxed t sp s
  rw [← insideOptional_unbox]
  unfold optional
  generalize s.unbox = unboxed at hboxed
  obtain ⟨t, boxes⟩ := unboxed
  cases t with
  | boxed t sp => exact absurd rfl (hboxed t sp)
  | vector t _ =>
    show LoopsFor ([] ++ (Code.seq _ (.line _)).loops ++ []) _
    rw [Code.loops_seq_line, List.append_nil]
    exact loopsFor_collect (isApart_vec _) t idx false _
  | text sp | number w | boolean => exact .nil
  | _ =>
    dsimp only
    split
    · exact .nil
    · exact .nil

theorem loopsFor_ofShape {name : String} (hname : IsApart name) (idx : Int) :
    (s : Shape) → LoopsFor (ofShape name idx s).loops s.itemShapes
  | .number _ | .boolean | .text _ | .unit | .result _ _ | .tuple _ _ | .mapping _ _ _ | .unknown _ | .named _ _ => .nil
  | .vector t _ => by
    rw [loops, ofShape, List.flatMap_singleton]
    exact loopsFor_collect hname t idx false {}
  | .slice t m _ => by
    rw [loops, ofShape, List.flatMap_singleton]
    exact loopsFor_collect (isApart_sliceName name) t idx m {}
  | .option t _ => by
    rw [loops, ofShape, List.flatMap_singleton]
    exact loopsFor_optional name t idx {}
  | .boxed t _ => loopsFor_ofShape hname idx t
  | .reference t m _ => by
    have ih := loopsFor_ofShape hname idx t
    have hrebind : (if m && (ofShape name idx t).arg = .var name then [Code.line (.bind true name (.var name))]
        else []).flatMap Code.loops = [] := by
      split <;> rfl
    cases t with
    | named _ _ => exact .nil
    | _ =>
      show LoopsFor ((_ ++ _ : List Code).flatMap Code.loops) _
      rw [List.flatMap_append, hrebind, List.append_nil]
      exact ih

/-- Whatever the shape of a parameter, each loop that fills a vector for it keeps the name of the vector, and pushes to it
    at most once a turn: once on every way where the items are optional, and otherwise once after the test of the item,
    if the item passes, and nothing before. -/
theorem pushes_per_item (x : String) (i : Nat) (s : Shape) :
    List.Forall₂ PushesByItem (ofShape (Wrapper.localName x i) i s).loops s.itemShapes :=
  loopsFor_ofShape (Wrapper.isLocal_localName x i).isApart i s

end Binding
end RingBridge
