import RingBridge.Proofs.Binding.Readers
/-!
Boxes around options and items. A boxed shape is bound as what is in its boxes, with the boxes put around each value. Two
branches do otherwise: an optional argument of a shape with no branch of its own loses its boxes, and boxed views of text
are collected like text that is owned.
-/
namespace RingBridge
open Code

namespace Expr

def boxSome (k : Nat) : Expr → Expr
  | .some e => .some (e.boxes k)
  | .cond t a b => .cond t (a.boxSome k) (b.boxSome k)
  | e => e

end Expr

namespace Stmt

def boxSome (k : Nat) : Stmt → Stmt
  | .bind m x e => .bind m x (e.boxSome k)
  | .yield e => .yield (e.boxSome k)
  | s => s

def boxPush (k : Nat) : Stmt → Stmt
  | .push vec e => .push vec (e.boxes k)
  | s => s

end Stmt

namespace Code

def mapOutside (g : Stmt → Stmt) : Code → Code
  | line s => line (g s)
  | seq a b => seq (a.mapOutside g) (b.mapOutside g)
  | fragment c => fragment (c.mapOutside g)
  | when t c => when t (c.mapOutside g)
  | letIf x t a b => letIf x t (a.mapOutside g) (b.mapOutside g)
  | letChain x t₁ a₁ t₂ a₂ b => letChain x t₁ (a₁.mapOutside g) t₂ (a₂.mapOutside g) (b.mapOutside g)
  | matchOption e x c m => matchOption e x (c.mapOutside g) m
  | matchResult e x c m => matchResult e x (c.mapOutside g) m
  | skip => skip
  | items i l c => items i l c
  | each x e c => each x e c
  | eachPair k v e c => eachPair k v e c
  | matchDone e m => matchDone e m
  | receive x s => receive x s

def mapTurns (g : Stmt → Stmt) : Code → Code
  | items i l c => items i l (c.mapOutside g)
  | seq a b => seq (a.mapTurns g) (b.mapTurns g)
  | c => c

end Code

def Binding.mapGets (f : Code → Code) (b : Binding) : Binding := { b with gets := b.gets.map f }

namespace Shape

def inBoxes (t : Shape) : List String → Shape
  | [] => t
  | sp :: sps => .boxed (t.inBoxes sps) sp

def hasBranch : Shape → Bool
  | text _ | vector _ _ | number _ | boolean | named _ _ | reference (named _ _) _ _ => true
  | _ => false

def IsBoxed (t : Shape) : Prop := ∃ u sp, t = .boxed u sp

theorem unbox_of_not_isBoxed {t : Shape} (h : ¬ t.IsBoxed) : t.unbox = (t, 0) := by
  cases t with
  | boxed u sp => exact absurd ⟨u, sp, rfl⟩ h
  | _ => rfl

theorem unbox_inBoxes {t : Shape} (h : ¬ t.IsBoxed) (sps : List String) : (t.inBoxes sps).unbox = (t, sps.length) := by
  induction sps with
  | nil => exact unbox_of_not_isBoxed h
  | cons sp sps ih => rw [inBoxes, unbox, ih, List.length_cons]

end Shape

namespace Binding

theorem reader_inBoxes (o : Bool) (t : Shape) (sps : List String) (k : Nat) :
    reader o (t.inBoxes sps) k = reader o t (k + sps.length) := by
  induction sps generalizing k with
  | nil => rfl
  | cons sp sps ih => rw [Shape.inBoxes, reader_boxed, ih, List.length_cons, Nat.add_assoc, Nat.add_comm 1]

theorem element_inBoxes (t : Shape) (sps : List String) (k : Nat) :
    element (t.inBoxes sps) k = element t (k + sps.length) :=
  reader_inBoxes false t sps k

theorem optionalItem_inBoxes (t : Shape) (sps : List String) (k : Nat) :
    optionalItem (t.inBoxes sps) k = optionalItem t (k + sps.length) :=
  reader_inBoxes true t sps k

def ItemReader.IsMapped (g : Stmt → Stmt) (item item' : ItemReader) : Prop :=
  ∀ target list i n, item' target list i n = ((item target list i n).1.mapOutside g, (item target list i n).2)

theorem pushLeaf_isMapped (s : Shape) (k : Nat) : ItemReader.IsMapped (Stmt.boxPush k) (pushLeaf s 0) (pushLeaf s k) := by
  intro vec list i n
  unfold pushLeaf
  cases s.pointee? <;> rfl

theorem bindLeaf_isMapped (s : Shape) (k : Nat) : ItemReader.IsMapped (Stmt.boxSome k) (bindLeaf s 0) (bindLeaf s k) := by
  intro value list i n
  unfold bindLeaf
  cases s.pointee? <;> rfl

/-- Outside of loops, nothing is pushed to bind an optional item. -/
theorem optionalItem_boxPush (k : Nat) (s : Shape) (boxes : Nat) :
    ItemReader.IsMapped (Stmt.boxPush k) (optionalItem s boxes) (optionalItem s boxes) := by
  induction s, boxes using optionalItem_induction with
  | boxed s sp boxes ih => exact ih
  | vector s sp boxes => exact fun _ _ _ _ => rfl
  | leaf s boxes hs =>
    have hread : optionalItem s boxes = bindLeaf s boxes := reader_optionalLeaf hs boxes
    rw [hread]
    intro value list i n
    unfold bindLeaf
    cases s.pointee? <;> rfl

theorem element_isMapped {t : Shape} (ht : ¬ t.IsBoxed) (k : Nat) :
    ItemReader.IsMapped (Stmt.boxPush k) (element t 0) (element t k) := by
  cases t with
  | boxed u sp => exact absurd ⟨u, sp, rfl⟩ ht
  | vector s _ => exact fun _ _ _ _ => rfl
  | option s _ =>
    intro vec list i n
    have hread := congrArg Prod.fst (optionalItem_boxPush k s 0 (n.fresh "item").1 list i (n.fresh "item").2)
    exact Prod.ext (congrArg (Code.seq · _) hread) rfl
  | _ => exact pushLeaf_isMapped _ k

theorem optionalItem_isMapped {t : Shape} (ht : ¬ t.IsBoxed) (k : Nat) :
    ItemReader.IsMapped (Stmt.boxSome k) (optionalItem t 0) (optionalItem t k) := by
  cases t with
  | boxed u sp => exact absurd ⟨u, sp, rfl⟩ ht
  | vector s _ => exact fun _ _ _ _ => rfl
  | _ => exact bindLeaf_isMapped _ k

theorem element_option_isMapped {t : Shape} (ht : ¬ t.IsBoxed) (sps : List String) (sp sp' : String) :
    ItemReader.IsMapped (Stmt.boxSome sps.length) (element (.option t sp) 0)
      (element (.option (t.inBoxes sps) sp') 0) := by
  intro vec list i n
  have hread := optionalItem_isMapped ht sps.length (n.fresh "item").1 list i (n.fresh "item").2
  rw [← Nat.zero_add sps.length, ← optionalItem_inBoxes, Nat.zero_add] at hread
  have hcode := congrArg Prod.fst hread
  have hscope := congrArg Prod.snd hread
  exact Prod.ext (congrArg (Code.seq · _) hcode) hscope

theorem collect_mapTurns {g : Stmt → Stmt} {s s' : Shape} (h : ItemReader.IsMapped g (element s 0) (element s' 0))
    (hview : s'.isTextView = s.isTextView) (target : String) (idx : Int) (mutable : Bool) (n : NameScope) :
    (collect target s' idx mutable n).1 = (collect target s idx mutable n).1.mapTurns g := by
  have hfill : ∀ vec list m, (fill (element s' 0) vec list m).1 = (fill (element s 0) vec list m).1.mapTurns g := by
    intro vec list m
    have hbody := congrArg Prod.fst (h vec list (m.fresh "i").1 (m.fresh "i").2)
    exact congrArg (fun c => Code.seq _ (.items _ _ c)) hbody
  unfold collect
  rw [hview]
  cases s.isTextView with
  | true =>
    simp only [if_true]
    exact congrArg (fun c => Code.seq _ (.seq c _)) (hfill _ _ _)
  | false =>
    simp only [Bool.false_eq_true, if_false]
    cases mutable <;> exact congrArg (fun c => Code.seq _ (.seq c _)) (hfill _ _ _)

/-- Outside of loops, a list is collected without a `Some`. -/
theorem collect_boxSome (k : Nat) (target : String) (s : Shape) (idx : Int) (mutable : Bool) (n : NameScope) :
    (collect target s idx mutable n).1.mapOutside (Stmt.boxSome k) = (collect target s idx mutable n).1 := by
  unfold collect
  cases s.isTextView <;> cases mutable <;> rfl

theorem optional_inBoxes {t : Shape} (ht : ¬ t.IsBoxed) (hbranch : t.hasBranch = true) (sps : List String) (name : String)
    (idx : Int) (n : NameScope) :
    (optional name (t.inBoxes sps) idx n).1 = (optional name t idx n).1.mapOutside (Stmt.boxSome sps.length) := by
  unfold optional
  rw [Shape.unbox_inBoxes ht, Shape.unbox_of_not_isBoxed ht]
  cases t with
  | text sp | number w | boolean | named struct sp => rfl
  | vector s _ =>
    have hcollect := collect_boxSome sps.length ((n.fresh "s").2.fresh "vec").1 s idx false ((n.fresh "s").2.fresh "vec").2
    exact congrArg (fun c => Code.letChain _ _ _ _ (.seq c _) _) hcollect.symm
  | reference u m sp =>
    cases u with
    | named struct _ => rfl
    | _ => cases hbranch
  | _ => cases hbranch

/-- Without a branch of its own, an optional argument is a number, whatever was in the boxes and however many there
    were. -/
theorem optional_of_not_hasBranch {t : Shape} (ht : ¬ t.IsBoxed) (hbranch : t.hasBranch = false) (sps : List String)
    (name : String) (idx : Int) (n : NameScope) :
    (optional name (t.inBoxes sps) idx n).1 = .letChain name (.isKind .string (.argument idx)) (.line (.yield .none))
      (.isKind .number (.argument idx)) (.line (.yield (.some (.number (.argument idx) .inferred))))
      (.line (.yield .none)) := by
  unfold optional
  rw [Shape.unbox_inBoxes ht]
  cases t with
  | text sp | number w | boolean | named struct sp | vector s _ => cases hbranch
  | boxed u sp => exact absurd ⟨u, sp, rfl⟩ ht
  | reference u m sp =>
    cases u with
    | named struct _ => cases hbranch
    | _ => rfl
  | _ => rfl

theorem isTextView_inBoxes {t : Shape} {sps : List String} (h : sps = [] ∨ t.isTextView = false) :
    (t.inBoxes sps).isTextView = t.isTextView := by
  cases sps with
  | nil => rfl
  | cons sp sps => exact (h.resolve_left (List.cons_ne_nil _ _)).symm

/-- Boxes come back around the value of an optional argument exactly if there are none, or if the shape has a branch of its
    own. -/
theorem option_inBoxes_iff {t : Shape} (ht : ¬ t.IsBoxed) (sps : List String) (name : String) (idx : Int)
    (sp sp' : String) :
    ofShape name idx (.option (t.inBoxes sps) sp') =
      (ofShape name idx (.option t sp)).mapGets (Code.mapOutside (Stmt.boxSome sps.length)) ↔
    sps = [] ∨ t.hasBranch = true := by
  cases hbranch : t.hasBranch with
  | true =>
    refine iff_of_true ?_ (.inr rfl)
    exact congrArg (fun c => Binding.mk [] [c] (.var name)) (optional_inBoxes ht hbranch sps name idx {})
  | false =>
    have hboxed := optional_of_not_hasBranch ht hbranch sps name idx {}
    have hplain := optional_of_not_hasBranch ht hbranch [] name idx {}
    constructor
    · intro h
      have hcode : (optional name (t.inBoxes sps) idx {}).1 =
          (optional name (t.inBoxes []) idx {}).1.mapOutside (Stmt.boxSome sps.length) :=
        List.singleton_inj.1 (congrArg Binding.gets h)
      rw [hboxed, hplain] at hcode
      have hvalue : Expr.number (.argument idx) .inferred = (Expr.number (.argument idx) .inferred).boxes sps.length := by
        simpa [Code.mapOutside, Stmt.boxSome, Expr.boxSome] using hcode
      cases sps with
      | nil => exact .inl rfl
      | cons sp sps => cases hvalue
    · rintro (rfl | h)
      · have hcode : (optional name t idx {}).1 = (optional name t idx {}).1.mapOutside (Stmt.boxSome 0) := by
          rw [show optional name t idx {} = optional name (t.inBoxes []) idx {} from rfl, hplain]
          rfl
        exact congrArg (fun c => Binding.mk [] [c] (.var name)) hcode
      · cases h

/-- Boxes come back around the items of a vector exactly if there are none, or if the items are not views of text. -/
theorem vector_inBoxes_iff {t : Shape} (ht : ¬ t.IsBoxed) (sps : List String) (name : String) (idx : Int)
    (sp sp' : String) :
    ofShape name idx (.vector (t.inBoxes sps) sp') =
      (ofShape name idx (.vector t sp)).mapGets (Code.mapTurns (Stmt.boxPush sps.length)) ↔
    sps = [] ∨ t.isTextView = false := by
  constructor
  · intro h
    cases sps with
    | nil => exact .inl rfl
    | cons sp sps =>
      cases hview : t.isTextView with
      | false => exact .inr rfl
      | true =>
        have hcode : (collect name (t.inBoxes (sp :: sps)) idx false {}).1 =
            (collect name t idx false {}).1.mapTurns (Stmt.boxPush (sp :: sps).length) :=
          List.singleton_inj.1 (congrArg Binding.gets h)
        have hboxed : (t.inBoxes (sp :: sps)).isTextView = false := rfl
        simp only [collect, hboxed, hview, Bool.false_eq_true, if_true, if_false, Code.mapTurns, Code.seq.injEq] at hcode
        cases hcode.2.2
  · intro h
    have hitem : ItemReader.IsMapped (Stmt.boxPush sps.length) (element t 0) (element (t.inBoxes sps) 0) := by
      rw [element_inBoxes, Nat.zero_add]
      exact element_isMapped ht sps.length
    have hcode := collect_mapTurns hitem (isTextView_inBoxes h) name idx false {}
    exact congrArg (fun c => Binding.mk [.check .list idx] [c] (.var name)) hcode

/-- Around the optional items of a vector, boxes always come back. -/
theorem vector_option_inBoxes {t : Shape} (ht : ¬ t.IsBoxed) (sps : List String) (name : String) (idx : Int)
    (sp sp' sq sq' : String) : ofShape name idx (.vector (.option (t.inBoxes sps) sp') sq') =
      (ofShape name idx (.vector (.option t sp) sq)).mapGets (Code.mapTurns (Stmt.boxSome sps.length)) := by
  have hcode := collect_mapTurns (element_option_isMapped ht sps sp sp') rfl name idx false {}
  exact congrArg (fun c => Binding.mk [.check .list idx] [c] (.var name)) hcode

/-- For every shape that is no box, and boxes of any number around it: the boxes stand around what is in a `Some` of an
    optional argument if the shape has a branch of its own, and are lost otherwise; they stand around the items of a vector
    unless the items are views of text, which are then no longer collected as views; and they stand around what is in a
    `Some` of the optional items of a vector. Nothing else changes. -/
theorem ofShape_inBoxes {t : Shape} (ht : ¬ t.IsBoxed) (sps : List String) (name : String) (idx : Int)
    (sp sp' sq sq' : String) :
    (ofShape name idx (.option (t.inBoxes sps) sp') =
        (ofShape name idx (.option t sp)).mapGets (Code.mapOutside (Stmt.boxSome sps.length)) ↔
      sps = [] ∨ t.hasBranch = true) ∧
    (t.hasBranch = false → ofShape name idx (.option (t.inBoxes sps) sp') = ofShape name idx (.option t sp)) ∧
    (ofShape name idx (.vector (t.inBoxes sps) sp') =
        (ofShape name idx (.vector t sp)).mapGets (Code.mapTurns (Stmt.boxPush sps.length)) ↔
      sps = [] ∨ t.isTextView = false) ∧
    ofShape name idx (.vector (.option (t.inBoxes sps) sp') sq') =
      (ofShape name idx (.vector (.option t sp) sq)).mapGets (Code.mapTurns (Stmt.boxSome sps.length)) := by
  refine ⟨option_inBoxes_iff ht sps name idx sp sp', fun hbranch => ?_, vector_inBoxes_iff ht sps name idx sp sp',
    vector_option_inBoxes ht sps name idx sp sp' sq sq'⟩
  have hboxed := optional_of_not_hasBranch ht hbranch sps name idx {}
  have hplain := optional_of_not_hasBranch ht hbranch [] name idx {}
  exact congrArg (fun c => Binding.mk [] [c] (.var name)) (hboxed.trans hplain.symm)

/-- A counter in two boxes. -/
theorem ofShape_inBoxes_counter : ¬ (Shape.named "Counter" "Counter").IsBoxed ∧
    ofShape "c" 1 (.option ((Shape.named "Counter" "Counter").inBoxes ["Box<Box<Counter>>", "Box<Counter>"])
        "Option<Box<Box<Counter>>>") =
      (ofShape "c" 1 (.option (.named "Counter" "Counter") "Option<Counter>")).mapGets
        (Code.mapOutside (Stmt.boxSome 2)) := by
  have hcounter : ¬ (Shape.named "Counter" "Counter").IsBoxed := fun ⟨_, _, h⟩ => by cases h
  exact ⟨hcounter, (ofShape_inBoxes hcounter ["Box<Box<Counter>>", "Box<Counter>"] "c" 1 "Option<Counter>"
    "Option<Box<Box<Counter>>>" "" "").1.2 (.inr rfl)⟩

/-- A pair in a box loses it as an optional argument, and boxed views of text are collected as owned text. -/
theorem ofShape_inBoxes_not :
    ofShape "x" 1 (.option (.boxed (.tuple [.number .f64, .number .f64] "(f64,f64)") "Box<(f64,f64)>")
        "Option<Box<(f64,f64)>>") ≠
      (ofShape "x" 1 (.option (.tuple [.number .f64, .number .f64] "(f64,f64)") "Option<(f64,f64)>")).mapGets
        (Code.mapOutside (Stmt.boxSome 1)) ∧
    ofShape "x" 1 (.vector (.boxed (.text "&str") "Box<&str>") "Vec<Box<&str>>") ≠
      (ofShape "x" 1 (.vector (.text "&str") "Vec<&str>")).mapGets (Code.mapTurns (Stmt.boxPush 1)) := by
  have htuple : ¬ (Shape.tuple [.number .f64, .number .f64] "(f64,f64)").IsBoxed := fun ⟨_, _, h⟩ => by cases h
  have htext : ¬ (Shape.text "&str").IsBoxed := fun ⟨_, _, h⟩ => by cases h
  constructor
  · intro h
    exact absurd ((option_inBoxes_iff htuple ["Box<(f64,f64)>"] "x" 1 _ _).1 h) (by decide)
  · intro h
    exact absurd ((vector_inBoxes_iff htext ["Box<&str>"] "x" 1 _ _).1 h) (by decide)

end Binding
end RingBridge
