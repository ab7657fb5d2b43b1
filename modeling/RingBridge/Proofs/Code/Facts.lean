import RingBridge.Proofs.Code.Traces
/-!
Facts about values. Where it is known of what kind the values are that code may read, and which of them are blank, the
tests are decided, and so is which ways the code can take.
-/
namespace RingBridge

/-- Where a value stands: in a slot, or as the first item of the list in a slot. -/
inductive Spot where
  | slot (s : Slot)
  | first (list : Slot)

structure Facts where
  kind : Spot → Option Kind
  blank : Spot → Bool

inductive Seen where
  | read (spot : Spot)
  | list (slot : Slot)
  | null
  | some
  | none
  | other

structure Known where
  vars : String → Seen
  last : Seen

namespace Known

def set (κ : Known) (x : String) (v : Seen) : Known := { κ with vars := fun y => if y = x then v else κ.vars y }

def forget (κ : Known) (xs : List String) : Known := { κ with vars := fun y => if y ∈ xs then .other else κ.vars y }

@[simp] theorem vars_set_self (κ : Known) (x : String) (v : Seen) : (κ.set x v).vars x = v := if_pos rfl

@[simp] theorem forget_nil (κ : Known) : κ.forget [] = κ := by simp [forget]

def spot (κ : Known) : Slot → Spot
  | .item l .first =>
    match κ.vars l with
    | .list s => .first s
    | _ => .slot (.item l .first)
  | s => .slot s

@[simp] theorem spot_argument (κ : Known) (idx : Int) : κ.spot (.argument idx) = .slot (.argument idx) := rfl

@[simp] theorem spot_item (κ : Known) (l i : String) : κ.spot (.item l (.var i)) = .slot (.item l (.var i)) := rfl

@[simp] theorem spot_first (κ : Known) (x : String) (s : Slot) :
    (κ.set x (.list s)).spot (.item x .first) = .first s := by
  simp [spot]

end Known

namespace Facts
variable (f : Facts)

def isBlank : Seen → Bool
  | .read spot => f.blank spot
  | .null => true
  | _ => false

/-- Whether a test holds. Variables of which nothing is known do not stand for anything blank. -/
def holds (κ : Known) : Test → Bool
  | .isKind k s => f.kind (κ.spot s) = some k
  | .isNull x | .isEmpty x => f.isBlank (κ.vars x)
  | .notNull x => !f.isBlank (κ.vars x)

@[simp] theorem holds_argument (κ : Known) (k : Kind) (idx : Int) :
    f.holds κ (.isKind k (.argument idx)) = decide (f.kind (.slot (.argument idx)) = some k) := rfl

@[simp] theorem holds_item (κ : Known) (k : Kind) (l i : String) :
    f.holds κ (.isKind k (.item l (.var i))) = decide (f.kind (.slot (.item l (.var i))) = some k) := rfl

def seen (κ : Known) : Expr → Seen
  | .text s => .read (κ.spot s)
  | .handle idx _ => .read (.slot (.argument idx))
  | .itemPointer l i => .read (κ.spot (.item l i))
  | .list s => .list s
  | .nullPointer => .null
  | .some _ => .some
  | .none => .none
  | .cond t a b => if f.holds κ t then seen κ a else seen κ b
  | _ => .other

@[simp] theorem seen_text (κ : Known) (t : Slot) : f.seen κ (.text t) = .read (κ.spot t) := rfl

@[simp] theorem seen_handle (κ : Known) (idx : Int) (struct : String) :
    f.seen κ (.handle idx struct) = .read (.slot (.argument idx)) := rfl

@[simp] theorem seen_itemPointer (κ : Known) (l : String) (i : Index) :
    f.seen κ (.itemPointer l i) = .read (κ.spot (.item l i)) := rfl

@[simp] theorem seen_list (κ : Known) (t : Slot) : f.seen κ (.list t) = .list t := rfl

@[simp] theorem seen_nullPointer (κ : Known) : f.seen κ .nullPointer = .null := rfl

@[simp] theorem seen_some (κ : Known) (e : Expr) : f.seen κ (.some e) = .some := rfl

@[simp] theorem seen_none (κ : Known) : f.seen κ .none = .none := rfl

@[simp] theorem seen_cond (κ : Known) (t : Test) (a b : Expr) :
    f.seen κ (.cond t a b) = if f.holds κ t then f.seen κ a else f.seen κ b := rfl

def step (κ : Known) : Step → Known
  | .stmt (.bind _ x e) => κ.set x (f.seen κ e)
  | .stmt (.yield e) => { κ with last := f.seen κ e }
  | .bind x => κ.set x κ.last
  | s => κ.forget s.binders

@[simp] theorem step_bind (κ : Known) (m : Bool) (x : String) (e : Expr) :
    f.step κ (.stmt (.bind m x e)) = κ.set x (f.seen κ e) := rfl

@[simp] theorem step_yield (κ : Known) (e : Expr) : f.step κ (.stmt (.yield e)) = { κ with last := f.seen κ e } := rfl

def after (κ : Known) (p : List Step) : Known := p.foldl f.step κ

/-- The outcomes of all tests on a way are those that the facts give. -/
def Agrees : Known → List Step → Prop
  | _, [] => True
  | κ, s :: p => (∀ t b, s = .move (.test t b) → f.holds κ t = b) ∧ Agrees (f.step κ s) p

theorem after_append (κ : Known) (p q : List Step) : f.after κ (p ++ q) = f.after (f.after κ p) q := List.foldl_append

theorem agrees_append (κ : Known) (p q : List Step) : f.Agrees κ (p ++ q) ↔ f.Agrees κ p ∧ f.Agrees (f.after κ p) q := by
  induction p generalizing κ with
  | nil => exact ⟨fun h => ⟨trivial, h⟩, And.right⟩
  | cons s p ih =>
    show _ ∧ f.Agrees (f.step κ s) (p ++ q) ↔ (_ ∧ f.Agrees (f.step κ s) p) ∧ _
    rw [ih, and_assoc]
    rfl

theorem step_test (κ : Known) (t : Test) (b : Bool) : f.step κ (.move (.test t b)) = κ := κ.forget_nil

theorem agrees_test {κ : Known} {t : Test} {b : Bool} {p : List Step} :
    f.Agrees κ (.move (.test t b) :: p) ↔ f.holds κ t = b ∧ f.Agrees κ p := by
  show _ ∧ f.Agrees (f.step κ _) p ↔ _
  rw [step_test]
  refine and_congr_left fun _ => ⟨fun h => h t b rfl, fun h t' b' he => ?_⟩
  cases he
  exact h

theorem after_test (κ : Known) (t : Test) (b : Bool) (p : List Step) :
    f.after κ (.move (.test t b) :: p) = f.after κ p := by
  show f.after (f.step κ _) p = _
  rw [step_test]

/-- Without a test, a way is open whatever the facts are. -/
theorem agrees_of_untested {κ : Known} {p : List Step} (h : ∀ s ∈ p, ∀ t b, s ≠ .move (.test t b)) : f.Agrees κ p := by
  induction p generalizing κ with
  | nil => trivial
  | cons s p ih =>
    have h := List.forall_mem_cons.1 h
    exact ⟨fun t b he => absurd he (h.1 t b), ih h.2⟩

theorem agrees_bindIf {κ : Known} {p : List Step} (h : f.Agrees κ p) (r : Bool) (x : String) :
    f.Agrees κ (p ++ Step.bindIf r x) := by
  refine (f.agrees_append ..).2 ⟨h, f.agrees_of_untested ?_⟩
  cases r <;> simp [Step.bindIf]

end Facts

namespace Code
variable {f : Facts} {κ : Known} {Q R : Known → Prop} {a b c : Code} {x : String} {t t₁ t₂ : Test}

/-- Some way agrees with the facts, whatever they are. -/
theorem exists_agreeing (f : Facts) (κ : Known) (c : Code) : ∃ p r, c.Path p r ∧ f.Agrees κ p := by
  induction c generalizing κ with
  | skip => exact ⟨_, _, .skip, trivial⟩
  | line s => exact ⟨_, _, .line, f.agrees_of_untested (by simp)⟩
  | seq a b iha ihb =>
    obtain ⟨p, r, ha, hp⟩ := iha κ
    cases r with
    | true =>
      obtain ⟨q, r, hb, hq⟩ := ihb (f.after κ p)
      exact ⟨_, _, .seq ha hb, (f.agrees_append ..).2 ⟨hp, hq⟩⟩
    | false => exact ⟨_, _, .left ha, hp⟩
  | fragment c ih =>
    obtain ⟨p, r, hc, hp⟩ := ih κ
    exact ⟨_, _, .fragment hc, hp⟩
  | when t c ih =>
    obtain ⟨p, r, hc, hp⟩ := ih κ
    cases ht : f.holds κ t with
    | true => exact ⟨_, _, .whenYes hc, f.agrees_test.2 ⟨ht, hp⟩⟩
    | false => exact ⟨_, _, .whenNo, f.agrees_test.2 ⟨ht, trivial⟩⟩
  | letIf x t a b iha ihb =>
    cases ht : f.holds κ t with
    | true =>
      obtain ⟨p, r, ha, hp⟩ := iha κ
      exact ⟨_, _, .letYes ha, f.agrees_test.2 ⟨ht, f.agrees_bindIf hp r x⟩⟩
    | false =>
      obtain ⟨p, r, hb, hp⟩ := ihb κ
      exact ⟨_, _, .letNo hb, f.agrees_test.2 ⟨ht, f.agrees_bindIf hp r x⟩⟩
  | letChain x t₁ a₁ t₂ a₂ b ih₁ ih₂ ihb =>
    cases h₁ : f.holds κ t₁ with
    | true =>
      obtain ⟨p, r, ha, hp⟩ := ih₁ κ
      exact ⟨_, _, .chainFirst ha, f.agrees_test.2 ⟨h₁, f.agrees_bindIf hp r x⟩⟩
    | false =>
      cases h₂ : f.holds κ t₂ with
      | true =>
        obtain ⟨p, r, ha, hp⟩ := ih₂ κ
        exact ⟨_, _, .chainSecond ha, f.agrees_test.2 ⟨h₁, f.agrees_test.2 ⟨h₂, f.agrees_bindIf hp r x⟩⟩⟩
      | false =>
        obtain ⟨p, r, hb, hp⟩ := ihb κ
        exact ⟨_, _, .chainLast hb, f.agrees_test.2 ⟨h₁, f.agrees_test.2 ⟨h₂, f.agrees_bindIf hp r x⟩⟩⟩
  | items i l c => exact ⟨_, _, .itemsDone, f.agrees_of_untested (by simp)⟩
  | each x e c => exact ⟨_, _, .eachDone, f.agrees_of_untested (by simp)⟩
  | eachPair k v e c => exact ⟨_, _, .pairDone, f.agrees_of_untested (by simp)⟩
  | matchOption e x c m => exact ⟨_, _, .none, f.agrees_of_untested (by simp)⟩
  | matchResult e x c m => exact ⟨_, _, .error, f.agrees_of_untested (by simp)⟩
  | matchDone e m => exact ⟨_, _, .doneOk, f.agrees_of_untested (by simp)⟩
  | receive x s => exact ⟨_, _, .received, f.agrees_of_untested (by simp)⟩

/-- Every way that agrees with the facts comes to the end of the code, and `Q` holds of what is known then. -/
def Under (f : Facts) (κ : Known) (c : Code) (Q : Known → Prop) : Prop :=
  ∀ p r, c.Path p r → f.Agrees κ p → r = true ∧ Q (f.after κ p)

namespace Under

theorem weaken (h : c.Under f κ Q) (hQ : ∀ τ, Q τ → R τ) : c.Under f κ R :=
  fun p r hp ha => (h p r hp ha).imp_right (hQ _)

theorem of_through {P : List Step → Prop} (h : c.Through P) : c.Under f κ fun _ => True :=
  fun p r hp _ => ⟨(h p r hp).1, trivial⟩

theorem line {s : Stmt} (hs : s.goesOn = true) (h : Q (f.step κ (.stmt s))) : (Code.line s).Under f κ Q := by
  intro p r hp _
  cases hp
  exact ⟨hs, h⟩

theorem seq (h : a.Under f κ fun τ => b.Under f τ Q) : (Code.seq a b).Under f κ Q := by
  intro p r hp hagree
  cases hp with
  | left ha => exact absurd (h _ _ ha hagree).1 Bool.false_ne_true
  | seq ha hb =>
    obtain ⟨hp, hq⟩ := (f.agrees_append ..).1 hagree
    rw [f.after_append]
    exact (h _ _ ha hp).2 _ _ hb hq

/-- A branch that is taken for the outcome of a test yields the value of a name. -/
theorem branch {p : List Step} {r : Bool} (h : c.Under f κ fun τ => Q (τ.set x τ.last)) (hp : c.Path p r)
    (hagree : f.Agrees κ (p ++ Step.bindIf r x)) : r = true ∧ Q (f.after κ (p ++ Step.bindIf r x)) := by
  obtain ⟨hp', -⟩ := (f.agrees_append ..).1 hagree
  obtain ⟨rfl, hQ⟩ := h p r hp hp'
  rw [f.after_append]
  exact ⟨rfl, hQ⟩

theorem letIf (hyes : f.holds κ t = true → a.Under f κ fun τ => Q (τ.set x τ.last))
    (hno : f.holds κ t = false → b.Under f κ fun τ => Q (τ.set x τ.last)) : (Code.letIf x t a b).Under f κ Q := by
  intro p r hp hagree
  cases hp with
  | letYes ha =>
    obtain ⟨ht, hagree⟩ := f.agrees_test.1 hagree
    rw [f.after_test]
    exact (hyes ht).branch ha hagree
  | letNo hb =>
    obtain ⟨ht, hagree⟩ := f.agrees_test.1 hagree
    rw [f.after_test]
    exact (hno ht).branch hb hagree

theorem letChain (hfirst : f.holds κ t₁ = true → a.Under f κ fun τ => Q (τ.set x τ.last))
    (hsecond : f.holds κ t₁ = false → f.holds κ t₂ = true → b.Under f κ fun τ => Q (τ.set x τ.last))
    (hlast : f.holds κ t₁ = false → f.holds κ t₂ = false → c.Under f κ fun τ => Q (τ.set x τ.last)) :
    (Code.letChain x t₁ a t₂ b c).Under f κ Q := by
  intro p r hp hagree
  cases hp with
  | chainFirst ha =>
    obtain ⟨h₁, hagree⟩ := f.agrees_test.1 hagree
    rw [f.after_test]
    exact (hfirst h₁).branch ha hagree
  | chainSecond hb =>
    obtain ⟨h₁, hagree⟩ := f.agrees_test.1 hagree
    obtain ⟨h₂, hagree⟩ := f.agrees_test.1 hagree
    rw [f.after_test, f.after_test]
    exact (hsecond h₁ h₂).branch hb hagree
  | chainLast hc =>
    obtain ⟨h₁, hagree⟩ := f.agrees_test.1 hagree
    obtain ⟨h₂, hagree⟩ := f.agrees_test.1 hagree
    rw [f.after_test, f.after_test]
    exact (hlast h₁ h₂).branch hc hagree

end Under
end Code
end RingBridge
