import RingBridge.Code
/-!
Control paths of wrapper bodies. A store says what each variable holds: a pointer before or after a null test, or
another value with its type. Code is followed along every branch; a block keeps its own variables to itself, so
each turn of a loop starts from the store before the loop.
-/
namespace RingBridge

/-- What a variable holds. A pointer remembers the struct under whose tag it was read, if it was read under one. -/
inductive Held where
  | untested (struct : Option String)
  | tested (struct : Option String)
  | value (type : Option Shape)

namespace Held

def unit : Held := value (some .unit)

def source : Held → Option String
  | untested s | tested s => s
  | value _ => none

def cloned : Held → Held
  | value (some (.reference t _ _)) => value (some t)
  | h => h

def boxed : Held → Held
  | value (some t) => value (some (.boxed t s!"Box<{t.spelling}>"))
  | _ => value none

def unboxed : Held → Held
  | value (some (.boxed t _)) => value (some t)
  | _ => value none

def asVector : Held → Held
  | value (some (.slice t _ _)) | value (some (.vector t _)) => value (some (.vector t s!"Vec<{t.spelling}>"))
  | _ => value none

def item : Held → Held
  | value (some (.vector t _)) => value (some t)
  | _ => value none

def key : Held → Held
  | value (some (.mapping t _ _)) => value (some t)
  | _ => value none

def entry : Held → Held
  | value (some (.mapping _ t _)) => value (some t)
  | _ => value none

def present : Held → Held
  | value (some (.option t _)) | value (some (.result t _)) => value (some t)
  | _ => value none

def parts : Held → List Shape
  | value (some (.tuple ts _)) => ts
  | _ => []

end Held

abbrev Store := String → Option Held

namespace Store

def empty : Store := fun _ => none

def set (σ : Store) (x : String) (h : Held) : Store := fun y => if y = x then some h else σ y

def setParts (σ : Store) : List String → List Shape → Store
  | x :: xs, t :: ts => (σ.set x (.value (some t))).setParts xs ts
  | x :: xs, [] => (σ.set x (.value none)).setParts xs []
  | [], _ => σ

def pass (σ : Store) (ptr : String) : Store :=
  match σ ptr with
  | some (.untested s) => σ.set ptr (.tested s)
  | _ => σ

def learn (σ : Store) : Test → Bool → Store
  | .isNull ptr, false | .notNull ptr, true => σ.pass ptr
  | _, _ => σ

end Store

/-- What code does with pointers: follow one, as a struct where it is cast to it, by dereferencing, borrowing, copying
    or freeing; use the receiver; give up a box under the tag of a struct; read the receiver under its tag; run code
    that is not known. -/
inductive Use where
  | follow (ptr : String) (struct : Option String)
  | object
  | hand (box : Expr) (struct : String)
  | receive (struct : String)
  | unknown

namespace Expr

def vars : Expr → List String
  | var x | views x => [x]
  | borrow ptr _ _ | duplicate ptr _ => [ptr]
  | some e | box e | owned e | refer _ e | full e | clone e | deref e | toVec e | debug e => e.vars
  | cond _ a b => a.vars ++ b.vars
  | _ => []

def held : Expr → Store → List Held
  | var x, σ => [(σ x).getD (.value Option.none)]
  | handle _ s, _ => [.untested s]
  | itemPointer _ _, _ | nullPointer, _ => [.untested Option.none]
  | cond t a b, σ => a.held (σ.learn t true) ++ b.held (σ.learn t false)
  | clone e, σ => (e.held σ).map Held.cloned
  | box e, σ => (e.held σ).map Held.boxed
  | deref e, σ => (e.held σ).map Held.unboxed
  | toVec e, σ => (e.held σ).map Held.asVector
  | defaultOf s, _ | duplicate _ s, _ => [.value (Option.some (.named s s))]
  | borrow _ s m, _ => [.value (Option.some (.reference (.named s s) m s!"&{s}"))]
  | _, _ => [.value Option.none]

/-- The uses in an expression, each with the store at its place. A dereference follows what its operand names. -/
def uses : Expr → Store → List (Use × Store)
  | borrow ptr s _, σ | duplicate ptr s, σ => [(.follow ptr s, σ)]
  | verbatim _ _, σ => [(.unknown, σ)]
  | cond t a b, σ => a.uses (σ.learn t true) ++ b.uses (σ.learn t false)
  | deref e, σ => e.vars.map (fun x => (.follow x Option.none, σ)) ++ e.uses σ
  | some e, σ | box e, σ | owned e, σ | refer _ e, σ | full e, σ | clone e, σ | toVec e, σ | debug e, σ => e.uses σ
  | _, _ => []

end Expr

def Call.uses : Call → Store → List (Use × Store)
  | .verbatim _, σ => [(.unknown, σ)]
  | .function _ args, σ | .associated _ _ args, σ => args.flatMap fun e => e.uses σ
  | .method _ _ args, σ => (args.flatMap fun e => e.uses σ) ++ [(.object, σ)]
  | .getField _, σ => [(.object, σ)]
  | .setField _ e, σ => e.uses σ ++ [(.object, σ)]

def Outgoing.uses : Outgoing → Store → List (Use × Store)
  | .number e, σ | .truth e, σ | .text e, σ => e.uses σ
  | .pointer b s, σ => b.uses σ ++ [(.hand b s, σ)]

namespace Stmt

def uses : Stmt → Store → List (Use × Store)
  | verbatim _ _, σ => [(.unknown, σ)]
  | bind _ _ e, σ | bindTuple _ e, σ | push _ e, σ | yield e, σ => e.uses σ
  | bindCall _ call, σ | perform call, σ => call.uses σ
  | free ptr s, σ => [(.follow ptr s, σ)]
  | answer v, σ | append _ v, σ => v.uses σ
  | _, _ => []

/-- The stores after a statement, with what it yields; none where the call ends. `result` is the type of the call
    that the wrapper is for. -/
def outcomes (result : Option Shape) : Stmt → Store → List (Store × Held)
  | bind _ x e, σ => (e.held σ).map fun h => (σ.set x h, .unit)
  | bindViews _ x _, σ => [(σ.set x (.value none), .unit)]
  | bindTuple xs e, σ => (e.held σ).map fun h => (σ.setParts xs h.parts, .unit)
  | bindCall x _, σ => [(σ.set x (.value result), .unit)]
  | yield e, σ => (e.held σ).map fun h => (σ, h)
  | leave, _ => []
  | _, σ => [(σ, .unit)]

end Stmt

namespace Code
variable (result : Option Shape)

inductive Falls : Code → Store → Store → Held → Prop where
  | skip {σ} : Falls skip σ σ .unit
  | line {s σ τ h} : (τ, h) ∈ s.outcomes result σ → Falls (line s) σ τ h
  | seq {a b σ ρ τ g h} : Falls a σ ρ g → Falls b ρ τ h → Falls (seq a b) σ τ h
  | fragment {c σ τ h} : Falls c σ τ h → Falls (fragment c) σ τ h
  | whenYes {t c σ τ h} : Falls c (σ.learn t true) τ h → Falls (when t c) σ (σ.learn t true) .unit
  | whenNo {t c σ} : Falls (when t c) σ (σ.learn t false) .unit
  | letYes {x t a b σ τ h} : Falls a (σ.learn t true) τ h → Falls (letIf x t a b) σ (σ.set x h) .unit
  | letNo {x t a b σ τ h} : Falls b (σ.learn t false) τ h → Falls (letIf x t a b) σ (σ.set x h) .unit
  | chainFirst {x t₁ a₁ t₂ a₂ b σ τ h} :
      Falls a₁ (σ.learn t₁ true) τ h → Falls (letChain x t₁ a₁ t₂ a₂ b) σ (σ.set x h) .unit
  | chainSecond {x t₁ a₁ t₂ a₂ b σ τ h} :
      Falls a₂ ((σ.learn t₁ false).learn t₂ true) τ h → Falls (letChain x t₁ a₁ t₂ a₂ b) σ (σ.set x h) .unit
  | chainLast {x t₁ a₁ t₂ a₂ b σ τ h} :
      Falls b ((σ.learn t₁ false).learn t₂ false) τ h → Falls (letChain x t₁ a₁ t₂ a₂ b) σ (σ.set x h) .unit
  | items {i l c σ} : Falls (items i l c) σ σ .unit
  | each {x e c σ} : Falls (each x e c) σ σ .unit
  | eachPair {k v e c σ} : Falls (eachPair k v e c) σ σ .unit
  | matchOption {e x c m σ} : Falls (matchOption e x c m) σ σ .unit
  | matchResult {e x c m σ} : Falls (matchResult e x c m) σ σ .unit
  | matchDone {e m σ} : Falls (matchDone e m) σ σ .unit
  | receive {x s σ} : Falls (receive x s) σ (σ.set x (.tested s)) .unit

/-- Code that starts in the store `σ` may come to a use in the store `τ`. -/
inductive Reaches : Code → Store → Use → Store → Prop where
  | line {s σ u τ} : (u, τ) ∈ s.uses σ → Reaches (line s) σ u τ
  | first {a b σ u τ} : Reaches a σ u τ → Reaches (seq a b) σ u τ
  | second {a b σ ρ h u τ} : Falls result a σ ρ h → Reaches b ρ u τ → Reaches (seq a b) σ u τ
  | fragment {c σ u τ} : Reaches c σ u τ → Reaches (fragment c) σ u τ
  | when {t c σ u τ} : Reaches c (σ.learn t true) u τ → Reaches (when t c) σ u τ
  | letYes {x t a b σ u τ} : Reaches a (σ.learn t true) u τ → Reaches (letIf x t a b) σ u τ
  | letNo {x t a b σ u τ} : Reaches b (σ.learn t false) u τ → Reaches (letIf x t a b) σ u τ
  | chainFirst {x t₁ a₁ t₂ a₂ b σ u τ} :
      Reaches a₁ (σ.learn t₁ true) u τ → Reaches (letChain x t₁ a₁ t₂ a₂ b) σ u τ
  | chainSecond {x t₁ a₁ t₂ a₂ b σ u τ} :
      Reaches a₂ ((σ.learn t₁ false).learn t₂ true) u τ → Reaches (letChain x t₁ a₁ t₂ a₂ b) σ u τ
  | chainLast {x t₁ a₁ t₂ a₂ b σ u τ} :
      Reaches b ((σ.learn t₁ false).learn t₂ false) u τ → Reaches (letChain x t₁ a₁ t₂ a₂ b) σ u τ
  | items {i l c σ u τ} : Reaches c (σ.set i (.value none)) u τ → Reaches (items i l c) σ u τ
  | eachHead {x e c σ u τ} : (u, τ) ∈ e.uses σ → Reaches (each x e c) σ u τ
  | each {x e c σ h u τ} : h ∈ e.held σ → Reaches c (σ.set x h.item) u τ → Reaches (each x e c) σ u τ
  | eachPairHead {k v e c σ u τ} : (u, τ) ∈ e.uses σ → Reaches (eachPair k v e c) σ u τ
  | eachPair {k v e c σ h u τ} :
      h ∈ e.held σ → Reaches c ((σ.set k h.key).set v h.entry) u τ → Reaches (eachPair k v e c) σ u τ
  | matchOptionHead {e x c m σ u τ} : (u, τ) ∈ e.uses σ → Reaches (matchOption e x c m) σ u τ
  | matchOption {e x c m σ h u τ} :
      h ∈ e.held σ → Reaches c (σ.set x h.present) u τ → Reaches (matchOption e x c m) σ u τ
  | matchResultHead {e x c m σ u τ} : (u, τ) ∈ e.uses σ → Reaches (matchResult e x c m) σ u τ
  | matchResult {e x c m σ h u τ} :
      h ∈ e.held σ → Reaches c (σ.set x h.present) u τ → Reaches (matchResult e x c m) σ u τ
  | matchDone {e m σ u τ} : (u, τ) ∈ e.uses σ → Reaches (matchDone e m) σ u τ
  | receive {x s σ} : Reaches (receive x s) σ (.receive s) σ

end Code

/-- Lines without effect on the store come to their end. -/
theorem Code.falls_lines {result : Option Shape} {σ : Store} {ss : List Stmt}
    (h : ∀ s ∈ ss, s.outcomes result σ = [(σ, .unit)]) : Falls result (lines ss) σ σ .unit := by
  have hline : ∀ s ∈ ss, Falls result (.line s) σ σ .unit :=
    fun s hs => .line (h s hs ▸ List.mem_singleton_self _)
  induction ss with
  | nil => exact .skip
  | cons s ss ih =>
    have hs := hline s (List.mem_cons_self ..)
    have hss := ih (fun r hr => h r (List.mem_cons_of_mem s hr)) fun r hr => hline r (List.mem_cons_of_mem s hr)
    cases ss with
    | nil => exact hs
    | cons r rs => exact .seq hs hss

namespace Store

@[simp] theorem set_self (σ : Store) (x : String) (h : Held) : σ.set x h x = some h := by simp [set]

theorem set_of_ne (σ : Store) {x y : String} (h : Held) (hy : y ≠ x) : σ.set x h y = σ y := by simp [set, hy]

@[simp] theorem pass_set (σ : Store) (x : String) (s : Option String) :
    (σ.set x (.untested s)).pass x = σ.set x (.tested s) := by
  funext y
  by_cases hy : y = x
  · simp [pass, hy]
  · simp [pass, set_of_ne, hy]

def IsValue (σ : Store) (z : String) : Prop := ∃ t, σ z = some (.value t)

theorem isValue_set (σ : Store) (x : String) (t : Option Shape) : (σ.set x (.value t)).IsValue x := ⟨t, set_self ..⟩

end Store
end RingBridge
