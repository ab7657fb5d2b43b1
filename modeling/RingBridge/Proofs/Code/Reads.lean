import RingBridge.Proofs.Binding.Bound
import RingBridge.Proofs.Code.Atoms
/-!
Reads in code, each with the kinds that are known where it stands: those that the tests around it have found, as long as
no variable of theirs is bound anew.
-/
namespace RingBridge

structure KindAt where
  kind : Kind
  slot : Slot
deriving DecidableEq

def Slot.vars : Slot → List String
  | argument _ => []
  | item list (.var i) => [list, i]
  | item list .first => [list]

def KindAt.leftBy (names : List String) (known : List KindAt) : List KindAt :=
  known.filter fun r => r.slot.vars.all fun x => !names.contains x

def Test.found : Test → List KindAt
  | isKind k s => [⟨k, s⟩]
  | isNull _ | notNull _ | isEmpty _ => []

def Stmt.found : Stmt → List KindAt
  | check k i => [⟨k, .argument i⟩]
  | _ => []

/-- A read, with what is known where it stands. -/
structure Read where
  read : KindAt
  known : List KindAt

def Read.IsTested (r : Read) : Prop := r.read ∈ r.known

namespace Expr

def read? : Expr → Option KindAt
  | number s _ => Option.some ⟨.number, s⟩
  | text s => Option.some ⟨.string, s⟩
  | list s => Option.some ⟨.list, s⟩
  | handle i _ => Option.some ⟨.pointer, .argument i⟩
  | itemPointer l i => Option.some ⟨.pointer, .item l i⟩
  | _ => Option.none

def reads (known : List KindAt) : Expr → List Read
  | some e | box e | owned e | refer _ e | full e | clone e | deref e | toVec e | debug e => e.reads known
  | cond t a b => a.reads (t.found ++ known) ++ b.reads known
  | e => e.read?.toList.map (Read.mk · known)

end Expr

def Call.reads (known : List KindAt) : Call → List Read
  | .function _ args | .associated _ _ args | .method _ _ args => args.flatMap (Expr.reads known)
  | .setField _ e => e.reads known
  | .verbatim _ | .getField _ => []

def Outgoing.reads (known : List KindAt) : Outgoing → List Read
  | .number e | .truth e | .text e | .pointer e _ => e.reads known

def Stmt.reads (known : List KindAt) : Stmt → List Read
  | bind _ _ e | bindTuple _ e | push _ e | yield e => e.reads known
  | bindCall _ call | perform call => call.reads known
  | answer o | append _ o => o.reads known
  | _ => []

namespace Code

def after (known : List KindAt) : Code → List KindAt
  | line s => s.found ++ KindAt.leftBy s.binders known
  | seq a b => b.after (a.after known)
  | fragment c => c.after known
  | c => KindAt.leftBy c.bound known

def reads (known : List KindAt) : Code → List Read
  | skip => []
  | line s => s.reads known
  | seq a b => a.reads known ++ b.reads (a.after known)
  | fragment c => c.reads known
  | when t c => c.reads (t.found ++ known)
  | letIf _ t a b => a.reads (t.found ++ known) ++ b.reads known
  | letChain _ t₁ a₁ t₂ a₂ b => a₁.reads (t₁.found ++ known) ++ (a₂.reads (t₂.found ++ known) ++ b.reads known)
  | items i _ c => c.reads (KindAt.leftBy [i] known)
  | each x e c => e.reads known ++ c.reads (KindAt.leftBy [x] known)
  | eachPair k v e c => e.reads known ++ c.reads (KindAt.leftBy [k, v] known)
  | matchOption e x c _ | matchResult e x c _ => e.reads known ++ c.reads (KindAt.leftBy [x] known)
  | matchDone e _ => e.reads known
  | receive _ _ => [⟨⟨.pointer, .argument 1⟩, known⟩]

end Code

def Atom.read? : Atom → Option KindAt
  | expr e => e.read?
  | receive _ _ => some ⟨.pointer, .argument 1⟩
  | test _ | stmt _ => none

/-- The reads of an expression are those of its parts, whatever is known. -/
theorem Expr.map_reads (e : Expr) (known : List KindAt) :
    (e.reads known).map Read.read = e.atoms.filterMap Atom.read? := by
  induction e generalizing known with
  | some e ih | box e ih | owned e ih | refer m e ih | full e ih | clone e ih | deref e ih | toVec e ih | debug e ih =>
    exact ih known
  | cond t a b iha ihb =>
    have ht : Atom.read? (.test t) = Option.none := rfl
    rw [reads, List.map_append, iha, ihb, atoms, List.filterMap_cons_none ht, List.filterMap_append]
  | _ => rfl

theorem Call.map_reads (c : Call) (known : List KindAt) :
    (c.reads known).map Read.read = c.atoms.filterMap Atom.read? := by
  have hargs : ∀ args : List Expr, (args.flatMap (Expr.reads known)).map Read.read =
      (args.flatMap Expr.atoms).filterMap Atom.read? := by
    intro args
    rw [List.map_flatMap, List.filterMap_flatMap]
    exact congrArg (List.flatMap · args) (funext fun e => e.map_reads known)
  cases c with
  | function x args | associated s x args | method v x args => exact hargs args
  | setField x e => exact e.map_reads known
  | verbatim x | getField x => rfl

theorem Outgoing.map_reads (o : Outgoing) (known : List KindAt) :
    (o.reads known).map Read.read = o.atoms.filterMap Atom.read? := by
  cases o <;> exact Expr.map_reads _ known

theorem Stmt.map_reads (s : Stmt) (known : List KindAt) :
    (s.reads known).map Read.read = s.atoms.filterMap Atom.read? := by
  cases s with
  | bind m x e | bindTuple xs e | push v e | yield e => exact e.map_reads known
  | bindCall x c | perform c => exact c.map_reads known
  | answer o | append l o => exact o.map_reads known
  | _ => rfl

/-- No read of code is left out, whatever is known where it starts. -/
theorem Code.map_reads (c : Code) (known : List KindAt) :
    (c.reads known).map Read.read = c.atoms.filterMap Atom.read? := by
  have htest : ∀ t, Atom.read? (.test t) = none := fun _ => rfl
  induction c generalizing known with
  | skip | receive x s => rfl
  | line s => exact s.map_reads known
  | seq a b iha ihb => rw [reads, List.map_append, iha, ihb, atoms, List.filterMap_append]
  | fragment c ih => exact ih known
  | when t c ih => rw [reads, ih, atoms, List.filterMap_cons_none (htest t)]
  | letIf x t a b iha ihb =>
    rw [reads, List.map_append, iha, ihb, atoms, List.filterMap_cons_none (htest t), List.filterMap_append]
  | letChain x t₁ a₁ t₂ a₂ b iha₁ iha₂ ihb =>
    rw [reads, List.map_append, List.map_append, iha₁, iha₂, ihb, atoms, List.filterMap_cons_none (htest t₁),
      List.filterMap_append, List.filterMap_cons_none (htest t₂), List.filterMap_append]
  | items i l c ih => exact ih _
  | each x e c ih | eachPair k v e c ih | matchOption e x c m ih | matchResult e x c m ih =>
    rw [reads, List.map_append, e.map_reads, ih, atoms, List.filterMap_append]
  | matchDone e m => exact e.map_reads known

end RingBridge
