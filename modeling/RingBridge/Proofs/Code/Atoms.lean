import RingBridge.Code
/-!
Code as its smallest parts, in the order in which they are written: tests, statements, and the expressions that hold
no others. What a part does with the arguments of the call and the tag that it passes on are read off each of them.
-/
namespace RingBridge

inductive Atom where
  | test (test : Test)
  | expr (expr : Expr)
  | stmt (stmt : Stmt)
  | receive (name struct : String)

@[simp] def Expr.atoms : Expr → List Atom
  | some e | box e | owned e | refer _ e | full e | clone e | deref e | toVec e | debug e => e.atoms
  | cond t a b => .test t :: (a.atoms ++ b.atoms)
  | e => [.expr e]

@[simp] def Call.atoms : Call → List Atom
  | .function _ args | .associated _ _ args | .method _ _ args => args.flatMap Expr.atoms
  | .setField _ e => e.atoms
  | .verbatim _ | .getField _ => []

@[simp] def Outgoing.atoms : Outgoing → List Atom
  | .number e | .truth e | .text e | .pointer e _ => e.atoms

/-- The expressions inside a statement come after the statement. -/
@[simp] def Stmt.atoms (s : Stmt) : List Atom :=
  .stmt s :: match s with
    | bind _ _ e | bindTuple _ e | push _ e | yield e => e.atoms
    | bindCall _ call | perform call => call.atoms
    | answer v | append _ v => v.atoms
    | _ => []

namespace Code

@[simp] def atoms : Code → List Atom
  | skip => []
  | line s => s.atoms
  | seq a b => a.atoms ++ b.atoms
  | fragment c => c.atoms
  | when t c => .test t :: c.atoms
  | letIf _ t a b => .test t :: (a.atoms ++ b.atoms)
  | letChain _ t₁ a₁ t₂ a₂ b => .test t₁ :: (a₁.atoms ++ .test t₂ :: (a₂.atoms ++ b.atoms))
  | items _ _ c => c.atoms
  | each _ e c | eachPair _ _ e c | matchOption e _ c _ | matchResult e _ c _ => e.atoms ++ c.atoms
  | matchDone e _ => e.atoms
  | receive x struct => [.receive x struct]

theorem atoms_ofList (cs : List Code) : (ofList cs).atoms = cs.flatMap atoms := by
  induction cs with
  | nil => rfl
  | cons c cs ih =>
    cases cs with
    | nil => simp [ofList]
    | cons d ds => exact congrArg (c.atoms ++ ·) ih

end Code

/-- What is done with the arguments of a call: their number is checked, the kind of one is checked or tested, one is
    read, or the handle in the first one is cleared. What unknown code does is not known. -/
inductive Access where
  | count (n : Nat)
  | check (idx : Int)
  | test (idx : Int)
  | read (idx : Int)
  | clear
  | unknown

namespace Access

end Access

namespace Atom

@[simp] def access? : Atom → Option Access
  | test (.isKind _ (.argument i)) => some (.test i)
  | expr (.number (.argument i) _) | expr (.text (.argument i)) | expr (.list (.argument i)) | expr (.handle i _) =>
    some (.read i)
  | stmt (.checkCount n) => some (.count n)
  | stmt (.check _ i) => some (.check i)
  | stmt .clearHandle => some .clear
  | receive _ _ => some (.read 1)
  | expr (.verbatim _ _) | stmt (.verbatim _ _) | stmt (.bindCall _ (.verbatim _)) | stmt (.perform (.verbatim _)) =>
    some .unknown
  | _ => none

@[simp] def tagged? : Atom → Option String
  | expr (.handle _ s) | stmt (.answer (.pointer _ s)) | stmt (.append _ (.pointer _ s)) | receive _ s => some s
  | _ => none

@[simp] def borrowed? : Atom → Option String
  | expr (.borrow _ s _) | expr (.duplicate _ s) => some s
  | _ => none

def freed? : Atom → Option String
  | stmt (.free _ s) => some s
  | _ => none

end Atom

def Code.accesses (c : Code) : List Access := c.atoms.filterMap Atom.access?

def Atom.IsKnown (a : Atom) : Prop := a.access? ≠ some .unknown

/-- In code that is known, the structs whose tags it asks for are those that its parts pass on. -/
theorem Expr.mem_structs {e : Expr} (h : ∀ a ∈ e.atoms, a.IsKnown) {s : String} :
    s ∈ e.structs ↔ ∃ a ∈ e.atoms, a.tagged? = Option.some s := by
  induction e with
  | some e ih | box e ih | owned e ih | refer m e ih | full e ih | clone e ih | deref e ih | toVec e ih | debug e ih =>
    exact ih h
  | cond t a b iha ihb =>
    simp only [atoms, List.forall_mem_cons, List.forall_mem_append] at h
    cases t <;> simp [structs, iha h.2.1, ihb h.2.2, or_and_right, exists_or]
  | verbatim c ss => simp [Atom.IsKnown] at h
  | _ => simp [structs, eq_comm]

theorem Call.mem_structs {c : Call} (h : ∀ a ∈ c.atoms, a.IsKnown) {s : String} :
    s ∈ c.structs ↔ ∃ a ∈ c.atoms, a.tagged? = some s := by
  have hargs : ∀ {args : List Expr}, (∀ a ∈ args.flatMap Expr.atoms, a.IsKnown) →
      (s ∈ args.flatMap Expr.structs ↔ ∃ a ∈ args.flatMap Expr.atoms, a.tagged? = some s) := by
    intro args h
    simp only [List.mem_flatMap, forall_exists_index, and_imp] at h ⊢
    constructor
    · rintro ⟨e, he, hs⟩
      obtain ⟨a, ha, hs⟩ := (Expr.mem_structs fun a => h a e he).1 hs
      exact ⟨a, ⟨e, he, ha⟩, hs⟩
    · rintro ⟨a, ⟨e, he, ha⟩, hs⟩
      exact ⟨e, he, (Expr.mem_structs fun a => h a e he).2 ⟨a, ha, hs⟩⟩
  cases c with
  | function x args | associated r x args | method v x args => exact hargs h
  | setField x e => exact Expr.mem_structs h
  | verbatim x | getField x => simp [structs]

theorem Outgoing.mem_structs {o : Outgoing} (h : ∀ a ∈ o.atoms, a.IsKnown) {s : String} :
    s ∈ o.structs ↔ (∃ b, o = .pointer b s) ∨ ∃ a ∈ o.atoms, a.tagged? = some s := by
  cases o with
  | number e | truth e | text e => simp [structs, Expr.mem_structs h]
  | pointer b r => simp [structs, Expr.mem_structs h, or_comm, eq_comm]

theorem Stmt.mem_structs {t : Stmt} (h : ∀ a ∈ t.atoms, a.IsKnown) {s : String} :
    s ∈ t.structs ↔ ∃ a ∈ t.atoms, a.tagged? = some s := by
  obtain ⟨hstmt, h⟩ := List.forall_mem_cons.1 h
  cases t with
  | verbatim c ss => simp [Atom.IsKnown] at hstmt
  | bind m x e | bindTuple xs e | push v e | yield e => simp [structs, Expr.mem_structs h]
  | bindCall x c | perform c => simp [structs, Call.mem_structs h]
  | answer o | append l o => cases o <;> simp [structs, Outgoing.mem_structs h, eq_comm]
  | _ => simp [structs]

theorem Code.mem_structs {c : Code} (h : ∀ a ∈ c.atoms, a.IsKnown) {s : String} :
    s ∈ c.structs ↔ ∃ a ∈ c.atoms, a.tagged? = some s := by
  induction c with
  | skip => simp [structs]
  | line t => exact Stmt.mem_structs h
  | fragment c ih => exact ih h
  | seq a b iha ihb =>
    have h := List.forall_mem_append.1 h
    simp [structs, iha h.1, ihb h.2, or_and_right, exists_or]
  | when t c ih =>
    have hbody := (List.forall_mem_cons.1 h).2
    cases t <;> simp [structs, ih hbody]
  | items i l c ih => exact ih h
  | letIf x t a b iha ihb =>
    simp only [atoms, List.forall_mem_cons, List.forall_mem_append] at h
    cases t <;> simp [structs, iha h.2.1, ihb h.2.2, or_and_right, exists_or]
  | letChain x t₁ a₁ t₂ a₂ b iha₁ iha₂ ihb =>
    simp only [atoms, List.forall_mem_cons, List.forall_mem_append] at h
    cases t₁ <;> cases t₂ <;>
      simp [structs, iha₁ h.2.1, iha₂ h.2.2.2.1, ihb h.2.2.2.2, or_and_right, exists_or]
  | each x e c ih | eachPair k v e c ih | matchOption e x c m ih | matchResult e x c m ih =>
    have h := List.forall_mem_append.1 h
    simp [structs, Expr.mem_structs h.1, ih h.2, or_and_right, exists_or]
  | matchDone e m => exact Expr.mem_structs h
  | receive x struct => simp [structs, eq_comm]

end RingBridge
