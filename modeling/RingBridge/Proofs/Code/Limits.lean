import RingBridge.Proofs.Code.Atoms
import RingBridge.Text.Word
/-!
Limits on code: what it may do with arguments, the structs whose tags it may pass on, those it may borrow and those it
may free, and the characters that its names may have. They are stated by recursion on the code, and hold of each of its
parts.
-/
namespace RingBridge

structure Limits where
  accesses : Access → Prop
  tags : String → Prop
  borrows : String → Prop
  frees : String → Prop
  chars : Char → Prop
  word : ∀ c, Text.isWord c = true → chars c

namespace Limits

def on (accesses : Access → Prop) (tags : String → Prop) : Limits where
  accesses
  tags
  borrows _ := True
  frees _ := True
  chars _ := True
  word _ _ := trivial

def Allows (L : Limits) (x : String) : Prop := ∀ c ∈ x.toList, L.chars c

variable {L : Limits}

theorem allows_on {accesses : Access → Prop} {tags : String → Prop} (x : String) : (on accesses tags).Allows x :=
  fun _ _ => trivial

theorem allows_append {x y : String} : L.Allows (x ++ y) ↔ L.Allows x ∧ L.Allows y := by
  simp [Allows, or_imp, forall_and]

theorem allows_of_word {x : String} (h : ∀ c ∈ x.toList, Text.isWord c = true) : L.Allows x :=
  fun c hc => L.word c (h c hc)

theorem allows_toString (n : Nat) : L.Allows (toString n) := by
  apply allows_of_word
  intro c hc
  have hdigit : c.isDigit = true := Nat.isDigit_of_mem_toDigits (b := 10) (by decide) (by decide) (by simpa using hc)
  have hlt : c.toNat < 128 := by
    simp only [Char.isDigit, Bool.and_eq_true, decide_eq_true_eq] at hdigit
    have := hdigit.2
    simp only [UInt32.le_iff_toNat_le] at this
    exact Nat.lt_of_le_of_lt this (by decide)
  have hascii : Text.isAsciiDigit c = true := hdigit
  simp [Text.isWord, hlt, hascii]

theorem allows_fresh {n : NameScope} {stem : String} (h : L.Allows stem) : L.Allows (n.fresh stem).1 := by
  have hunder : L.Allows "__" := allows_of_word (by decide)
  simp only [NameScope.fresh, NameScope.numbered]
  split
  · exact allows_append.2 ⟨hunder, h⟩
  · exact allows_append.2 ⟨allows_append.2 ⟨hunder, h⟩, allows_toString _⟩

/-- A temporary for a stem that is a word. -/
theorem allows_fresh_word (n : NameScope) {stem : String} (h : ∀ c ∈ stem.toList, Text.isWord c = true) :
    L.Allows (n.fresh stem).1 := allows_fresh (allows_of_word h)

theorem allows_freshEach {stems : List String} (h : ∀ x ∈ stems, L.Allows x) (n : NameScope) :
    ∀ x ∈ (n.freshEach stems).1, L.Allows x := by
  induction stems generalizing n with
  | nil => nofun
  | cons y ys ih =>
    have h := List.forall_mem_cons.1 h
    exact List.forall_mem_cons.2 ⟨allows_fresh h.1, ih h.2 _⟩

end Limits

@[simp] def Index.Within (L : Limits) : Index → Prop
  | var x => L.Allows x
  | first => True

@[simp] def Slot.Within (L : Limits) (use : Int → Access) : Slot → Prop
  | argument i => L.accesses (use i)
  | item l i => L.Allows l ∧ i.Within L

@[simp] def Test.Within (L : Limits) : Test → Prop
  | isKind _ s => s.Within L .test
  | isNull x | notNull x | isEmpty x => L.Allows x

@[simp] def Expr.Within (L : Limits) : Expr → Prop
  | var x | views x | defaultOf x | subList x => L.Allows x
  | verbatim c ss => L.accesses .unknown ∧ (∀ s ∈ ss, L.tags s) ∧ L.Allows c
  | number s _ | text s | list s => s.Within L .read
  | handle i s => L.accesses (.read i) ∧ L.tags s ∧ L.Allows s
  | itemPointer l i => L.Allows l ∧ i.Within L
  | some e | box e | owned e | refer _ e | full e | clone e | deref e | toVec e | debug e => e.Within L
  | cond t a b => t.Within L ∧ a.Within L ∧ b.Within L
  | borrow x s _ | duplicate x s => L.borrows s ∧ L.Allows x ∧ L.Allows s
  | nullPointer | none | newVec | newList => True

@[simp] def Call.Within (L : Limits) : Call → Prop
  | .verbatim c => L.accesses .unknown ∧ L.Allows c
  | .function x args | .method _ x args => L.Allows x ∧ ∀ e ∈ args, e.Within L
  | .associated s x args => L.Allows s ∧ L.Allows x ∧ ∀ e ∈ args, e.Within L
  | .getField x => L.Allows x
  | .setField x e => L.Allows x ∧ e.Within L

@[simp] def Outgoing.Within (L : Limits) : Outgoing → Prop
  | .number e | .truth e | .text e => e.Within L
  | .pointer e s => e.Within L ∧ L.tags s ∧ L.Allows s

def Stmt.Within (L : Limits) : Stmt → Prop
  | verbatim c ss => L.accesses .unknown ∧ (∀ s ∈ ss, L.tags s) ∧ L.Allows c
  | checkCount n => L.accesses (.count n)
  | check _ i => L.accesses (.check i)
  | bind _ x e | push x e => L.Allows x ∧ e.Within L
  | bindViews _ x v => L.Allows x ∧ L.Allows v
  | bindTuple xs e => (∀ x ∈ xs, L.Allows x) ∧ e.Within L
  | bindCall x call => L.Allows x ∧ call.Within L
  | perform call => call.Within L
  | yield e => e.Within L
  | invalidPointer s => L.Allows s
  | free x s => L.frees s ∧ L.Allows x ∧ L.Allows s
  | clearHandle => L.accesses .clear
  | answer v => v.Within L
  | append l v => L.Allows l ∧ v.Within L
  | answerList l | appendHole l => L.Allows l
  | leave => True

@[simp] def Missing.Within (L : Limits) : Missing → Prop
  | nothing => True
  | hole x | raise x => L.Allows x

namespace Code

@[simp] def Within (L : Limits) : Code → Prop
  | skip => True
  | line s => s.Within L
  | seq a b => a.Within L ∧ b.Within L
  | fragment c => c.Within L
  | when t c => t.Within L ∧ c.Within L
  | letIf x t a b => L.Allows x ∧ t.Within L ∧ a.Within L ∧ b.Within L
  | letChain x t₁ a₁ t₂ a₂ b =>
    L.Allows x ∧ t₁.Within L ∧ a₁.Within L ∧ t₂.Within L ∧ a₂.Within L ∧ b.Within L
  | items i l c => L.Allows i ∧ L.Allows l ∧ c.Within L
  | each x e c => L.Allows x ∧ e.Within L ∧ c.Within L
  | eachPair k v e c => L.Allows k ∧ L.Allows v ∧ e.Within L ∧ c.Within L
  | matchOption e x c m | matchResult e x c m => e.Within L ∧ L.Allows x ∧ c.Within L ∧ m.Within L
  | matchDone e m => e.Within L ∧ m.Within L
  | receive x s => L.Allows x ∧ L.accesses (.read 1) ∧ L.tags s ∧ L.Allows s

end Code

variable {L : Limits}

@[simp] theorem Expr.within_boxes {e : Expr} (k : Nat) : (e.boxes k).Within L ↔ e.Within L := by
  induction k with
  | zero => rfl
  | succ k ih => exact ih

theorem Code.within_ofList {cs : List Code} : (ofList cs).Within L ↔ ∀ c ∈ cs, c.Within L := by
  induction cs with
  | nil => simp [ofList]
  | cons c cs ih =>
    cases cs with
    | nil => simp [ofList]
    | cons d ds =>
      have hsplit : (ofList (c :: d :: ds)).Within L ↔ c.Within L ∧ (ofList (d :: ds)).Within L := Iff.rfl
      rw [hsplit, ih, List.forall_mem_cons (a := c)]

structure Atom.Within (L : Limits) (a : Atom) : Prop where
  access : ∀ x, a.access? = some x → L.accesses x
  tagged : ∀ s, a.tagged? = some s → L.tags s
  borrowed : ∀ s, a.borrowed? = some s → L.borrows s
  freed : ∀ s, a.freed? = some s → L.frees s

theorem Test.Within.atom {t : Test} (h : t.Within L) : Atom.Within L (.test t) := by
  constructor
  · intro x hx
    cases t with
    | isKind k s =>
      cases s with
      | argument i => cases hx; exact h
      | item l i => cases hx
    | _ => cases hx
  all_goals nofun

theorem Expr.Within.atoms {e : Expr} (h : e.Within L) : ∀ a ∈ e.atoms, a.Within L := by
  induction e with
  | some e ih | box e ih | owned e ih | refer m e ih | full e ih | clone e ih | deref e ih | toVec e ih | debug e ih =>
    exact ih h
  | cond t a b iha ihb =>
    exact List.forall_mem_cons.2 ⟨h.1.atom, List.forall_mem_append.2 ⟨iha h.2.1, ihb h.2.2⟩⟩
  | verbatim c ss => exact List.forall_mem_singleton.2 ⟨fun x hx => Option.some.inj hx ▸ h.1, nofun, nofun, nofun⟩
  | number s _ | text s | list s =>
    cases s with
    | argument i => exact List.forall_mem_singleton.2 ⟨fun x hx => Option.some.inj hx ▸ h, nofun, nofun, nofun⟩
    | item l i => exact List.forall_mem_singleton.2 ⟨nofun, nofun, nofun, nofun⟩
  | handle i s =>
    exact List.forall_mem_singleton.2 ⟨fun x hx => Option.some.inj hx ▸ h.1, fun x hx => Option.some.inj hx ▸ h.2.1,
      nofun, nofun⟩
  | borrow ptr s m | duplicate ptr s =>
    exact List.forall_mem_singleton.2 ⟨nofun, nofun, fun x hx => Option.some.inj hx ▸ h.1, nofun⟩
  | _ => exact List.forall_mem_singleton.2 ⟨nofun, nofun, nofun, nofun⟩

theorem Call.Within.atoms {c : Call} (h : c.Within L) : ∀ a ∈ c.atoms, a.Within L := by
  have hargs : ∀ {args : List Expr}, (∀ e ∈ args, e.Within L) → ∀ a ∈ args.flatMap Expr.atoms, a.Within L := by
    intro args h a ha
    obtain ⟨e, he, ha⟩ := List.mem_flatMap.1 ha
    exact (h e he).atoms a ha
  cases c with
  | function x args | method v x args => exact hargs h.2
  | associated s x args => exact hargs h.2.2
  | setField x e => exact h.2.atoms
  | verbatim x | getField x => nofun

theorem Outgoing.Within.atoms {o : Outgoing} (h : o.Within L) : ∀ a ∈ o.atoms, a.Within L := by
  cases o with
  | pointer e s => exact Expr.Within.atoms h.1
  | _ => exact Expr.Within.atoms h

theorem Stmt.Within.atoms {s : Stmt} (h : s.Within L) : ∀ a ∈ s.atoms, a.Within L := by
  cases s with
  | verbatim c ss => exact List.forall_mem_cons.2 ⟨⟨fun x hx => Option.some.inj hx ▸ h.1, nofun, nofun, nofun⟩, nofun⟩
  | checkCount n | check k i | clearHandle =>
    exact List.forall_mem_cons.2 ⟨⟨fun x hx => Option.some.inj hx ▸ h, nofun, nofun, nofun⟩, nofun⟩
  | bind m x e | bindTuple xs e | push v e =>
    exact List.forall_mem_cons.2 ⟨⟨nofun, nofun, nofun, nofun⟩, Expr.Within.atoms h.2⟩
  | yield e => exact List.forall_mem_cons.2 ⟨⟨nofun, nofun, nofun, nofun⟩, Expr.Within.atoms h⟩
  | bindCall x call =>
    refine List.forall_mem_cons.2 ⟨⟨fun y hy => ?_, nofun, nofun, nofun⟩, Call.Within.atoms h.2⟩
    cases call with
    | verbatim c => exact Option.some.inj hy ▸ h.2.1
    | _ => cases hy
  | perform call =>
    refine List.forall_mem_cons.2 ⟨⟨fun y hy => ?_, nofun, nofun, nofun⟩, Call.Within.atoms h⟩
    cases call with
    | verbatim c => exact Option.some.inj hy ▸ h.1
    | _ => cases hy
  | answer o =>
    refine List.forall_mem_cons.2 ⟨⟨nofun, fun y hy => ?_, nofun, nofun⟩, Outgoing.Within.atoms h⟩
    cases o with
    | pointer e s => exact Option.some.inj hy ▸ h.2.1
    | _ => cases hy
  | append l o =>
    refine List.forall_mem_cons.2 ⟨⟨nofun, fun y hy => ?_, nofun, nofun⟩, Outgoing.Within.atoms h.2⟩
    cases o with
    | pointer e s => exact Option.some.inj hy ▸ h.2.2.1
    | _ => cases hy
  | free x s => exact List.forall_mem_cons.2 ⟨⟨nofun, nofun, nofun, fun y hy => Option.some.inj hy ▸ h.1⟩, nofun⟩
  | _ => exact List.forall_mem_cons.2 ⟨⟨nofun, nofun, nofun, nofun⟩, nofun⟩

theorem Code.Within.atoms {c : Code} (h : c.Within L) : ∀ a ∈ c.atoms, a.Within L := by
  induction c with
  | skip => nofun
  | line s => exact Stmt.Within.atoms h
  | fragment c ih => exact ih h
  | seq a b iha ihb => exact List.forall_mem_append.2 ⟨iha h.1, ihb h.2⟩
  | when t c ih => exact List.forall_mem_cons.2 ⟨h.1.atom, ih h.2⟩
  | letIf x t a b iha ihb =>
    exact List.forall_mem_cons.2 ⟨h.2.1.atom, List.forall_mem_append.2 ⟨iha h.2.2.1, ihb h.2.2.2⟩⟩
  | letChain x t₁ a₁ t₂ a₂ b iha₁ iha₂ ihb =>
    obtain ⟨_, ht₁, ha₁, ht₂, ha₂, hb⟩ := h
    have hrest := List.forall_mem_cons.2 ⟨ht₂.atom, List.forall_mem_append.2 ⟨iha₂ ha₂, ihb hb⟩⟩
    exact List.forall_mem_cons.2 ⟨ht₁.atom, List.forall_mem_append.2 ⟨iha₁ ha₁, hrest⟩⟩
  | items i l c ih => exact ih h.2.2
  | each x e c ih => exact List.forall_mem_append.2 ⟨h.2.1.atoms, ih h.2.2⟩
  | eachPair k v e c ih => exact List.forall_mem_append.2 ⟨h.2.2.1.atoms, ih h.2.2.2⟩
  | matchOption e x c m ih | matchResult e x c m ih => exact List.forall_mem_append.2 ⟨h.1.atoms, ih h.2.2.1⟩
  | matchDone e m => exact h.1.atoms
  | receive x s =>
    exact List.forall_mem_singleton.2 ⟨fun x hx => Option.some.inj hx ▸ h.2.1,
      fun x hx => Option.some.inj hx ▸ h.2.2.1, nofun, nofun⟩

end RingBridge
