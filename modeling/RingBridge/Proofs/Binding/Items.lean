import RingBridge.Binding
import RingBridge.Proofs.Binding.Readers
import RingBridge.Proofs.Code.Along
/-!
Reading list items: a pointer from a list is followed only where it is known not to be null, and nothing is left
bound after an item but the value it was read for.
-/
namespace RingBridge
open Code

/-- A pointer is followed after its null test, as the struct under whose tag it was read, if it was read under one. -/
def Use.Fits : Use → Store → Prop
  | follow ptr (some s), τ => τ ptr = some (.tested none) ∨ τ ptr = some (.tested (some s))
  | _, _ => False

theorem Expr.uses_boxes (e : Expr) (k : Nat) (σ : Store) : (e.boxes k).uses σ = e.uses σ := by
  induction k with
  | zero => rfl
  | succ k ih => exact ih

theorem Pointee.value_uses (p : Pointee) (ptr : String) (σ : Store) :
    (p.value ptr).uses σ = [(.follow ptr (some p.struct), σ)] := by
  cases h : p.borrowed <;> simp [Pointee.value, h, Expr.uses]

theorem Shape.scalar_uses (s : Shape) (slot : Slot) (σ : Store) : (s.scalar slot).uses σ = [] := by
  cases s <;> rfl

/-- A tested pointer fits what it points to, in any number of boxes. -/
theorem Pointee.fits (p : Pointee) {ptr : String} {k : Nat} {σ : Store}
    (h : σ ptr = some (.tested none) ∨ σ ptr = some (.tested (some p.struct))) {u : Use} {τ : Store}
    (hm : (u, τ) ∈ ((p.value ptr).boxes k).uses σ) : u.Fits τ := by
  rw [Expr.uses_boxes, Pointee.value_uses] at hm
  obtain ⟨rfl, rfl⟩ := Prod.mk.inj (List.mem_singleton.1 hm)
  exact h

theorem Shape.scalar_fits {s : Shape} {slot : Slot} {k : Nat} {σ : Store} {u : Use} {τ : Store}
    (hm : (u, τ) ∈ ((s.scalar slot).boxes k).uses σ) : u.Fits τ := by
  rw [Expr.uses_boxes, Shape.scalar_uses] at hm
  cases hm

namespace Binding
variable {result : Option Shape}

def ItemReader.Guarded (result : Option Shape) (item : ItemReader) : Prop :=
  ∀ target list i n σ, Along Use.Fits result (item target list i n).1 σ fun _ _ => True

/-- The pointer of an item may be null, whichever way it was read. -/
theorem listPointer_along (P : Use → Store → Prop) (ptr list i : String) (n : NameScope) (σ : Store) :
    Along P result (listPointer ptr list i n).1 σ fun τ _ => τ = σ.set ptr (.untested none) := by
  apply Along.letChain
  · apply Along.yield
    · intro u τ hm
      cases hm
    · intro g hg
      rw [List.mem_singleton.1 hg]
  · apply Along.seq
    apply Along.bind
    · intro u τ hm
      cases hm
    · intro _ _
      apply Along.yield
      · intro u τ hm
        cases hm
      · intro g hg
        have hg : g = .untested none := by simpa [Expr.held] using hg
        rw [hg]
  · apply Along.yield
    · intro u τ hm
      cases hm
    · intro g hg
      rw [List.mem_singleton.1 hg]

theorem pushLeaf_guarded (s : Shape) (boxes : Nat) : (pushLeaf s boxes).Guarded result := by
  intro vec list i n σ
  unfold pushLeaf
  cases hp : s.pointee? with
  | none =>
    apply Along.when _ trivial
    exact Along.line (fun u τ hm => Shape.scalar_fits hm) fun _ _ _ => trivial
  | some p =>
    apply Along.seq
    apply (listPointer_along ..).weaken
    intro ρ _ hρ
    subst hρ
    apply Along.when _ trivial
    apply Along.line _ fun _ _ _ => trivial
    intro u τ hm
    exact p.fits (.inl (by simp [Store.learn])) hm

theorem bindLeaf_guarded (s : Shape) (boxes : Nat) : (bindLeaf s boxes).Guarded result := by
  intro value list i n σ
  unfold bindLeaf
  cases hp : s.pointee? with
  | none =>
    apply Along.bind _ fun _ _ => trivial
    intro u τ hm
    cases List.mem_append.1 hm with
    | inl hm => exact Shape.scalar_fits hm
    | inr hm => cases hm
  | some p =>
    apply Along.seq
    apply (listPointer_along ..).weaken
    intro ρ _ hρ
    subst hρ
    apply Along.letIf
    · exact Along.yield (fun u τ hm => by cases hm) fun _ _ => trivial
    · apply Along.yield _ fun _ _ => trivial
      intro u τ hm
      exact p.fits (.inl (by simp [Store.learn])) hm

theorem fill_guarded {item : ItemReader} (hitem : item.Guarded result) (vec list : String) (n : NameScope)
    (σ : Store) : Along Use.Fits result (fill item vec list n).1 σ fun τ _ => τ = σ.set vec (.value none) := by
  apply Along.seq
  apply Along.bind
  · intro u τ hm
    cases hm
  · intro g hg
    rw [List.mem_singleton.1 hg]
    exact Along.items (hitem ..) rfl

theorem nested_guarded {item : ItemReader} (hitem : item.Guarded result) (finish : Expr → Stmt)
    (hfinish : ∀ x σ, (finish (.var x)).uses σ = []) (list i : String) (n : NameScope) (σ : Store) :
    Along Use.Fits result (nested item list i finish n).1 σ fun _ _ => True := by
  apply Along.seq
  apply Along.bind
  · intro u τ hm
    cases hm
  · intro _ _
    apply Along.seq
    apply (fill_guarded hitem ..).weaken
    intro ρ _ _
    apply Along.line _ fun _ _ _ => trivial
    intro u τ hm
    rw [hfinish] at hm
    cases hm

theorem reader_guarded (o : Bool) (s : Shape) (boxes : Nat) : (reader o s boxes).Guarded result := by
  induction o, s, boxes using reader_induction with
  | boxed o s sp boxes ih => exact reader_boxed o s sp boxes ▸ ih
  | option s sp boxes ih =>
    intro vec list i n σ
    apply Along.seq
    apply (ih _ list i _ σ).weaken
    intro ρ _ _
    apply Along.line _ fun _ _ _ => trivial
    intro u τ hm
    rw [Stmt.uses, Expr.uses_boxes] at hm
    cases hm
  | vector s sp boxes ih =>
    intro vec list i n σ
    apply Along.when _ trivial
    exact nested_guarded ih (fun e => .push vec (e.boxes boxes)) (fun x τ => Expr.uses_boxes (.var x) boxes τ) list i n _
  | optionalVector s sp boxes ih =>
    intro value list i n σ
    apply Along.letIf
    · exact nested_guarded ih (fun e => .yield (.some (e.boxes boxes)))
        (fun x τ => Expr.uses_boxes (.var x) boxes τ) list i n _
    · exact Along.yield (fun u τ hm => by cases hm) fun _ _ => trivial
  | leaf s boxes hs => exact reader_leaf hs boxes ▸ pushLeaf_guarded s boxes
  | optionalLeaf s boxes hs => exact reader_optionalLeaf hs boxes ▸ bindLeaf_guarded s boxes
end Binding
end RingBridge
