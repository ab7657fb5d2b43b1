import RingBridge.Proofs.Code.Atoms
import RingBridge.Proofs.Code.Facts
/-!
What is done with handles on a way. A pointer is followed from where it is read into a variable to where the struct
behind it is freed.
-/
namespace RingBridge

/-- A handle is read, the struct behind what a variable stands for is freed, or the handle in the first argument is
    cleared. -/
inductive Deed where
  | read (idx : Int) (struct : String)
  | free (pointer : Seen) (struct : String)
  | clear

def Atom.handle? : Atom → Option (Int × String)
  | expr (.handle idx s) => some (idx, s)
  | _ => none

def Stmt.deeds (κ : Known) (s : Stmt) : List Deed :=
  (s.atoms.filterMap Atom.handle?).map (fun h => .read h.1 h.2) ++
    match s with
    | free x t => [.free (κ.vars x) t]
    | clearHandle => [.clear]
    | _ => []

def Step.deeds (κ : Known) : Step → List Deed
  | stmt s => s.deeds κ
  | _ => []

def Known.start : Known := ⟨fun _ => .other, .other⟩

def Facts.deeds (f : Facts) : Known → List Step → List Deed
  | _, [] => []
  | κ, s :: p => s.deeds κ ++ f.deeds (f.step κ s) p

theorem Stmt.eq_free {κ : Known} {s : Stmt} {v : Seen} {struct : String} (h : Deed.free v struct ∈ s.deeds κ) :
    ∃ x, s = free x struct := by
  obtain h | h := List.mem_append.1 h
  · simp at h
  · cases s with
    | free x t =>
      cases List.mem_singleton.1 h
      exact ⟨x, rfl⟩
    | clearHandle => cases List.mem_singleton.1 h
    | _ => cases h

/-- A free on a way is one of its statements. -/
theorem Facts.exists_free {f : Facts} {κ : Known} {p : List Step} {v : Seen} {struct : String}
    (h : Deed.free v struct ∈ f.deeds κ p) : ∃ x, Step.stmt (.free x struct) ∈ p := by
  induction p generalizing κ with
  | nil => cases h
  | cons s p ih =>
    obtain h | h := List.mem_append.1 h
    · cases s with
      | stmt s =>
        obtain ⟨x, rfl⟩ := Stmt.eq_free h
        exact ⟨x, List.mem_cons_self ..⟩
      | _ => cases h
    · obtain ⟨x, hx⟩ := ih h
      exact ⟨x, List.mem_cons_of_mem _ hx⟩

namespace Code

/-- A free on a way stands in the code. -/
theorem Path.free_mem_atoms {c : Code} {p : List Step} {r : Bool} (h : c.Path p r) {x struct : String}
    (hs : .stmt (.free x struct) ∈ p) : .stmt (.free x struct) ∈ c.atoms := by
  have hbindIf : ∀ {p r y}, Step.stmt (.free x struct) ∈ p ++ Step.bindIf r y → Step.stmt (.free x struct) ∈ p := by
    intro p r y hs
    cases r <;> simpa [Step.bindIf] using hs
  induction h with
  | @line s =>
    obtain rfl := Step.stmt.inj (List.mem_singleton.1 hs)
    exact List.mem_cons_self ..
  | left _ ih => exact List.mem_append_left _ (ih hs)
  | seq _ _ iha ihb => exact List.mem_append.2 ((List.mem_append.1 hs).imp iha ihb)
  | fragment _ ih => exact ih hs
  | whenYes _ ih => simpa using ih (by simpa using hs)
  | letYes _ ih | letNo _ ih | chainFirst _ ih | chainSecond _ ih | chainLast _ ih =>
    have hs := ih (hbindIf (by simpa using hs))
    simp [hs]
  | itemsTurn _ _ iha ihb | eachTurn _ _ iha ihb | pairTurn _ _ iha ihb =>
    obtain hs | hs := List.mem_append.1 (List.mem_of_ne_of_mem (by simp) hs)
    · simp [iha hs]
    · exact ihb hs
  | itemsLeft _ ih | eachLeft _ ih | pairLeft _ ih | some _ ih | ok _ ih =>
    have hs := ih (List.mem_of_ne_of_mem (by simp) hs)
    simp [hs]
  | _ => simp at hs

end Code
end RingBridge
