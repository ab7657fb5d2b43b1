import RingBridge.Binding
import RingBridge.Proofs.Shape.Grammar
import RingBridge.Proofs.Spelling.Parts
/-!
The names of the named types in a shape. They are parts of the spelling that the shape was read from, and so are free
of line feeds, whatever the spelling is.
-/
namespace RingBridge
open Text Spelling

namespace Form

theorem inside_subset (cs : List Char) : inside cs ⊆ cs :=
  fun _ hc => List.mem_of_mem_tail ((List.dropLast_prefix _).subset hc)

theorem ofParens_subset {cs p : List Char} (hp : p ∈ (ofParens cs).parts) : p ⊆ cs := by
  have hsplit : ∀ t ∈ splitTop ',' (trim (inside cs)), t ⊆ cs :=
    fun t ht c hc => inside_subset cs (trim_subset _ (splitTop_subset ht hc))
  unfold ofParens at hp
  split at hp
  · cases hp
  · next t ht =>
    have htp : p = t := by split at hp <;> simpa [parts] using hp
    exact hsplit p (by simp [ht, htp])
  · exact hsplit p hp

theorem ofReferent_subset {mutable : Bool} {target p : List Char} (hp : p ∈ (ofReferent mutable target).parts) :
    p ⊆ target := by
  unfold ofReferent at hp
  split at hp
  · rw [List.mem_singleton.1 hp]
    exact inside_subset target
  · rw [List.mem_singleton.1 hp]
    exact List.Subset.refl _

theorem ofPlain_subset {cs p : List Char} (hp : p ∈ (ofPlain cs).parts) : p ⊆ cs := by
  unfold ofPlain at hp
  split at hp
  · exact ofParens_subset hp
  split at hp
  · cases hp
  split at hp
  · cases hp
  split at hp
  · cases hp
  split at hp
  · next r _ _ _ _ => exact fun c hc => List.mem_cons_of_mem _ (referent_subset r (ofReferent_subset hp hc))
  · split at hp <;> cases hp

theorem parts_subset {cs p : List Char} (hp : p ∈ (of cs).parts) : p ⊆ cs := by
  unfold of at hp
  split at hp
  · next head args hg =>
    cases hf : ofGeneric? head args with
    | none =>
      rw [hf] at hp
      exact ofPlain_subset hp
    | some f =>
      rw [hf] at hp
      exact generic?_subset hg (mem_parts_ofGeneric? hf hp)
  · exact ofPlain_subset hp

theorem ne_named_of_ofGeneric? {head n : List Char} {args : List (List Char)} : ofGeneric? head args ≠ some (named n) := by
  cases args with
  | nil => nofun
  | cons a rest =>
    unfold ofGeneric?
    repeat' split
    all_goals nofun

theorem named_subset {cs n : List Char} (h : of cs = named n) : n ⊆ cs := by
  have hplain : ofPlain cs = named n → n ⊆ cs := by
    intro h
    unfold ofPlain ofParens ofReferent at h
    repeat' split at h
    all_goals cases h
    exact (stripPath_suffix cs).subset
  unfold of at h
  split at h
  · next head args hg =>
    cases hf : ofGeneric? head args with
    | none =>
      rw [hf] at h
      exact hplain h
    | some f =>
      rw [hf] at h
      exact absurd (hf.trans (congrArg some h)) ne_named_of_ofGeneric?
  · exact hplain h

end Form

namespace Shape

mutual

def names : Shape → List String
  | named n _ => [n]
  | vector t _ | slice t _ _ | option t _ | result t _ | boxed t _ | reference t _ _ => names t
  | tuple ts _ => namesEach ts
  | mapping k v _ => names k ++ names v
  | number _ | text _ | boolean | unit | unknown _ => []

def namesEach : List Shape → List String
  | [] => []
  | t :: ts => names t ++ namesEach ts

end

theorem namesEach_eq (ts : List Shape) : namesEach ts = ts.flatMap names := by
  induction ts with
  | nil => rfl
  | cons t ts ih => rw [namesEach, ih, List.flatMap_cons]

theorem names_of_pointee {s : Shape} {p : Pointee} (h : s.pointee? = some p) : s.names = [p.struct] := by
  unfold pointee? at h
  split at h <;> cases h <;> rfl

theorem names_unbox (s : Shape) : s.unbox.1.names = s.names := by
  fun_induction unbox s with
  | case1 t _ ih => exact ih
  | case2 t h => rfl

mutual

theorem mem_names_resolveSelf {owner : Option String} {x : String} :
    (s : Shape) → x ∈ (s.resolveSelf owner).names → (x ∈ s.names ∧ x ≠ "Self") ∨ owner = some x
  | named n sp => by
    intro hx
    unfold resolveSelf at hx
    split at hx
    · cases owner with
      | none => cases hx
      | some o => exact .inr (congrArg some (List.mem_singleton.1 hx).symm)
    · next hn =>
      have hx : x = n := List.mem_singleton.1 hx
      exact .inl ⟨List.mem_singleton.2 hx, hx ▸ hn⟩
  | vector t _ | slice t _ _ | option t _ | result t _ | boxed t _ | reference t _ _ => mem_names_resolveSelf t
  | tuple ts _ => mem_namesEach_resolveSelf ts
  | mapping k v _ => by
    intro hx
    obtain hx | hx := List.mem_append.1 hx
    · exact (mem_names_resolveSelf k hx).imp_left fun h => ⟨List.mem_append_left _ h.1, h.2⟩
    · exact (mem_names_resolveSelf v hx).imp_left fun h => ⟨List.mem_append_right _ h.1, h.2⟩
  | number _ | text _ | boolean | unit | unknown _ => nofun

theorem mem_namesEach_resolveSelf {owner : Option String} {x : String} :
    (ts : List Shape) → x ∈ namesEach (resolveSelfEach owner ts) → (x ∈ namesEach ts ∧ x ≠ "Self") ∨ owner = some x
  | [] => nofun
  | t :: ts => by
    intro hx
    obtain hx | hx := List.mem_append.1 hx
    · exact (mem_names_resolveSelf t hx).imp_left fun h => ⟨List.mem_append_left _ h.1, h.2⟩
    · exact (mem_namesEach_resolveSelf ts hx).imp_left fun h => ⟨List.mem_append_right _ h.1, h.2⟩

end

theorem mem_names_ofForm {sp x : String} {f : Form} (h : x ∈ (ofForm sp f).names) :
    (∃ t ∈ f.parts, x ∈ (classify t).names) ∨ f = .named x.toList := by
  cases f with
  | named n => exact .inr (by rw [List.mem_singleton.1 h, String.toList_ofList])
  | vector t | option t | result t | boxed t | group t | slice t m | reference t m =>
    exact .inl ⟨t, List.mem_singleton_self t, h⟩
  | mapping k v =>
    obtain h | h := List.mem_append.1 h
    · exact .inl ⟨k, List.mem_cons_self .., h⟩
    · exact .inl ⟨v, List.mem_cons_of_mem k (List.mem_singleton_self v), h⟩
  | tuple ts =>
    rw [ofForm, names, namesEach_eq, List.flatMap_map] at h
    exact .inl (List.mem_flatMap.1 h)
  | unit | number w | text | boolean | unknown => cases h

/-- The names in a shape are cut from the spelling that it is read from. -/
theorem names_classify_subset (cs : List Char) {x : String} (h : x ∈ (classify cs).names) : x.toList ⊆ cs := by
  rw [classify_eq] at h
  obtain ⟨t, ht, h⟩ | h := mem_names_ofForm h
  · exact List.Subset.trans (names_classify_subset t h) (Form.parts_subset ht)
  · exact Form.named_subset h
termination_by cs.length
decreasing_by exact Form.length_parts_of ht

/-- No line ends inside a name. -/
theorem not_newline_of_mem_names {type x : String} (h : x ∈ (ofSpelling type).names) : '\n' ∉ x.toList := by
  intro hc
  have hblank := eq_space_of_mem_normalize (names_classify_subset _ h hc)
  exact absurd hblank (by decide)

end Shape
end RingBridge
