import RingBridge.Code.Name
import Mathlib.Data.List.TakeWhile
/-!
Temporaries. A scope hands them out one after the other, and a temporary can come again only for another stem that is
followed by digits of its own.
-/
namespace RingBridge.NameScope

def since (n n' : NameScope) : List String := namesAfter n.stems (n'.stems.drop n.stems.length)

/-- One scope comes from another, and what was handed out in between is for stems that satisfy `P`. -/
def Leads (P : String → Prop) (n n' : NameScope) : Prop := ∃ added, n'.stems = n.stems ++ added ∧ ∀ st ∈ added, P st

def lead (stem : String) : List Char := stem.toList.takeWhile fun c => !c.isDigit

theorem namesAfter_append (before xs ys : List String) :
    namesAfter before (xs ++ ys) = namesAfter before xs ++ namesAfter (before ++ xs) ys := by
  induction xs generalizing before with
  | nil => simp [namesAfter]
  | cons x xs ih => simp [namesAfter, ih]

theorem since_of_stems {n n' : NameScope} {added : List String} (h : n'.stems = n.stems ++ added) :
    n.since n' = namesAfter n.stems added := by
  rw [since, h, List.drop_left]

theorem exists_stem_of_mem {x : String} {before added : List String} (h : x ∈ namesAfter before added) :
    ∃ st ∈ added, ∃ k, before.count st ≤ k ∧ x = numbered st k := by
  induction added generalizing before with
  | nil => cases h
  | cons s added ih =>
    obtain rfl | h := List.mem_cons.1 h
    · exact ⟨s, List.mem_cons_self .., _, Nat.le_refl _, rfl⟩
    · obtain ⟨st, hst, k, hk, rfl⟩ := ih h
      refine ⟨st, List.mem_cons_of_mem _ hst, k, Nat.le_trans ?_ hk, rfl⟩
      rw [List.count_append]
      exact Nat.le_add_right ..

theorem takeWhile_append_of_neg {α : Type} {p : α → Bool} (xs : List α) {ys : List α} (h : ∀ y ∈ ys, p y = false) :
    (xs ++ ys).takeWhile p = xs.takeWhile p := by
  induction xs with
  | nil =>
    cases ys with
    | nil => rfl
    | cons y ys => exact List.takeWhile_cons_of_neg (by simp [h y (List.mem_cons_self ..)])
  | cons x xs ih => simp [List.takeWhile_cons, ih]

theorem isDigit_of_mem_toString {i : Nat} {c : Char} (h : c ∈ (toString i).toList) : c.isDigit = true :=
  Nat.isDigit_of_mem_toDigits (b := 10) (by decide) (by decide) (by simpa using h)

/-- The number of a temporary does not hide where its stem begins. -/
theorem lead_numbered (st : String) (k : Nat) : lead (numbered st k) = '_' :: '_' :: lead st := by
  have hunder : lead ("__" ++ st) = '_' :: '_' :: lead st := by
    rw [lead, String.toList_append]
    rfl
  unfold numbered
  split
  · exact hunder
  · rw [← hunder, lead, String.toList_append]
    apply takeWhile_append_of_neg
    intro c hc
    rw [isDigit_of_mem_toString hc]
    rfl

theorem lead_number (st : String) (h : ∀ c ∈ st.toList, c.isDigit = false) (i : Nat) :
    lead (st ++ toString i) = st.toList := by
  rw [lead, String.toList_append, takeWhile_append_of_neg _ fun c hc => by rw [isDigit_of_mem_toString hc]; rfl]
  apply List.takeWhile_eq_self_iff.2
  intro c hc
  rw [h c hc]
  rfl

theorem numbered_inj {st : String} {i j : Nat} (h : numbered st i = numbered st j) : i = j := by
  have hne : ∀ k : Nat, toString k ≠ "" := by
    intro k hk
    have hlength := congrArg String.length hk
    have hpos : 0 < (toString k).length := Nat.length_repr_pos
    rw [hlength] at hpos
    exact absurd hpos (by decide)
  have hcancel : ∀ {x y : String}, "__" ++ st ++ x = "__" ++ st ++ y → x = y := by
    intro x y hxy
    exact String.toList_injective (by simpa using congrArg String.toList hxy)
  have hform : ∀ k, numbered st k = "__" ++ st ++ if k = 0 then "" else toString k := by
    intro k
    unfold numbered
    split <;> simp
  rw [hform, hform] at h
  have h := hcancel h
  split at h <;> split at h
  · next hi hj => rw [hi, hj]
  · exact absurd h.symm (hne j)
  · exact absurd h (hne i)
  · have hdigits := congrArg (fun s => Nat.ofDigitChars 10 s.toList 0) h
    simpa using hdigits

namespace Leads
variable {P : String → Prop} {n m k : NameScope} {st : String}

theorem refl (P : String → Prop) (n : NameScope) : Leads P n n := ⟨[], by simp, nofun⟩

theorem trans (h : Leads P n m) (h' : Leads P m k) : Leads P n k := by
  obtain ⟨xs, hm, hxs⟩ := h
  obtain ⟨ys, hk, hys⟩ := h'
  exact ⟨xs ++ ys, by rw [hk, hm, List.append_assoc], List.forall_mem_append.2 ⟨hxs, hys⟩⟩

theorem fresh (n : NameScope) (h : P st) : Leads P n (n.fresh st).2 :=
  ⟨[st], rfl, List.forall_mem_singleton.2 h⟩

theorem freshEach (n : NameScope) {stems : List String} (h : ∀ st ∈ stems, P st) : Leads P n (n.freshEach stems).2 := by
  induction stems generalizing n with
  | nil => exact refl P n
  | cons st stems ih =>
    have h := List.forall_mem_cons.1 h
    exact (fresh n h.1).trans (ih _ h.2)

theorem since_append (h : Leads P n m) (h' : Leads P m k) : n.since k = n.since m ++ m.since k := by
  obtain ⟨xs, hm, -⟩ := h
  obtain ⟨ys, hk, -⟩ := h'
  have hnk : k.stems = n.stems ++ (xs ++ ys) := by rw [hk, hm, List.append_assoc]
  rw [since_of_stems hm, since_of_stems hk, since_of_stems hnk, namesAfter_append, hm]

theorem since_fresh (h : Leads P (n.fresh st).2 k) : n.since k = (n.fresh st).1 :: (n.fresh st).2.since k := by
  obtain ⟨added, hk, -⟩ := h
  have hnk : k.stems = n.stems ++ ([st] ++ added) := by rw [hk, ← List.append_assoc]; rfl
  rw [since_of_stems hk, since_of_stems hnk]
  rfl

/-- What is handed out from a scope includes the first temporary, and all that follow. -/
theorem mem_since (h : Leads P (n.fresh st).2 k) : (n.fresh st).1 ∈ n.since k ∧ (n.fresh st).2.since k ⊆ n.since k := by
  rw [h.since_fresh]
  exact ⟨List.mem_cons_self .., List.subset_cons_self ..⟩

/-- The temporary for a stem that no other begins like does not come again. -/
theorem fresh_notMem (h : Leads P (n.fresh st).2 k) (hst : ∀ st', P st' → lead st' = lead st → st' = st) :
    (n.fresh st).1 ∉ (n.fresh st).2.since k := by
  obtain ⟨added, hk, hP⟩ := h
  rw [since_of_stems hk]
  intro hmem
  obtain ⟨st', hst', i, hi, he⟩ := exists_stem_of_mem hmem
  have hlead := congrArg lead he
  rw [NameScope.fresh, lead_numbered, lead_numbered, List.cons.injEq, List.cons.injEq] at hlead
  obtain rfl := hst st' (hP st' hst') hlead.2.2.symm
  have hcount : i = n.stems.count st' := (numbered_inj he).symm
  have hlater : (n.fresh st').2.stems.count st' = n.stems.count st' + 1 := by simp [NameScope.fresh]
  omega

end Leads
end RingBridge.NameScope
