import RingBridge.Proofs.Code.Temporaries
import Mathlib.Data.List.Nodup
/-!
Numbers of temporaries. The number of a temporary follows its stem with nothing in between, so two temporaries can be
one name where one stem is another one that is followed by digits.
-/
namespace RingBridge.NameScope

def numbersAfter (before : List String) : List String → List (String × Nat)
  | [] => []
  | s :: ss => (s, before.count s) :: numbersAfter (before ++ [s]) ss

theorem namesAfter_eq_map (before ss : List String) :
    namesAfter before ss = (numbersAfter before ss).map fun x => numbered x.1 x.2 := by
  induction ss generalizing before with
  | nil => rfl
  | cons s ss ih => rw [namesAfter, numbersAfter, List.map_cons, ih]

theorem mem_numbersAfter {before ss : List String} {st : String} {k : Nat} :
    (st, k) ∈ numbersAfter before ss ↔ before.count st ≤ k ∧ k < before.count st + ss.count st := by
  induction ss generalizing before with
  | nil => simp [numbersAfter]
  | cons s ss ih =>
    rw [numbersAfter, List.mem_cons, ih, Prod.mk.injEq, List.count_append, List.count_cons]
    by_cases hs : s = st
    · subst hs
      simp only [true_and, List.count_cons_self, List.count_nil, beq_self_eq_true, if_true]
      omega
    · simp [hs, Ne.symm hs]

theorem nodup_numbersAfter (before ss : List String) : (numbersAfter before ss).Nodup := by
  induction ss generalizing before with
  | nil => exact List.nodup_nil
  | cons s ss ih =>
    refine List.nodup_cons.2 ⟨fun h => ?_, ih _⟩
    have hle := (mem_numbersAfter.1 h).1
    rw [List.count_append, List.count_singleton_self] at hle
    omega

/-- The temporaries of a scope are different names if, and only if, no two stems share one. -/
theorem nodup_names_iff (n : NameScope) : n.names.Nodup ↔
    ∀ st k st' k', k < n.stems.count st → k' < n.stems.count st' → numbered st k = numbered st' k' → st = st' := by
  have hmem : ∀ {st k}, (st, k) ∈ numbersAfter [] n.stems ↔ k < n.stems.count st := by
    intro st k
    simp [mem_numbersAfter]
  rw [names, namesAfter_eq_map, List.nodup_map_iff_inj_on (nodup_numbersAfter ..)]
  constructor
  · intro h st k st' k' hk hk' he
    exact congrArg Prod.fst (h (st, k) (hmem.2 hk) (st', k') (hmem.2 hk') he)
  · rintro h ⟨st, k⟩ hx ⟨st', k'⟩ hy he
    obtain rfl := h st k st' k' (hmem.1 hx) (hmem.1 hy) he
    obtain rfl : k = k' := numbered_inj he
    rfl

def digits (k : Nat) : List Char := if k = 0 then [] else Nat.toDigits 10 k

theorem toList_numbered (st : String) (k : Nat) : (numbered st k).toList = '_' :: '_' :: (st.toList ++ digits k) := by
  unfold numbered digits
  split
  · simp
  · simp

theorem isDigit_of_mem_digits {k : Nat} {c : Char} (h : c ∈ digits k) : c.isDigit = true := by
  unfold digits at h
  split at h
  · cases h
  · exact Nat.isDigit_of_mem_toDigits (b := 10) (by decide) (by decide) h

/-- No number but zero begins with a zero. -/
theorem eq_zero_of_head? (k : Nat) (h : (Nat.toDigits 10 k).head? = some '0') : k = 0 := by
  induction k using Nat.strongRecOn with
  | ind k ih =>
    rcases Nat.lt_or_ge k 10 with hk | hk
    · rw [Nat.toDigits_of_lt_base hk] at h
      exact (Nat.digitChar_eq_zero).1 (Option.some.inj h)
    · have hne : Nat.toDigits 10 (k / 10) ≠ [] := Nat.toDigits_ne_nil
      rw [Nat.toDigits_of_base_le (by decide) hk, List.head?_append_of_ne_nil _ hne] at h
      have hzero := ih (k / 10) (by omega) h
      omega

theorem toDigits_inj {i j : Nat} (h : Nat.toDigits 10 i = Nat.toDigits 10 j) : i = j := by
  have hvalue := congrArg (fun cs => Nat.ofDigitChars 10 cs 0) h
  simpa using hvalue

/-- A number that another begins with, before digits of a third: the first is not zero, the second has two digits, and
    the digits left do not begin with a zero. -/
theorem of_toDigits_append {i j k : Nat} {r tail : List Char} (hj : Nat.toDigits 10 j = Nat.toDigits 10 i ++ r)
    (hk : digits k = r ++ tail) (hne : i ≠ j) : 0 < i ∧ 0 < k ∧ 11 ≤ j := by
  have hr : r ≠ [] := fun h => hne (toDigits_inj (by rw [hj, h, List.append_nil]))
  obtain ⟨c, r, rfl⟩ := List.exists_cons_of_ne_nil hr
  have hkpos : k ≠ 0 := by
    rintro rfl
    cases hk
  have hc : c ≠ '0' := by
    rintro rfl
    rw [digits, if_neg hkpos] at hk
    exact hkpos (eq_zero_of_head? k (by rw [hk]; rfl))
  have hipos : i ≠ 0 := by
    rintro rfl
    exact hne (eq_zero_of_head? j (by rw [hj]; rfl)).symm
  have hten : 10 ≤ j := by
    by_contra hlt
    have hlength := congrArg List.length hj
    rw [Nat.toDigits_of_lt_base (by omega), List.length_append] at hlength
    have hpos := List.length_pos_of_ne_nil (Nat.toDigits_ne_nil (b := 10) (n := i))
    simp at hlength
    omega
  have hten' : j ≠ 10 := by
    rintro rfl
    have hdigits : ['1', '0'] = Nat.toDigits 10 i ++ c :: r := hj
    match hi : Nat.toDigits 10 i, hdigits with
    | [], _ => exact Nat.toDigits_ne_nil hi
    | [_], hdigits =>
      obtain ⟨-, rfl, -⟩ := by simpa using hdigits
      exact hc rfl
    | _ :: _ :: ds, hdigits => simp at hdigits
  omega

/-- Two parts of tuples share a temporary only if the one at the lower place is not the first part, was taken before,
    and the other is past the tenth place. -/
theorem of_numbered_eq {lead : String} {i j k k' : Nat}
    (h : numbered (lead ++ toString i) k = numbered (lead ++ toString j) k') (hne : i ≠ j) :
    (0 < i ∧ 0 < k ∧ 11 ≤ j) ∨ (0 < j ∧ 0 < k' ∧ 11 ≤ i) := by
  have hlists : Nat.toDigits 10 i ++ digits k = Nat.toDigits 10 j ++ digits k' := by
    have h := congrArg String.toList h
    rw [toList_numbered, toList_numbered, String.toList_append, String.toList_append] at h
    simpa using h
  obtain ⟨r, hj, hk⟩ | ⟨r, hi, hk⟩ := List.append_eq_append_iff.1 hlists
  · exact .inl (of_toDigits_append hj hk hne)
  · exact .inr (of_toDigits_append hi hk hne.symm)

def EndsPlain (st : String) : Prop := (st.toList.getLast?.all fun c => !c.isDigit) = true

instance (st : String) : Decidable (EndsPlain st) := inferInstanceAs (Decidable (_ = true))

/-- Digits after a stem cannot be the end of another one. -/
theorem EndsPlain.eq_of_append {st st' : String} (hst : EndsPlain st) (hst' : EndsPlain st') {ds es : List Char}
    (h : st.toList ++ ds = st'.toList ++ es) (hds : ∀ c ∈ ds, c.isDigit = true) (hes : ∀ c ∈ es, c.isDigit = true) :
    st = st' := by
  have hextend : ∀ {x y : String} {r : List Char}, EndsPlain y → (∀ c ∈ r, c.isDigit = true) →
      y.toList = x.toList ++ r → x = y := by
    intro x y r hy hr he
    cases hlast : r.getLast? with
    | none =>
      rw [List.getLast?_eq_none_iff.1 hlast, List.append_nil] at he
      exact (String.toList_injective he).symm
    | some c =>
      rw [EndsPlain, he, List.getLast?_append, hlast, Option.some_or, Option.all_some, hr c (List.mem_of_getLast? hlast)] at hy
      cases hy
  obtain ⟨r, hst'r, rfl⟩ | ⟨r, hstr, rfl⟩ := List.append_eq_append_iff.1 h
  · exact hextend hst' (fun c hc => hds c (List.mem_append_left _ hc)) hst'r
  · exact (hextend hst (fun c hc => hes c (List.mem_append_left _ hc)) hstr).symm

/-- Temporaries of stems that do not end in digits are of one stem if they are one name. -/
theorem EndsPlain.eq_of_numbered {st st' : String} (hst : EndsPlain st) (hst' : EndsPlain st') {k k' : Nat}
    (h : numbered st k = numbered st' k') : st = st' := by
  have hlists := congrArg String.toList h
  rw [toList_numbered, toList_numbered, List.cons.injEq, List.cons.injEq] at hlists
  exact hst.eq_of_append hst' hlists.2.2 (fun _ => isDigit_of_mem_digits) (fun _ => isDigit_of_mem_digits)

end RingBridge.NameScope
