import RingBridge.Code.Name
import RingBridge.Proofs.Spelling.Pieces
/-!
Texts of one line. Lines that are written one after the other are read back as they are, and no change of case or
escape makes a line end.
-/
namespace RingBridge.Text

def IsLine (s : String) : Prop := '\n' ∉ s.toList

instance (s : String) : Decidable (IsLine s) := inferInstanceAs (Decidable ('\n' ∉ s.toList))

@[simp] theorem isLine_append {s t : String} : IsLine (s ++ t) ↔ IsLine s ∧ IsLine t := by
  simp [IsLine, not_or]

theorem isLine_ofList {cs : List Char} : IsLine (String.ofList cs) ↔ '\n' ∉ cs := by
  rw [IsLine, String.toList_ofList]

theorem IsLine.intercalate {ls : List String} {sep : String} (hsep : IsLine sep) (h : ∀ l ∈ ls, IsLine l) :
    IsLine (sep.intercalate ls) := by
  induction ls with
  | nil =>
    rw [String.intercalate_nil]
    decide
  | cons a as ih =>
    have h := List.forall_mem_cons.1 h
    cases as with
    | nil => simpa using h.1
    | cons b bs =>
      rw [String.intercalate_cons_cons]
      exact isLine_append.2 ⟨isLine_append.2 ⟨h.1, hsep⟩, ih h.2⟩

def stringLines (s : String) : List String := (lines s.toList).map String.ofList

theorem splitWhere_of_forall {p : Char → Bool} {cs : List Char} (h : ∀ c ∈ cs, p c = false) : splitWhere p cs = [cs] := by
  induction cs with
  | nil => rfl
  | cons c r ih =>
    have h := List.forall_mem_cons.1 h
    simp [splitWhere, h.1, ih h.2]

theorem stringLines_of_isLine {s : String} (h : IsLine s) : stringLines s = [s] := by
  have hline : ∀ c ∈ s.toList, (c == '\n') = false := by
    intro c hc
    have hne : c ≠ '\n' := fun he => h (he ▸ hc)
    simpa using hne
  rw [stringLines, lines, splitWhere_of_forall hline, List.map_singleton, String.ofList_toList]

/-- A text goes on in a new line after a line feed. -/
theorem stringLines_append (s t : String) : stringLines (s ++ "\n" ++ t) = stringLines s ++ stringLines t := by
  have hcut : (s ++ "\n" ++ t).toList = s.toList ++ '\n' :: t.toList := by simp
  rw [stringLines, lines, hcut, Spelling.splitWhere_append _ _ rfl, List.map_append]
  rfl

theorem intercalate_append {sep : String} {as bs : List String} (ha : as ≠ []) (hb : bs ≠ []) :
    sep.intercalate (as ++ bs) = sep.intercalate as ++ sep ++ sep.intercalate bs := by
  induction as with
  | nil => exact absurd rfl ha
  | cons a as ih =>
    cases as with
    | nil =>
      obtain ⟨b, bs, rfl⟩ := List.exists_cons_of_ne_nil hb
      rw [List.singleton_append, String.intercalate_cons_cons, String.intercalate_singleton]
    | cons c cs =>
      rw [List.cons_append, List.cons_append, String.intercalate_cons_cons, ← List.cons_append, ih nofun,
        String.intercalate_cons_cons]
      simp only [String.append_assoc]

/-- Groups of lines are joined as their texts are. -/
theorem intercalate_flatten {sep : String} {groups : List (List String)} (h : ∀ g ∈ groups, g ≠ []) :
    sep.intercalate groups.flatten = sep.intercalate (groups.map sep.intercalate) := by
  induction groups with
  | nil => rfl
  | cons g groups ih =>
    obtain ⟨hg, hgroups⟩ := List.forall_mem_cons.1 h
    cases groups with
    | nil => rw [List.flatten_singleton, List.map_singleton, String.intercalate_singleton]
    | cons k ks =>
      have hrest : (k :: ks).flatten ≠ [] := by
        rw [List.flatten_cons]
        exact fun hnil => (List.forall_mem_cons.1 hgroups).1 (List.append_eq_nil_iff.1 hnil).1
      rw [List.flatten_cons, intercalate_append hg hrest, ih hgroups, List.map_cons, List.map_cons, List.map_cons,
        String.intercalate_cons_cons]

/-- Lines with line feeds between them are read back. -/
theorem stringLines_intercalate {ls : List String} (hne : ls ≠ []) (h : ∀ l ∈ ls, IsLine l) :
    stringLines ("\n".intercalate ls) = ls := by
  induction ls with
  | nil => exact absurd rfl hne
  | cons a as ih =>
    have h := List.forall_mem_cons.1 h
    cases as with
    | nil =>
      rw [String.intercalate_singleton]
      exact stringLines_of_isLine h.1
    | cons b bs => rw [String.intercalate_cons_cons, stringLines_append, ih nofun h.2, stringLines_of_isLine h.1]; rfl

def startsWith (word s : String) : Bool := word.toList.isPrefixOf s.toList

theorem startsWith_append (word s : String) : startsWith word (word ++ s) = true := by
  rw [startsWith, String.toList_append, List.isPrefixOf_iff_prefix]
  exact List.prefix_append ..

/-- A text with another first character does not start with the word. -/
theorem startsWith_eq_false {word s : String} {c : Char} (hw : word.toList.head? = some c)
    (hs : s.toList.head? ≠ some c) : startsWith word s = false := by
  unfold startsWith
  cases hword : word.toList with
  | nil =>
    rw [hword] at hw
    cases hw
  | cons d r =>
    rw [hword] at hw
    cases hs' : s.toList with
    | nil => rfl
    | cons e t =>
      rw [hs'] at hs
      have hne : (d == e) = false := beq_false_of_ne fun h => hs (h ▸ hw)
      rw [List.isPrefixOf, hne, Bool.false_and]

def IsLetterCode (n : Nat) : Prop := 65 ≤ n ∧ n ≤ 90 ∨ 97 ≤ n ∧ n ≤ 122 ∨ 128 ≤ n

instance (n : Nat) : Decidable (IsLetterCode n) :=
  inferInstanceAs (Decidable (65 ≤ n ∧ n ≤ 90 ∨ 97 ≤ n ∧ n ≤ 122 ∨ 128 ≤ n))

def IsCaseless (d : Char) : Prop := d.toNat ≠ 0 ∧ ¬ IsLetterCode d.toNat

instance (d : Char) : Decidable (IsCaseless d) := inferInstanceAs (Decidable (_ ∧ _))

def CaseRun.IsLettered (r : CaseRun) : Prop :=
  65 ≤ (r.lo : Int) + r.delta ∧ (r.hi : Int) + r.delta ≤ 90 ∨
    97 ≤ (r.lo : Int) + r.delta ∧ (r.hi : Int) + r.delta ≤ 122 ∨ 128 ≤ (r.lo : Int) + r.delta

instance (r : CaseRun) : Decidable r.IsLettered := inferInstanceAs (Decidable (_ ∨ _))

theorem toNat_ofNat (n : Nat) : (Char.ofNat n).toNat = if n.isValidChar then n else 0 := by
  by_cases h : n.isValidChar
  · rw [Char.ofNat, dif_pos h, if_pos h]
    rfl
  · rw [Char.ofNat, dif_neg h, if_neg h]
    rfl

namespace IsCaseless
variable {d : Char}

theorem toNat_of_ofNat (hd : IsCaseless d) {n : Nat} (h : Char.ofNat n = d) : d.toNat = n := by
  have hn := congrArg Char.toNat h
  rw [toNat_ofNat] at hn
  split at hn
  · exact hn.symm
  · exact absurd hn.symm hd.1

theorem shift_ne (hd : IsCaseless d) {runs : List CaseRun} (hruns : ∀ r ∈ runs, r.IsLettered) {c : Char}
    (hc : 128 ≤ c.toNat) : shift runs c ≠ d := by
  obtain ⟨_, hletter⟩ := id hd
  unfold IsLetterCode at hletter
  intro h
  unfold shift at h
  split at h
  · next r hr =>
    have hholds := List.find?_some hr
    simp only [CaseRun.holds, Bool.and_eq_true, decide_eq_true_eq] at hholds
    have hrun := hruns r (List.mem_of_find?_eq_some hr)
    unfold CaseRun.IsLettered at hrun
    have hcode := hd.toNat_of_ofNat h
    omega
  · rw [h] at hc
    omega

theorem eq_of_mem_upperChar (hd : IsCaseless d) {c : Char} (h : d ∈ upperChar c) : c = d := by
  obtain ⟨_, hletter⟩ := id hd
  unfold IsLetterCode at hletter
  unfold upperChar at h
  split at h
  · have h := List.mem_singleton.1 h
    split at h
    · next hc =>
      simp only [Bool.and_eq_true, decide_eq_true_eq] at hc
      have hlow : 97 ≤ c.toNat := hc.1
      have hhigh : c.toNat ≤ 122 := hc.2
      have hcode := hd.toNat_of_ofNat h.symm
      omega
    · exact h.symm
  · next hc =>
    split at h
    · next e he =>
      obtain ⟨n, hn, h⟩ := List.mem_map.1 h
      have hexpansions : ∀ e ∈ upperExpansions, ∀ n ∈ e.2, IsLetterCode n := by decide
      have hcode := hexpansions e (List.mem_of_find?_eq_some he) n hn
      unfold IsLetterCode at hcode
      have hn := hd.toNat_of_ofNat h
      omega
    · exact absurd (List.mem_singleton.1 h).symm (hd.shift_ne (by decide +kernel) (by omega))

theorem eq_of_mem_lowerChar (hd : IsCaseless d) {c : Char} (h : d ∈ lowerChar c) : c = d := by
  have hnone : d ∉ ['i', Char.ofNat 775] := by
    intro hm
    simp only [List.mem_cons, List.not_mem_nil, or_false] at hm
    obtain rfl | rfl := hm <;> exact absurd hd (by decide)
  obtain ⟨_, hletter⟩ := id hd
  unfold IsLetterCode at hletter
  unfold lowerChar at h
  split at h
  · have h := List.mem_singleton.1 h
    split at h
    · next hc =>
      simp only [isAsciiUpper, Bool.and_eq_true, decide_eq_true_eq] at hc
      have hlow : 65 ≤ c.toNat := hc.1
      have hhigh : c.toNat ≤ 90 := hc.2
      have hcode := hd.toNat_of_ofNat h.symm
      omega
    · exact h.symm
  · split at h
    · exact absurd h hnone
    · exact absurd (List.mem_singleton.1 h).symm (hd.shift_ne (by decide +kernel) (by omega))

theorem mem_of_mem_upper (hd : IsCaseless d) {cs : List Char} (h : d ∈ upper cs) : d ∈ cs := by
  obtain ⟨c, hc, hm⟩ := List.mem_flatMap.1 h
  exact hd.eq_of_mem_upperChar hm ▸ hc

theorem mem_of_mem_lowerAfter (hd : IsCaseless d) {before cs : List Char} (h : d ∈ lowerAfter before cs) : d ∈ cs := by
  induction cs generalizing before with
  | nil => cases h
  | cons c r ih =>
    rw [lowerAfter] at h
    obtain h | h := List.mem_append.1 h
    · split at h
      · split at h <;> rw [List.mem_singleton.1 h] at hd <;> exact absurd hd (by decide)
      · exact List.mem_cons.2 (.inl (hd.eq_of_mem_lowerChar h).symm)
    · exact List.mem_cons_of_mem c (ih h)

end IsCaseless

/-- Escapes add backslashes only. -/
theorem mem_of_mem_escapeLiteral {d : Char} (hd : d ≠ '\\') {cs : List Char} (h : d ∈ escapeLiteral cs) : d ∈ cs := by
  induction cs with
  | nil => cases h
  | cons c r ih =>
    rw [escapeLiteral] at h
    split at h
    · simp only [List.mem_cons] at h ⊢
      exact (h.resolve_left hd).imp_right ih
    · exact List.mem_cons.2 ((List.mem_cons.1 h).imp_right ih)

theorem mem_of_mem_quoteLiteral {d : Char} (hd : d ≠ '\\' ∧ d ≠ '"') {s : String} (h : d ∈ (quoteLiteral s).toList) :
    d ∈ s.toList := by
  rw [quoteLiteral, String.toList_ofList] at h
  simp only [List.mem_cons, List.mem_append, List.cons_append, List.not_mem_nil, or_false, hd.2, false_or] at h
  exact mem_of_mem_escapeLiteral hd.1 h

theorem isLine_upper {s : String} (h : IsLine s) : IsLine (onText upper s) := by
  rw [onText, isLine_ofList]
  exact fun hm => h (IsCaseless.mem_of_mem_upper (by decide) hm)

theorem isLine_lower {s : String} (h : IsLine s) : IsLine (onText lower s) := by
  rw [onText, isLine_ofList]
  exact fun hm => h (IsCaseless.mem_of_mem_lowerAfter (by decide) hm)

theorem isLine_quoteLiteral {s : String} (h : IsLine s) : IsLine (quoteLiteral s) :=
  fun hm => h (mem_of_mem_quoteLiteral (by decide) hm)

end RingBridge.Text
