import RingBridge.Proofs.Text.Lines
/-!
Braces in a text. A text leads from a number of open braces to another one, unless it closes a brace that was never
opened.
-/
namespace RingBridge.Text

def brace (k : Nat) (c : Char) : Option Nat :=
  if c = '\x7b' then some (k + 1) else if c = '\x7d' then if k = 0 then none else some (k - 1) else some k

def braces (k : Nat) (s : String) : Option Nat := s.toList.foldlM brace k

def Turns (i j : Nat) (s : String) : Prop := braces i s = some j

instance (i j : Nat) (s : String) : Decidable (Turns i j s) := inferInstanceAs (Decidable (_ = some j))

variable {i j k : Nat} {s t : String}

theorem braces_append (i : Nat) (s t : String) : braces i (s ++ t) = (braces i s).bind fun j => braces j t := by
  rw [braces, String.toList_append, List.foldlM_append]
  rfl

theorem Turns.append (hs : Turns i j s) (ht : Turns j k t) : Turns i k (s ++ t) := by
  rw [Turns, braces_append, hs]
  exact ht

theorem turns_empty (k : Nat) : Turns k k "" := rfl

theorem brace_add (k : Nat) {i j : Nat} {c : Char} (h : brace i c = some j) : brace (i + k) c = some (j + k) := by
  unfold brace at h ⊢
  split at h
  · obtain rfl := Option.some.inj h
    rw [if_pos ‹_›, Nat.add_right_comm]
  · split at h
    · split at h
      · cases h
      · obtain rfl := Option.some.inj h
        rw [if_neg ‹_›, if_pos ‹_›, if_neg (by omega), Nat.sub_add_comm (by omega)]
    · obtain rfl := Option.some.inj h
      rw [if_neg ‹_›, if_neg ‹_›]

/-- Braces that are open around a text stay open. -/
theorem Turns.add (k : Nat) (h : Turns i j s) : Turns (i + k) (j + k) s := by
  unfold Turns braces at h ⊢
  generalize s.toList = cs at h ⊢
  induction cs generalizing i with
  | nil => exact congrArg (Option.map (· + k)) h
  | cons c r ih =>
    obtain ⟨m, hm, hr⟩ := Option.bind_eq_some_iff.1 h
    exact Option.bind_eq_some_iff.2 ⟨m + k, brace_add k hm, ih hr⟩

def IsLevel (s : String) : Prop := Turns 0 0 s

instance (s : String) : Decidable (IsLevel s) := inferInstanceAs (Decidable (Turns 0 0 s))

theorem IsLevel.turns (h : IsLevel s) (k : Nat) : Turns k k s := by
  have hk := Turns.add k h
  rwa [Nat.zero_add] at hk

theorem IsLevel.append (hs : IsLevel s) (ht : IsLevel t) : IsLevel (s ++ t) := Turns.append hs ht

theorem IsLevel.between {a b : String} (ha : IsLevel a) (hs : IsLevel s) (hb : IsLevel b) : IsLevel (a ++ s ++ b) :=
  (ha.append hs).append hb

theorem IsLevel.around {a b c : String} (ha : IsLevel a) (hs : IsLevel s) (hb : IsLevel b) (ht : IsLevel t)
    (hc : IsLevel c) : IsLevel (a ++ s ++ b ++ t ++ c) :=
  (ha.between hs hb).between ht hc

/-- A level text between two that turn. -/
theorem Turns.between {a b : String} (ha : Turns i j a) (hs : IsLevel s) (hb : Turns j k b) : Turns i k (a ++ s ++ b) :=
  (ha.append (hs.turns j)).append hb

theorem Turns.around {l : Nat} {a b c : String} (ha : Turns i j a) (hs : IsLevel s) (hb : Turns j k b) (ht : IsLevel t)
    (hc : Turns k l c) : Turns i l (a ++ s ++ b ++ t ++ c) :=
  (ha.between hs hb).between ht hc

theorem IsLevel.intercalate {sep : String} (hsep : IsLevel sep) {ls : List String} (h : ∀ l ∈ ls, IsLevel l) :
    IsLevel (sep.intercalate ls) := by
  induction ls with
  | nil =>
    rw [String.intercalate_nil]
    decide
  | cons a as ih =>
    have h := List.forall_mem_cons.1 h
    cases as with
    | nil => simpa using h.1
    | cons b bs =>
      rw [String.intercalate_cons_cons]
      exact h.1.between hsep (ih h.2)

def IsBraceless (s : String) : Prop := '\x7b' ∉ s.toList ∧ '\x7d' ∉ s.toList

instance (s : String) : Decidable (IsBraceless s) := inferInstanceAs (Decidable (_ ∧ _))

/-- A text whose characters are all in another one has no braces if that has none. -/
theorem IsBraceless.of_mem (h : IsBraceless s) (hsub : ∀ d ∈ ['\x7b', '\x7d'], d ∈ t.toList → d ∈ s.toList) :
    IsBraceless t :=
  ⟨fun hm => h.1 (hsub _ (by decide) hm), fun hm => h.2 (hsub _ (by decide) hm)⟩

theorem IsBraceless.isLevel (h : IsBraceless s) : IsLevel s := by
  unfold IsBraceless at h
  unfold IsLevel Turns braces
  generalize s.toList = cs at h ⊢
  induction cs with
  | nil => rfl
  | cons c r ih =>
    simp only [List.mem_cons, not_or] at h
    obtain ⟨⟨ho, hr⟩, hc, hr'⟩ := h
    have hstep : brace 0 c = some 0 := by
      rw [brace, if_neg (Ne.symm ho), if_neg (Ne.symm hc)]
    exact Option.bind_eq_some_iff.2 ⟨0, hstep, ih ⟨hr, hr'⟩⟩

theorem IsBraceless.append (hs : IsBraceless s) (ht : IsBraceless t) : IsBraceless (s ++ t) := by
  simp only [IsBraceless, String.toList_append, List.mem_append, not_or]
  exact ⟨⟨hs.1, ht.1⟩, hs.2, ht.2⟩

theorem IsBraceless.intercalate {sep : String} (hsep : IsBraceless sep) {ls : List String}
    (h : ∀ l ∈ ls, IsBraceless l) : IsBraceless (sep.intercalate ls) := by
  induction ls with
  | nil =>
    rw [String.intercalate_nil]
    decide
  | cons a as ih =>
    have h := List.forall_mem_cons.1 h
    cases as with
    | nil => simpa using h.1
    | cons b bs =>
      rw [String.intercalate_cons_cons]
      exact (h.1.append hsep).append (ih h.2)

theorem IsBraceless.upper (h : IsBraceless s) : IsBraceless (onText upper s) := by
  have hcaseless : ∀ d ∈ ['\x7b', '\x7d'], IsCaseless d := by decide
  refine h.of_mem fun d hd hm => ?_
  rw [onText, String.toList_ofList] at hm
  exact (hcaseless d hd).mem_of_mem_upper hm

theorem IsBraceless.lower (h : IsBraceless s) : IsBraceless (onText lower s) := by
  have hcaseless : ∀ d ∈ ['\x7b', '\x7d'], IsCaseless d := by decide
  refine h.of_mem fun d hd hm => ?_
  rw [onText, String.toList_ofList] at hm
  exact (hcaseless d hd).mem_of_mem_lowerAfter hm

theorem IsBraceless.quoteLiteral (h : IsBraceless s) : IsBraceless (quoteLiteral s) := by
  have hplain : ∀ d ∈ ['\x7b', '\x7d'], d ≠ '\\' ∧ d ≠ '"' := by decide
  exact h.of_mem fun d hd hm => mem_of_mem_quoteLiteral (hplain d hd) hm

theorem isBraceless_natToString (n : Nat) : IsBraceless (toString n) := by
  have hdigit : ∀ c ∈ (toString n).toList, c.isDigit = true := fun c hc =>
    Nat.isDigit_of_mem_toDigits (b := 10) (n := n) (by decide) (by decide) (by simpa using hc)
  exact ⟨fun hm => absurd (hdigit _ hm) (by decide), fun hm => absurd (hdigit _ hm) (by decide)⟩

theorem isBraceless_toString : (n : Int) → IsBraceless (toString n)
  | .ofNat n => isBraceless_natToString n
  | .negSucc n => IsBraceless.append (s := "-") (by decide) (isBraceless_natToString (n + 1))

end RingBridge.Text
