import Mathlib.Logic.Basic
import RingBridge.Code.Name
/-!
Texts of word characters, and what lower case makes of them. Every run of the table moves letters to letters and other
characters to others; only the dotted capital `İ` becomes a letter and a mark that is none.
-/
namespace RingBridge.Text

def IsWordText (x : String) : Prop := ∀ c ∈ x.toList, isWord c = true

instance (x : String) : Decidable (IsWordText x) := inferInstanceAs (Decidable (∀ c ∈ x.toList, isWord c = true))

theorem isWordText_append {x y : String} : IsWordText (x ++ y) ↔ IsWordText x ∧ IsWordText y := by
  rw [IsWordText, String.toList_append]
  exact List.forall_mem_append

theorem isWordText_intercalate {sep : String} (hsep : IsWordText sep) {xs : List String} :
    IsWordText (sep.intercalate xs) ↔ ∀ x ∈ xs, IsWordText x := by
  induction xs with
  | nil => exact iff_of_true (List.forall_mem_nil _) (List.forall_mem_nil _)
  | cons x ys ih =>
    cases ys with
    | nil => rw [String.intercalate_singleton, List.forall_mem_singleton]
    | cons y ys =>
      rw [String.intercalate_cons_cons, isWordText_append, isWordText_append, ih, and_iff_left hsep]
      exact List.forall_mem_cons.symm

def spans (ranges : List (Nat × Nat)) (lo hi : Nat) : Bool := ranges.any fun a => a.1.ble lo && hi.ble a.2

def misses (ranges : List (Nat × Nat)) (lo hi : Nat) : Bool := ranges.all fun a => hi.blt a.1 || a.2.blt lo

def wordRange? (lo hi : Nat) : Option Bool :=
  if spans alphanumericRanges lo hi then some true
  else if misses alphanumericRanges lo hi then some false
  else none

theorem inRanges_of_wordRange {lo hi n : Nat} {b : Bool} (h : wordRange? lo hi = some b) (hlo : lo ≤ n) (hhi : n ≤ hi) :
    inRanges alphanumericRanges n = b := by
  unfold wordRange? at h
  split at h
  · next hspans =>
    cases h
    obtain ⟨a, ha, hin⟩ := List.any_eq_true.1 hspans
    rw [Bool.and_eq_true, Nat.ble_eq, Nat.ble_eq] at hin
    refine List.any_eq_true.2 ⟨a, ha, ?_⟩
    simp only [Bool.and_eq_true, decide_eq_true_eq]
    omega
  · split at h
    · next hmisses =>
      cases h
      refine List.any_eq_false.2 fun a ha => ?_
      have hout := List.all_eq_true.1 hmisses a ha
      rw [Bool.or_eq_true, Nat.blt_eq, Nat.blt_eq] at hout
      simp only [Bool.and_eq_true, decide_eq_true_eq]
      omega
    · cases h

def areChars (lo hi : Nat) : Bool := Nat.ble 128 lo && (Nat.blt hi 55296 || Nat.blt 57343 lo && Nat.blt hi 1114112)

theorem isWord_eq {c : Char} (h : 128 ≤ c.toNat) : isWord c = inRanges alphanumericRanges c.toNat := by
  rw [isWord, if_neg (by omega)]

theorem toNat_ofNat_of_areChars {lo hi n : Nat} (h : areChars lo hi = true) (hlo : lo ≤ n) (hhi : n ≤ hi) :
    (Char.ofNat n).toNat = n ∧ 128 ≤ n := by
  simp only [areChars, Bool.and_eq_true, Bool.or_eq_true, Nat.ble_eq, Nat.blt_eq] at h
  have hvalid : n.isValidChar := by
    unfold Nat.isValidChar
    omega
  exact ⟨by rw [Char.ofNat, dif_pos hvalid]; rfl, by omega⟩

namespace CaseRun

def codes (r : CaseRun) : List Nat := List.range' r.lo ((r.hi - r.lo) / r.stride + 1) r.stride

def image (r : CaseRun) (code : Nat) : Nat := (code + r.delta).toNat

/-- A run moves letters to letters and other characters to others, as the ends of the run tell, or as each of its
    characters tells. -/
def keepsWords (r : CaseRun) : Bool :=
  areChars (r.image r.lo) (r.image r.hi) && (wordRange? r.lo r.hi).isSome
      && wordRange? r.lo r.hi == wordRange? (r.image r.lo) (r.image r.hi)
    || r.codes.all fun n => isWord (Char.ofNat (r.image n)) == isWord (Char.ofNat n)

theorem mem_codes_of_holds {r : CaseRun} {n : Nat} (h : r.holds n = true) : n ∈ r.codes := by
  simp only [holds, Bool.and_eq_true, decide_eq_true_eq, beq_iff_eq] at h
  obtain ⟨⟨hlo, hhi⟩, hmod⟩ := h
  refine List.mem_range'.2 ⟨(n - r.lo) / r.stride, ?_, ?_⟩
  · exact Nat.lt_succ_of_le (Nat.div_le_div_right (by omega))
  · rw [Nat.mul_div_cancel' (Nat.dvd_of_mod_eq_zero hmod)]
    omega

/-- A character that a run moves is a letter if and only if it was one. -/
theorem isWord_image {r : CaseRun} (hr : r.keepsWords = true) {c : Char} (hc : 128 ≤ c.toNat) (h : r.holds c.toNat = true) :
    isWord (Char.ofNat (r.image c.toNat)) = isWord c := by
  obtain hends | heach := Bool.or_eq_true_iff.1 hr
  · simp only [Bool.and_eq_true, beq_iff_eq] at hends
    obtain ⟨⟨hchars, hsome⟩, hsame⟩ := hends
    simp only [holds, Bool.and_eq_true, decide_eq_true_eq] at h
    obtain ⟨⟨hlo, hhi⟩, -⟩ := h
    have hlo' : r.image r.lo ≤ r.image c.toNat := Int.toNat_le_toNat (by omega)
    have hhi' : r.image c.toNat ≤ r.image r.hi := Int.toNat_le_toNat (by omega)
    obtain ⟨b, hb⟩ := Option.isSome_iff_exists.1 hsome
    obtain ⟨hcode, hbeyond⟩ := toNat_ofNat_of_areChars hchars hlo' hhi'
    rw [isWord_eq hc, isWord_eq (by rwa [hcode]), hcode, inRanges_of_wordRange hb hlo hhi]
    exact inRanges_of_wordRange (hsame ▸ hb) hlo' hhi'
  · have := List.all_eq_true.1 heach c.toNat (mem_codes_of_holds h)
    rwa [Char.ofNat_toNat, beq_iff_eq] at this

end CaseRun

theorem keepsWords_lowerRuns : ∀ r ∈ lowerRuns, r.keepsWords = true := by decide +kernel

/-- Every character but the dotted capital has one lower case, and that is a word character if and only if the character
    is one. -/
theorem exists_lowerChar {c : Char} (h : c ≠ 'İ') : ∃ d, lowerChar c = [d] ∧ isWord d = isWord c := by
  have hascii : ∀ n < 128, isWord (if isAsciiUpper (Char.ofNat n) then Char.ofNat (n + 32) else Char.ofNat n) =
      isWord (Char.ofNat n) := by decide
  unfold lowerChar
  split
  · next hc =>
    have := hascii c.toNat hc
    rw [Char.ofNat_toNat] at this
    exact ⟨_, rfl, this⟩
  · next hc =>
    split
    · next hdot => exact absurd (Char.toNat_inj.1 (beq_iff_eq.1 hdot)) h
    · refine ⟨_, rfl, ?_⟩
      unfold shift
      split
      · next r hr =>
        exact CaseRun.isWord_image (keepsWords_lowerRuns r (List.mem_of_find?_eq_some hr)) (by omega)
          (List.find?_some (p := fun r => CaseRun.holds r c.toNat) hr)
      · rfl

/-- Lower case is of word characters if and only if the text is, and has no dotted capital. -/
theorem forall_mem_lowerAfter {before cs : List Char} :
    (∀ d ∈ lowerAfter before cs, isWord d = true) ↔ ∀ c ∈ cs, isWord c = true ∧ c ≠ 'İ' := by
  induction cs generalizing before with
  | nil => simp [lowerAfter]
  | cons c r ih =>
    rw [lowerAfter, List.forall_mem_append, ih, List.forall_mem_cons]
    refine and_congr_left' ?_
    split
    · next hsigma =>
      rw [beq_iff_eq.1 hsigma]
      refine iff_of_true ?_ (by decide)
      split <;> decide
    · by_cases hdot : c = 'İ'
      · exact iff_of_false (by rw [hdot]; decide +kernel) fun h => h.2 hdot
      · obtain ⟨d, hd, hword⟩ := exists_lowerChar hdot
        rw [hd, List.forall_mem_singleton, hword]
        exact (and_iff_left hdot).symm

theorem isWordText_joining {x : String} : IsWordText (Name.joining x) ↔ IsWordText x := by
  unfold Name.joining
  split
  · next h => rw [String.isEmpty_iff.1 h]
  · split
    · rfl
    · exact isWordText_append.trans (and_iff_left (by decide))

theorem isWordText_lowerText {x : String} :
    IsWordText (Name.lowerText x) ↔ IsWordText x ∧ 'İ' ∉ x.toList := by
  rw [IsWordText, Name.lowerText, onText, String.toList_ofList, lower, forall_mem_lowerAfter]
  exact ⟨fun h => ⟨fun c hc => (h c hc).1, fun hm => (h _ hm).2 rfl⟩, fun h c hc => ⟨h.1 c hc, fun e => h.2 (e ▸ hc)⟩⟩

end RingBridge.Text
