import Mathlib.Data.List.Induction
import RingBridge.Table
/-!
Tables after a write: the key has the value, and the other keys have what they had. A key that is new comes last, so the
keys stand in the order of their first writes.
-/
namespace RingBridge

section
variable {α : Type} [DecidableEq α]

theorem eraseDups_concat (as : List α) (a : α) :
    (as ++ [a]).eraseDups = if a ∈ as then as.eraseDups else as.eraseDups ++ [a] := by
  rw [List.eraseDups_append, List.removeAll]
  by_cases ha : a ∈ as
  · rw [if_pos ha, List.filter_cons_of_neg (by simpa using ha), List.filter_nil, List.eraseDups_nil, List.append_nil]
  · rw [if_neg ha, List.filter_cons_of_pos (by simpa using ha), List.filter_nil, List.eraseDups_cons, List.filter_nil,
      List.eraseDups_nil]

theorem eraseDups_eraseDups (as : List α) : as.eraseDups.eraseDups = as.eraseDups := by
  induction as using List.reverseRecOn with
  | nil => rfl
  | append_singleton as a ih =>
    rw [eraseDups_concat]
    split
    · exact ih
    · next ha => rw [eraseDups_concat, if_neg (mt List.mem_eraseDups.1 ha), ih]

/-- What comes later does not depend on repeats in what came before. -/
theorem eraseDups_eraseDups_append (as bs : List α) : (as.eraseDups ++ bs).eraseDups = (as ++ bs).eraseDups := by
  have hremove : bs.removeAll as.eraseDups = bs.removeAll as := by
    refine List.filter_congr fun b _ => ?_
    rw [Bool.eq_iff_iff]
    simp
  rw [List.eraseDups_append, List.eraseDups_append, eraseDups_eraseDups, hremove]

end

namespace Table
variable {κ α : Type} [DecidableEq κ] {t : Table κ α} {j k : κ} {a : α}

theorem find?_putEntry_self (k : κ) (a : α) (es : List (κ × α)) :
    (putEntry k a es).find? (fun e => e.1 = k) = some (k, a) := by
  induction es with
  | nil => simp [putEntry]
  | cons e es ih =>
    obtain ⟨j, b⟩ := e
    by_cases hj : j = k
    · simp [putEntry, hj]
    · simp [putEntry, hj, ih]

theorem find?_put_self (t : Table κ α) (k : κ) (a : α) : (t.put k a).find? k = some a := by
  rw [find?, put, find?_putEntry_self]
  rfl

theorem find?_put_of_ne (h : j ≠ k) : (t.put k a).find? j = t.find? j := by
  suffices hentries : ∀ es : List (κ × α), (putEntry k a es).find? (fun e => e.1 = j) = es.find? fun e => e.1 = j by
    rw [find?, put, hentries]
    rfl
  intro es
  induction es with
  | nil => simp [putEntry, h.symm]
  | cons e es ih =>
    obtain ⟨i, b⟩ := e
    by_cases hi : i = k
    · simp [putEntry, hi, h.symm]
    · simp [putEntry, hi, List.find?_cons, ih]

theorem mem_keys_put : j ∈ (t.put k a).keys ↔ j ∈ t.keys ∨ j = k := by
  suffices hentries : ∀ es : List (κ × α), j ∈ (putEntry k a es).map (·.1) ↔ j ∈ es.map (·.1) ∨ j = k from hentries _
  intro es
  induction es with
  | nil => simp [putEntry]
  | cons e es ih =>
    obtain ⟨i, b⟩ := e
    by_cases hi : i = k
    · simp only [putEntry, hi, if_true, List.map_cons, List.mem_cons]
      exact ⟨.inl, fun h => h.elim id .inl⟩
    · simp [putEntry, hi, ih, or_assoc]

theorem entries_put_of_notMem (h : k ∉ t.keys) : (t.put k a).entries = t.entries ++ [(k, a)] := by
  suffices hentries : ∀ es : List (κ × α), k ∉ es.map (·.1) → putEntry k a es = es ++ [(k, a)] from hentries _ h
  intro es hes
  induction es with
  | nil => rfl
  | cons e es ih =>
    rw [List.map_cons, List.mem_cons, not_or] at hes
    rw [putEntry, if_neg (Ne.symm hes.1), ih hes.2]
    rfl

theorem contains_iff : t.contains k = true ↔ k ∈ t.keys := by
  simp [contains, keys]

theorem keys_putNew (t : Table κ α) (k : κ) (a : α) :
    (t.putNew k a).keys = if k ∈ t.keys then t.keys else t.keys ++ [k] := by
  unfold putNew
  by_cases hk : k ∈ t.keys
  · rw [if_pos (contains_iff.2 hk), if_pos hk]
  · rw [if_neg (mt contains_iff.1 hk), if_neg hk, keys, keys, List.map_append]
    rfl

/-- What has a value keeps it, and its place. -/
theorem entries_prefix_putNew (t : Table κ α) (k : κ) (a : α) : t.entries <+: (t.putNew k a).entries := by
  unfold putNew
  split
  · exact List.prefix_refl _
  · exact List.prefix_append ..

end RingBridge.Table
