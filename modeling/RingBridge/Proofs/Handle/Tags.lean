import RingBridge.Handle
import RingBridge.Proofs.Spelling.Head
import RingBridge.Proofs.Tables
/-!
Tags in use after some structs are recorded: which constants there are, in what order, and for which structs they stand.
-/
namespace RingBridge

theorem Name.tag_eq_tag_iff {s s' : String} : Name.tag s = Name.tag s' ↔
    Text.onText Text.upper (Spelling.baseName s) = Text.onText Text.upper (Spelling.baseName s') := by
  rw [Name.tag, Name.tag, String.append_left_inj]

theorem Name.tag_baseName (s : String) : Name.tag (Spelling.baseName s) = Name.tag s := by
  rw [Name.tag_eq_tag_iff, Spelling.baseName_baseName]

namespace Tags
variable {t : Tags} {const : String}

theorem mem_keys_record {s : String} : const ∈ (t.record s).keys ↔ const ∈ t.keys ∨ Name.tag s = const := by
  rw [record, Table.keys_putNew]
  split
  · next h => exact ⟨.inl, fun hc => hc.elim id fun he => he ▸ h⟩
  · rw [List.mem_append, List.mem_singleton, eq_comm (a := const)]

/-- The constants are those of the structs. -/
theorem mem_keys_recordAll {ss : List String} :
    const ∈ (t.recordAll ss).keys ↔ const ∈ t.keys ∨ ∃ s ∈ ss, Name.tag s = const := by
  induction ss generalizing t with
  | nil => simp [recordAll]
  | cons s ss ih =>
    have hstep : t.recordAll (s :: ss) = (t.record s).recordAll ss := rfl
    rw [hstep, ih, mem_keys_record]
    simp [or_assoc]

/-- Each constant is there once. -/
theorem nodup_keys_recordAll {ss : List String} (h : t.keys.Nodup) : (t.recordAll ss).keys.Nodup := by
  induction ss generalizing t with
  | nil => exact h
  | cons s ss ih =>
    apply ih
    rw [record, Table.keys_putNew]
    split
    · exact h
    · next hs =>
      refine List.nodup_append.2 ⟨h, List.pairwise_singleton _ _, fun a ha b hb he => ?_⟩
      rw [he, List.mem_singleton.1 hb] at ha
      exact hs ha

theorem mem_entries_recordAll {ss : List String} {e : String × String} (h : e ∈ (t.recordAll ss).entries) :
    e ∈ t.entries ∨ ∃ s ∈ ss, e = (Name.tag s, Spelling.baseName s) := by
  induction ss generalizing t with
  | nil => exact .inl h
  | cons s ss ih =>
    obtain h | ⟨r, hr, he⟩ := ih h
    · rw [record, Table.putNew] at h
      split at h
      · exact .inl h
      · obtain h | h := List.mem_append.1 h
        · exact .inl h
        · exact .inr ⟨s, List.mem_cons_self .., List.mem_singleton.1 h⟩
    · exact .inr ⟨r, List.mem_cons_of_mem s hr, he⟩

/-- Every constant is that of the struct recorded for it. -/
theorem tag_of_mem_entries_recordAll {ss : List String} {e : String × String} (h : e ∈ (recordAll {} ss).entries) :
    Name.tag e.2 = e.1 := by
  obtain h | ⟨s, _, rfl⟩ := mem_entries_recordAll h
  · cases h
  · exact Name.tag_baseName s

/-- What is recorded stays as it is and where it is. -/
theorem entries_prefix_recordAll (t : Tags) (ss : List String) : t.entries <+: (t.recordAll ss).entries := by
  induction ss generalizing t with
  | nil => exact List.prefix_refl _
  | cons s ss ih => exact (t.entries_prefix_putNew _ _).trans (ih _)

/-- The constants stand in the order in which they are first recorded. -/
theorem keys_recordAll (ht : t.keys.eraseDups = t.keys) (ss : List String) :
    (t.recordAll ss).keys = (t.keys ++ ss.map Name.tag).eraseDups := by
  induction ss generalizing t with
  | nil => rw [List.map_nil, List.append_nil, ht]; rfl
  | cons s ss ih =>
    have hrecord : (t.record s).keys = (t.keys ++ [Name.tag s]).eraseDups := by
      rw [record, Table.keys_putNew, eraseDups_concat, ht]
    have hfirst : (t.record s).keys.eraseDups = (t.record s).keys := by rw [hrecord, eraseDups_eraseDups]
    have hall : (t.recordAll (s :: ss)).keys = ((t.record s).keys ++ ss.map Name.tag).eraseDups := ih hfirst
    rw [hall, hrecord, eraseDups_eraseDups_append, List.append_assoc]
    rfl

end Tags
end RingBridge
