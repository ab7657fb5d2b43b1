import RingBridge.Proofs.Command.Tree
/-!
The output that is named after its input. It lies beside the input, under a name of its own, however the path of the
input is spelled.
-/
namespace RingBridge

namespace Path

/-- An extension is what stands behind a point. -/
theorem withoutExtension_cases (name : List Char) : withoutExtension name = name ∨
    ∃ extension, name = withoutExtension name ++ '.' :: extension := by
  unfold withoutExtension
  split
  · exact .inl rfl
  · next hall =>
    have hcut := List.takeWhile_append_dropWhile (p := (· != '.')) (l := name.reverse)
    cases hdrop : name.reverse.dropWhile (· != '.') with
    | nil =>
      rw [beforePoint, hdrop] at hall
      exact absurd rfl hall
    | cons c r =>
      have hc := List.head_dropWhile_not (· != '.') (l := name.reverse) (by simp [hdrop])
      have hc : c = '.' := by simpa [hdrop] using hc
      rw [hdrop, hc] at hcut
      refine .inr ⟨(name.reverse.takeWhile (· != '.')).reverse, ?_⟩
      have hname := congrArg List.reverse hcut
      rw [List.reverse_reverse, List.reverse_append, List.reverse_cons, List.append_assoc] at hname
      rw [beforePoint, hdrop]
      exact hname.symm

def outputName (path : String) : List Char := withoutExtension (lastPart path.toList) ++ "_ring.rs".toList

theorem outputName_ne (path : String) : outputName path ≠ lastPart path.toList := by
  intro he
  rw [outputName] at he
  obtain h | ⟨extension, h⟩ := withoutExtension_cases (lastPart path.toList)
  · rw [h] at he
    exact absurd (List.append_right_eq_self.1 he) (by decide)
  · have hhead : "_ring.rs".toList.head? = some '.' := congrArg List.head? (List.append_cancel_left (he.trans h))
    exact absurd hhead (by decide)

theorem slash_notMem_outputName (path : String) : '/' ∉ outputName path := by
  intro h
  obtain h | h := List.mem_append.1 h
  · refine slash_notMem_lastPart path.toList ?_
    obtain he | ⟨extension, he⟩ := withoutExtension_cases (lastPart path.toList)
    · rwa [he] at h
    · rw [he]
      exact List.mem_append_left _ h
  · exact absurd h (by decide)

theorem defaultOutput_eq (path : String) : defaultOutput path = String.ofList (folder path.toList ++ outputName path) := by
  apply String.toList_injective
  simp [defaultOutput, Text.onText, outputName]

/-- The output has the leading parts of its input, and then another last one. -/
theorem parts_defaultOutput (path : String) :
    parts (defaultOutput path) = leading path.toList ++ [String.ofList (outputName path)] := by
  rw [defaultOutput_eq, parts_folder_append _ (slash_notMem_outputName path)]

end Path

namespace Files
open RingBridge.Path
variable {f : Files} {place place' dir : Place}

/-- Whether a path is absolute is seen from what stands before its last part. -/
theorem origin_folder_append {cs last : List Char} (hlast : '/' ∉ last) :
    origin (String.ofList (folder cs ++ last)) = if (folder cs).head? = some '/' then ["/"] else [] := by
  rw [origin, String.toList_ofList]
  cases folder cs with
  | nil =>
    have hhead : last.head? ≠ some '/' := fun h => hlast (List.mem_of_mem_head? h)
    rw [List.nil_append, if_neg hhead]
    rfl
  | cons c r => rfl

theorem origin_defaultOutput (path : String) : origin (defaultOutput path) = origin path :=
  calc origin (defaultOutput path)
    _ = if (folder path.toList).head? = some '/' then ["/"] else [] := by
      rw [defaultOutput_eq, origin_folder_append (slash_notMem_outputName path)]
    _ = origin (String.ofList (folder path.toList ++ lastPart path.toList)) :=
      (origin_folder_append (slash_notMem_lastPart _)).symm
    _ = origin path := by rw [folder_append_lastPart, String.ofList_toList]

/-- From one directory, a proper name leads elsewhere than any other part. -/
theorem enter_ne {name part : String} (hparent : name ≠ "..") (hpart : name ≠ part) : enter dir part ≠ name :: dir := by
  have hlonger : ∀ {place : Place}, place.length ≤ dir.length → place ≠ name :: dir := by
    rintro place hlength rfl
    exact Nat.not_succ_le_self _ hlength
  unfold enter
  split
  · exact hlonger (Nat.le_refl _)
  · split
    · cases dir with
      | nil => exact fun he => hparent (List.cons.inj he).1.symm
      | cons x r =>
        rw [parent]
        split
        · exact fun he => hparent (List.cons.inj he).1.symm
        · split
          · exact hlonger (Nat.le_refl _)
          · exact hlonger (Nat.le_succ _)
    · exact fun he => hpart (List.cons.inj he).1.symm

theorem follow_singleton {part : String} (h : f.follow dir [part] = .ok place) : place = enter dir part := by
  rw [follow] at h
  split at h
  · exact (Except.ok.inj h).symm
  · cases h

theorem enter_outputName (dir : Place) (path : String) :
    enter dir (String.ofList (outputName path)) = String.ofList (outputName path) :: dir ∧
      String.ofList (outputName path) ≠ ".." := by
  have hne : ∀ {part : String}, part.toList.length < 8 → String.ofList (outputName path) ≠ part := by
    rintro _ hlength rfl
    rw [String.toList_ofList, outputName, List.length_append] at hlength
    exact absurd (Nat.lt_of_le_of_lt (Nat.le_add_left ..) hlength) (by decide)
  refine ⟨?_, hne (by decide)⟩
  rw [enter, if_neg (not_or.2 ⟨hne (by decide), hne (by decide)⟩), if_neg (hne (by decide))]

/-- The output that is named after an input is never the input. -/
theorem locate_defaultOutput_ne {path : String} (ho : f.locate (defaultOutput path) = .ok place)
    (hi : f.locate path = .ok place') : place ≠ place' := by
  unfold locate at ho hi
  split at ho
  · cases ho
  split at hi
  · cases hi
  rw [parts_defaultOutput, origin_defaultOutput, follow_append] at ho
  rw [parts_eq, follow_append] at hi
  cases hdir : f.follow (origin path) (leading path.toList) with
  | error e =>
    rw [hdir] at hi
    cases hi
  | ok dir =>
    rw [hdir] at ho hi
    obtain ⟨henter, hparent⟩ := enter_outputName dir path
    rw [follow_singleton ho, follow_singleton hi, henter]
    exact (enter_ne hparent fun he => outputName_ne path (String.ofList_injective he)).symm

end Files
end RingBridge
