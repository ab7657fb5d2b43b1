import RingBridge.Files
import RingBridge.Proofs.Tables
import RingBridge.Proofs.Text.Lines
/-!
Trees that are written to. A text is written at the one place that its path leads to, in a directory that is there
already, so that every path leads where it led before.
-/
namespace RingBridge

namespace Path

theorem slash_notMem_lastPart (cs : List Char) : '/' ∉ lastPart cs := by
  intro h
  have hne := List.all_eq_true.1 List.all_takeWhile _ (List.mem_reverse.1 h)
  simp at hne

theorem folder_cases (cs : List Char) : folder cs = [] ∨ ∃ ds, folder cs = ds ++ ['/'] := by
  cases h : cs.reverse.dropWhile (· != '/') with
  | nil => exact .inl (by rw [folder, h]; rfl)
  | cons c r =>
    have hc := List.head_dropWhile_not (· != '/') (l := cs.reverse) (by simp [h])
    have hc : c = '/' := by simpa [h] using hc
    exact .inr ⟨r.reverse, by rw [folder, h, hc, List.reverse_cons]⟩

def leading (cs : List Char) : List String := ((Text.splitWhere (· == '/') (folder cs)).dropLast).map String.ofList

/-- What stands behind the last slash is the last part, whatever it is. -/
theorem parts_folder_append (cs : List Char) {last : List Char} (hlast : '/' ∉ last) :
    parts (String.ofList (folder cs ++ last)) = leading cs ++ [String.ofList last] := by
  have hsingle : Text.splitWhere (· == '/') last = [last] := Text.splitWhere_of_forall fun c hc => by
    simpa using fun he : c = '/' => hlast (he ▸ hc)
  rw [parts, leading, String.toList_ofList]
  obtain h | ⟨ds, h⟩ := folder_cases cs
  · rw [h, List.nil_append, hsingle]
    rfl
  · have hends := Spelling.splitWhere_append (· == '/') ds (b := '/') rfl []
    rw [h, List.append_assoc, List.singleton_append, Spelling.splitWhere_append _ ds rfl, hsingle, hends]
    simp [Text.splitWhere]

theorem parts_eq (path : String) : parts path = leading path.toList ++ [String.ofList (lastPart path.toList)] := by
  rw [← parts_folder_append _ (slash_notMem_lastPart _), folder_append_lastPart, String.ofList_toList]

end Path

namespace Files
variable {f g h : Files} {place start dir : Place} {path text : String}

theorem isDirectory_iff : f.isDirectory place = true ↔
    (∀ name ∈ place, isAbove name = true) ∨ ∃ k ∈ f.texts.keys, place <:+ k ∧ place.length < k.length := by
  simp [isDirectory]

/-- What is above a directory is one. -/
theorem isDirectory_suffix (hdir : f.isDirectory dir = true) (hs : place <:+ dir) : f.isDirectory place = true := by
  rw [isDirectory_iff] at hdir ⊢
  obtain hall | ⟨k, hk, hsuffix, hlt⟩ := hdir
  · exact .inl fun name hname => hall name (hs.subset hname)
  · exact .inr ⟨k, hk, hs.trans hsuffix, Nat.lt_of_le_of_lt hs.length_le hlt⟩

theorem isDirectory_origin (f : Files) (path : String) : f.isDirectory (origin path) = true := by
  rw [isDirectory_iff]
  unfold origin
  split <;> exact .inl (by decide)

/-- A step from a directory ends in a directory, or at a name in it. -/
theorem enter_cases (hdir : f.isDirectory dir = true) (part : String) :
    f.isDirectory (enter dir part) = true ∨ ∃ name, enter dir part = name :: dir := by
  unfold enter
  split
  · exact .inl hdir
  · split
    · cases dir with
      | nil => exact .inr ⟨"..", rfl⟩
      | cons name r =>
        rw [parent]
        split
        · exact .inr ⟨"..", rfl⟩
        · split
          · exact .inl hdir
          · exact .inl (isDirectory_suffix hdir (List.suffix_cons ..))
    · exact .inr ⟨part, rfl⟩

theorem follow_cases {parts : List String} (hf : f.follow start parts = .ok place) :
    place = start ∨ ∃ dir part, f.isDirectory dir = true ∧ place = enter dir part := by
  induction parts generalizing start with
  | nil =>
    cases hf
    exact .inl rfl
  | cons part r ih =>
    rw [follow] at hf
    split at hf
    · next hdir =>
      obtain rfl | h := ih hf
      · exact .inr ⟨start, part, hdir, rfl⟩
      · exact .inr h
    · cases hf

theorem follow_append (f : Files) (start : Place) (ps qs : List String) :
    f.follow start (ps ++ qs) = f.follow start ps >>= fun place => f.follow place qs := by
  induction ps generalizing start with
  | nil => rfl
  | cons p ps ih =>
    rw [List.cons_append, follow, follow]
    split
    · exact ih _
    · rfl

/-- A path behind which there is no slash is written where it leads. -/
theorem properParts_eq (h : endsInSlash path = false) (hne : path.isEmpty = false) : properParts path = Path.parts path := by
  have hlast : Path.lastPart path.toList ≠ [] := by
    cases hcs : path.toList.reverse with
    | nil => exact absurd hne (by simpa using hcs)
    | cons c r =>
      rw [endsInSlash, ← List.head?_reverse, hcs] at h
      have hc : c ≠ '/' := by simpa using h
      simp [Path.lastPart, hcs, hc]
  rw [properParts, Path.parts_eq, List.reverse_append, List.reverse_singleton, List.singleton_append,
    List.dropWhile_cons_of_neg (by simpa using hlast), List.reverse_cons, List.reverse_reverse]

/-- A text is written at a name in a directory, where no directory is. -/
theorem target_ok (ht : f.target path = .ok place) : f.locate path = .ok place ∧ f.isDirectory place = false ∧
    ∃ name dir, place = name :: dir ∧ f.isDirectory dir = true := by
  rw [target] at ht
  split at ht
  · cases ht
  · next hne =>
    cases hfollow : f.follow (origin path) (properParts path) with
    | error e =>
      rw [hfollow] at ht
      cases ht
    | ok p =>
      simp only [hfollow, bind, Except.bind] at ht
      split at ht
      · cases ht
      · next hplain =>
        cases ht
        obtain ⟨hslash, hdirectory⟩ : endsInSlash path = false ∧ f.isDirectory place = false := by simpa using hplain
        refine ⟨?_, hdirectory, ?_⟩
        · rw [locate, if_neg hne, ← properParts_eq hslash (by simpa using hne), hfollow]
        · obtain rfl | ⟨dir, part, hdir, rfl⟩ := follow_cases hfollow
          · exact absurd (isDirectory_origin f path) (by rw [hdirectory]; decide)
          · obtain h | ⟨name, h⟩ := enter_cases hdir part
            · exact absurd h (by rw [hdirectory]; decide)
            · exact ⟨name, dir, h, hdir⟩

theorem write_ok (hw : f.write path text = .ok g) : ∃ place, f.target path = .ok place ∧ g = ⟨f.texts.put place text⟩ := by
  cases ht : f.target path with
  | error e => simp [write, ht, bind, Except.bind] at hw
  | ok place =>
    simp only [write, ht, bind, Except.bind, pure, Except.pure] at hw
    exact ⟨place, rfl, (Except.ok.inj hw).symm⟩

/-- No directory comes or goes. -/
theorem isDirectory_write (hw : f.write path text = .ok g) (place : Place) : g.isDirectory place = f.isDirectory place := by
  obtain ⟨_, ht, rfl⟩ := write_ok hw
  obtain ⟨-, -, name, dir, rfl, hdir⟩ := target_ok ht
  rw [Bool.eq_iff_iff, isDirectory_iff]
  constructor
  · rintro (hall | ⟨k, hk, hsuffix, hlt⟩)
    · exact isDirectory_iff.2 (.inl hall)
    · obtain hk | rfl := Table.mem_keys_put.1 hk
      · exact isDirectory_iff.2 (.inr ⟨k, hk, hsuffix, hlt⟩)
      · refine isDirectory_suffix hdir ((List.suffix_cons_iff.1 hsuffix).resolve_left fun he => ?_)
        rw [he] at hlt
        exact absurd hlt (Nat.lt_irrefl _)
  · exact fun h => (isDirectory_iff.1 h).imp_right fun ⟨k, hk, h⟩ => ⟨k, Table.mem_keys_put.2 (.inl hk), h⟩

theorem follow_write (hw : f.write path text = .ok g) (parts : List String) (start : Place) :
    g.follow start parts = .ok place ↔ f.follow start parts = .ok place := by
  induction parts generalizing start with
  | nil => rfl
  | cons part r ih =>
    rw [follow, follow, isDirectory_write hw]
    split
    · exact ih _
    · exact iff_of_false nofun nofun

/-- Every path leads where it led before. -/
theorem locate_write (hw : f.write path text = .ok g) (other : String) :
    g.locate other = .ok place ↔ f.locate other = .ok place := by
  rw [locate, locate]
  split
  · rfl
  · exact follow_write hw _ _

theorem text?_write (hw : f.write path text = .ok g) (hp : f.locate path ≠ .ok place) : g.text? place = f.text? place := by
  obtain ⟨_, ht, rfl⟩ := write_ok hw
  exact Table.find?_put_of_ne fun he => hp (he ▸ (target_ok ht).1)

section
variable {other : String} (hw : f.write path text = .ok g)
  (hne : ∀ place, f.locate path = .ok place → f.locate other ≠ .ok place)
include hw hne

/-- A path that leads elsewhere is read as before. -/
theorem read_write {was : String} (hread : f.read other = .ok was) : g.read other = .ok was := by
  cases hlocate : f.locate other with
  | error e =>
    rw [read, hlocate] at hread
    cases hread
  | ok place =>
    rw [read, hlocate] at hread
    rw [read, (locate_write hw other).2 hlocate]
    have htext : g.text? place = f.text? place := text?_write hw fun h => hne place h hlocate
    simp only [bind, Except.bind] at hread ⊢
    rw [htext, isDirectory_write hw]
    exact hread

theorem isPresent_write : g.isPresent other = f.isPresent other := by
  cases hlocate : f.locate other with
  | error e =>
    cases hlater : g.locate other with
    | error e' => rw [isPresent, isPresent, hlocate, hlater]
    | ok place =>
      rw [(locate_write hw other).1 hlater] at hlocate
      cases hlocate
  | ok place =>
    have htext : g.text? place = f.text? place := text?_write hw fun h => hne place h hlocate
    rw [isPresent, isPresent, hlocate, (locate_write hw other).2 hlocate]
    simp only [htext, isDirectory_write hw]

end

/-- What becomes of a tree when texts are written to some paths only. -/
inductive Becomes (paths : List String) (f : Files) : Files → Prop
  | refl : Becomes paths f f
  | write {p text : String} {i j : Files} : Becomes paths f i → p ∈ paths → i.write p text = .ok j → Becomes paths f j

namespace Becomes
variable {paths : List String}

theorem trans (h₁ : Becomes paths f g) (h₂ : Becomes paths g h) : Becomes paths f h := by
  induction h₂ with
  | refl => exact h₁
  | write _ hp hw ih => exact ih.write hp hw

theorem locate (hf : Becomes paths f g) (other : String) : g.locate other = .ok place ↔ f.locate other = .ok place := by
  induction hf with
  | refl => rfl
  | write _ _ hw ih => rw [locate_write hw, ih]

/-- Only the places to which the paths lead change. -/
theorem text? (hf : Becomes paths f g) (hp : ∀ path ∈ paths, f.locate path ≠ .ok place) : g.text? place = f.text? place := by
  induction hf with
  | refl => rfl
  | write hg hpath hw ih => rw [text?_write hw (mt (hg.locate _).1 (hp _ hpath)), ih]

end Becomes
end Files
end RingBridge
