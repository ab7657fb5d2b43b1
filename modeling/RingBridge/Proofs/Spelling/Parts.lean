import RingBridge.Proofs.Spelling.Head
/-!
What is cut from a text has no characters but those of the text, and a normal form keeps no blanks but spaces.
-/
namespace RingBridge
open Text Spelling

namespace Text

theorem trim_subset (cs : List Char) : trim cs ⊆ cs := by
  intro c hc
  rw [trim, trimEnd, List.mem_reverse] at hc
  have hc := (List.dropWhile_suffix isBlank).subset hc
  exact (List.dropWhile_suffix isBlank).subset (List.mem_reverse.1 hc)

end Text

namespace Spelling

theorem stripPath_suffix (cs : List Char) : stripPath cs <:+ cs := by
  fun_induction stripPath cs with
  | case1 cs r h ih =>
    obtain ⟨x, rfl⟩ := exists_of_afterSegment? h
    have hsegment : r <:+ x.chars ++ ':' :: ':' :: r := ⟨x.chars ++ [':', ':'], by rw [List.append_assoc]; rfl⟩
    exact ih.trans hsegment
  | case2 cs h => exact List.suffix_rfl

theorem splitFrom_subset {sep : Char} {depth : Int} {prev : Option Char} {part cs p : List Char}
    (h : p ∈ splitFrom sep depth prev part cs) : p ⊆ part ++ cs := by
  have htrim : ∀ {part : List Char}, trim part.reverse ⊆ part :=
    fun {part} c hc => List.mem_reverse.1 (trim_subset _ hc)
  induction cs generalizing depth prev part with
  | nil =>
    simp only [splitFrom] at h
    split at h
    · cases h
    · rw [List.mem_singleton.1 h, List.append_nil]
      exact htrim
  | cons c r ih =>
    simp only [splitFrom] at h
    split at h
    · cases List.mem_cons.1 h with
      | inl h =>
        rw [h]
        exact fun c hc => List.mem_append_left _ (htrim hc)
      | inr h => exact fun d hd => List.mem_append_right _ (List.mem_cons_of_mem c (ih h hd))
    · intro d hd
      have hmem := ih h hd
      simp only [List.mem_append, List.mem_cons] at hmem ⊢
      exact or_assoc.1 (hmem.imp_left Or.symm)

theorem splitTop_subset {sep : Char} {cs p : List Char} (h : p ∈ splitTop sep cs) : p ⊆ cs := splitFrom_subset h

theorem generic?_subset {cs head p : List Char} {args : List (List Char)} (h : generic? cs = some (head, args))
    (hp : p ∈ args) : p ⊆ cs := by
  unfold generic? at h
  split at h
  · next hd inner hn =>
    split at h
    · obtain ⟨_, rfl⟩ := Prod.mk.inj (Option.some.inj h)
      refine fun c hc => (stripPath_suffix cs).subset ?_
      have hinner : c ∈ inner := (List.dropLast_prefix inner).subset (splitTop_subset hp hc)
      unfold name? at hn
      split at hn
      · cases hn
      · next d t heq =>
        split at hn
        · obtain ⟨_, ht⟩ := Prod.mk.inj (Option.some.inj hn)
          have ht : c ∈ t := (List.dropWhile_suffix isWord).subset (ht ▸ List.mem_cons_of_mem '<' hinner)
          rw [heq]
          exact List.mem_cons_of_mem d ht
        · cases hn
    · cases h
  · cases h

theorem dropBlank_subset (cs : List Char) : dropBlank cs ⊆ cs := by
  cases cs with
  | nil => exact List.Subset.refl _
  | cons c r =>
    rw [dropBlank]
    split
    · exact List.subset_cons_self c r
    · exact List.Subset.refl _

theorem dropLifetime_subset (cs : List Char) : dropLifetime cs ⊆ cs := by
  unfold dropLifetime
  split
  · next c r =>
    split
    · intro d hd
      have hd := (List.dropWhile_suffix isWord).subset (dropBlank_subset _ hd)
      exact List.mem_cons_of_mem _ (List.mem_cons_of_mem _ hd)
    · exact List.Subset.refl _
  · exact List.Subset.refl _

theorem referent_subset (cs : List Char) : (referent cs).2 ⊆ cs := by
  have h := dropLifetime_subset cs
  unfold referent
  split
  · next r hr =>
    rw [hr] at h
    split
    · next c t =>
      split
      · exact List.Subset.trans (trim_subset _) (hr ▸ h)
      · intro d hd
        have hd := dropBlank_subset _ (trim_subset _ hd)
        exact h (List.mem_cons_of_mem _ (List.mem_cons_of_mem _ (List.mem_cons_of_mem _ hd)))
    · exact List.nil_subset _
  · exact List.Subset.trans (trim_subset _) h

def Piece.chars : Piece → List Char
  | sep c => [c]
  | word w => w

theorem splitWhere_subset {p : Char → Bool} {cs part : List Char} (hp : part ∈ splitWhere p cs) : part ⊆ cs := by
  induction cs generalizing part with
  | nil => rw [List.mem_singleton.1 hp]; exact List.nil_subset _
  | cons d r ih =>
    rw [splitWhere] at hp
    split at hp
    · obtain rfl | hp := List.mem_cons.1 hp
      · exact List.nil_subset _
      · exact List.subset_cons_of_subset d (ih hp)
    · split at hp
      · rw [List.mem_singleton.1 hp]
        exact List.cons_subset_cons d (List.nil_subset r)
      · next head tail heq =>
        rw [heq] at ih
        obtain rfl | hp := List.mem_cons.1 hp
        · exact List.cons_subset_cons d (ih (List.mem_cons_self ..))
        · exact List.subset_cons_of_subset d (ih (List.mem_cons_of_mem head hp))

theorem chars_subset_of_mem_pieces {w : List Char} {p : Piece} (hp : p ∈ pieces w) : p.chars ⊆ w := by
  induction w generalizing p with
  | nil => cases hp
  | cons c r ih =>
    rw [pieces] at hp
    split at hp
    · obtain rfl | hp := List.mem_cons.1 hp
      · exact List.cons_subset_cons c (List.nil_subset r)
      · exact List.subset_cons_of_subset c (ih hp)
    · split at hp
      · next v ps heq =>
        rw [heq] at ih
        obtain rfl | hp := List.mem_cons.1 hp
        · exact List.cons_subset_cons c (ih (p := .word v) (List.mem_cons_self ..))
        · exact List.subset_cons_of_subset c (ih (List.mem_cons_of_mem _ hp))
      · obtain rfl | hp := List.mem_cons.1 hp
        · exact List.cons_subset_cons c (List.nil_subset r)
        · exact List.subset_cons_of_subset c (ih hp)

theorem mem_spell {ps : List Piece} {c : Char} (h : c ∈ spell ps) : c = ' ' ∨ ∃ p ∈ ps, c ∈ p.chars := by
  induction ps with
  | nil => cases h
  | cons p ps ih =>
    have hrest : c ∈ spell ps → c = ' ' ∨ ∃ q ∈ p :: ps, c ∈ q.chars := fun h =>
      (ih h).imp_right fun ⟨q, hq, hc⟩ => ⟨q, List.mem_cons_of_mem p hq, hc⟩
    cases p with
    | sep d =>
      obtain rfl | h := List.mem_cons.1 h
      · exact .inr ⟨.sep c, List.mem_cons_self .., List.mem_singleton_self c⟩
      · exact hrest h
    | word w =>
      rw [spell_word] at h
      obtain h | h := List.mem_append.1 h
      · exact .inr ⟨.word w, List.mem_cons_self .., h⟩
      · obtain h | h := List.mem_append.1 h
        · unfold gap at h
          split at h
          · exact .inl (List.mem_singleton.1 h)
          · cases h
        · exact hrest h

/-- A normal form adds no character but blanks. -/
theorem mem_of_mem_normalize {cs : List Char} {c : Char} (h : c ∈ normalize cs) : c = ' ' ∨ c ∈ cs := by
  refine (mem_spell h).imp_right fun ⟨p, hp, hc⟩ => ?_
  obtain ⟨w, hw, hp⟩ := List.mem_flatMap.1 hp
  exact splitWhere_subset (List.mem_filter.1 hw).1 (chars_subset_of_mem_pieces hp hc)

/-- A blank that is left in a normal form is a space. -/
theorem eq_space_of_mem_normalize {cs : List Char} {c : Char} (h : c ∈ normalize cs) : c = ' ' ∨ isBlank c = false := by
  refine (mem_spell h).imp_right fun ⟨p, hp, hc⟩ => ?_
  have hv := isValid_piecesOf cs p hp
  cases p with
  | sep d => exact List.mem_singleton.1 hc ▸ not_blank_of_isSeparator hv
  | word w => exact (hv.2 c hc).2

end Spelling

end RingBridge
