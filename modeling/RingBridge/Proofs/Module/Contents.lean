import RingBridge.Module.Reference
import RingBridge.Proofs.Tables
import Mathlib.Data.List.Induction
import Mathlib.Data.List.Nodup
import Mathlib.Data.List.Sort
/-!
The contents of a reference: one section for the registrations without an owner, and then one for each owner, in the
order in which the owners come up. The contents hold every registration once, and they are the only ones that do so in
this order.
-/
namespace RingBridge

/-- Groups by all keys that come up hold what there is, each once. -/
theorem perm_flatMap_filter {α κ : Type} [DecidableEq κ] (key : α → κ) {keys : List κ} (hkeys : keys.Nodup) {xs : List α}
    (hall : ∀ x ∈ xs, key x ∈ keys) : (keys.flatMap fun k => xs.filter fun x => key x = k).Perm xs := by
  induction keys generalizing xs with
  | nil =>
    obtain rfl : xs = [] := List.eq_nil_iff_forall_not_mem.2 fun x hx => nomatch hall x hx
    exact .nil
  | cons k ks ih =>
    obtain ⟨hk, hks⟩ := List.nodup_cons.1 hkeys
    -- The other groups take nothing from the group of the first key.
    have hothers : (ks.flatMap fun j => xs.filter fun x => key x = j) =
        ks.flatMap fun j => (xs.filter fun x => !decide (key x = k)).filter fun x => key x = j := by
      refine List.flatMap_congr fun j hj => ?_
      rw [List.filter_filter]
      refine List.filter_congr fun x _ => ?_
      have hne : j ≠ k := fun he => hk (he ▸ hj)
      by_cases hx : key x = j
      · simp [hx, hne]
      · simp [hx]
    have hrest : ∀ x ∈ xs.filter (fun x => !decide (key x = k)), key x ∈ ks := by
      intro x hx
      obtain ⟨hx, hne⟩ := List.mem_filter.1 hx
      exact (List.mem_cons.1 (hall x hx)).resolve_left (by simpa using hne)
    rw [List.flatMap_cons, hothers]
    exact ((ih hks hrest).append_left _).trans (List.filter_append_perm ..)

namespace Reference

theorem mem_owners {rs : List Registration} {o : String} : o ∈ owners rs ↔ ∃ r ∈ rs, r.owner = some o := by
  rw [owners, List.mem_eraseDups, List.mem_filterMap]

theorem owners_concat_none (rs : List Registration) {r : Registration} (h : r.owner = none) :
    owners (rs ++ [r]) = owners rs := by
  rw [owners, List.filterMap_append, List.filterMap_cons_none h, List.filterMap_nil, List.append_nil, owners]

theorem owners_concat_some (rs : List Registration) {r : Registration} {o : String} (h : r.owner = some o) :
    owners (rs ++ [r]) = if o ∈ owners rs then owners rs else owners rs ++ [o] := by
  have hlast : [r].filterMap Registration.owner = [o] := by rw [List.filterMap_cons_some h, List.filterMap_nil]
  rw [owners, List.filterMap_append, hlast, eraseDups_concat, ← owners]
  exact if_congr List.mem_eraseDups.symm rfl rfl

def first (rs : List Registration) (o : String) : Nat := rs.findIdx fun r => r.owner = some o

theorem first_append {rs : List Registration} {o : String} (h : o ∈ owners rs) (rs' : List Registration) :
    first (rs ++ rs') o = first rs o ∧ first rs o < rs.length := by
  obtain ⟨r, hr, ho⟩ := mem_owners.1 h
  have hlt : first rs o < rs.length := List.findIdx_lt_length.2 ⟨r, hr, by simpa using ho⟩
  exact ⟨List.findIdx_append.trans (if_pos hlt), hlt⟩

/-- The owners stand in the order of their first registrations. -/
theorem pairwise_owners (rs : List Registration) : (owners rs).Pairwise fun a b => first rs a < first rs b := by
  induction rs using List.reverseRecOn with
  | nil => exact .nil
  | append_singleton rs r ih =>
    have hold : (owners rs).Pairwise fun a b => first (rs ++ [r]) a < first (rs ++ [r]) b := by
      refine ih.imp_of_mem fun {a b} ha hb h => ?_
      rwa [(first_append ha [r]).1, (first_append hb [r]).1]
    cases h : r.owner with
    | none => rwa [owners_concat_none rs h]
    | some o =>
      rw [owners_concat_some rs h]
      split
      · exact hold
      · next hnew =>
        refine List.pairwise_append.2 ⟨hold, List.pairwise_singleton .., fun a ha b hb => ?_⟩
        rw [List.mem_singleton.1 hb, (first_append ha [r]).1]
        have hnone : ¬ first rs o < rs.length := fun hlt => by
          obtain ⟨q, hq, ho⟩ := List.findIdx_lt_length.1 hlt
          exact hnew (mem_owners.2 ⟨q, hq, of_decide_eq_true ho⟩)
        have hlate : first (rs ++ [r]) o = rs.length := by
          refine (List.findIdx_append.trans (if_neg hnone)).trans ?_
          simp [h]
        rw [hlate]
        exact (first_append ha []).2

/-- Registrations under one heading: those of an owner, or those that have none. -/
structure Section where
  owner : Option String
  entries : List Registration

def Section.title (s : Section) : String := s.owner.getD "Functions"

def place (rs : List Registration) (s : Section) : Nat := s.owner.elim 0 fun o => first rs o + 1

/-- Each section has the registrations of its owner in their order, and at least one; the sections are in order; and all
    of them together hold every registration once. -/
structure IsContents (rs : List Registration) (ss : List Section) : Prop where
  entries : ∀ s ∈ ss, s.entries ≠ [] ∧ s.entries = rs.filter fun r => r.owner = s.owner
  order : ss.Pairwise fun s t => place rs s < place rs t
  all : (ss.flatMap Section.entries).Perm rs

def contents (rs : List Registration) : List Section :=
  (if (free rs).isEmpty then [] else [⟨none, free rs⟩]) ++ (owners rs).map fun o => ⟨some o, ownedBy o rs⟩

theorem free_eq (rs : List Registration) : free rs = rs.filter fun r => r.owner = none :=
  List.filter_congr fun r _ => by cases r.owner <;> rfl

theorem ownedBy_ne_nil {rs : List Registration} {o : String} (h : o ∈ owners rs) : ownedBy o rs ≠ [] := by
  obtain ⟨r, hr, ho⟩ := mem_owners.1 h
  exact List.ne_nil_of_mem (List.mem_filter.2 ⟨hr, decide_eq_true ho⟩)

theorem isContents_contents (rs : List Registration) : IsContents rs (contents rs) where
  entries s hs := by
    obtain hs | hs := List.mem_append.1 hs
    · split at hs
      · cases hs
      · next hfree =>
        rw [List.mem_singleton.1 hs]
        exact ⟨mt List.isEmpty_iff.2 hfree, free_eq rs⟩
    · obtain ⟨o, ho, rfl⟩ := List.mem_map.1 hs
      exact ⟨ownedBy_ne_nil ho, rfl⟩
  order := by
    have howned : ((owners rs).map fun o => (⟨some o, ownedBy o rs⟩ : Section)).Pairwise fun s t => place rs s < place rs t :=
      List.pairwise_map.2 ((pairwise_owners rs).imp fun h => Nat.succ_lt_succ h)
    refine List.pairwise_append.2 ⟨?_, howned, fun s hs t ht => ?_⟩
    · split
      · exact .nil
      · exact List.pairwise_singleton ..
    · obtain ⟨o, _, rfl⟩ := List.mem_map.1 ht
      split at hs
      · cases hs
      · rw [List.mem_singleton.1 hs]
        exact Nat.succ_pos _
  all := by
    have hnodup : (none :: (owners rs).map some).Nodup := by
      refine List.nodup_cons.2 ⟨by simp, ?_⟩
      refine (List.nodup_map_iff (Option.some_injective _)).2 ((pairwise_owners rs).imp ?_)
      intro a b hlt he
      exact absurd hlt (he ▸ Nat.lt_irrefl _)
    have hall : ∀ r ∈ rs, r.owner ∈ none :: (owners rs).map some := by
      intro r hr
      cases ho : r.owner with
      | none => exact List.mem_cons_self ..
      | some o => exact List.mem_cons_of_mem _ (List.mem_map_of_mem (mem_owners.2 ⟨r, hr, ho⟩))
    have hfree : (if (free rs).isEmpty then [] else [(⟨none, free rs⟩ : Section)]).flatMap Section.entries = free rs := by
      split
      · next h => exact (List.isEmpty_iff.1 h).symm
      · exact List.append_nil _
    refine .trans (.of_eq ?_) (perm_flatMap_filter Registration.owner hnodup hall)
    rw [contents, List.flatMap_append, hfree, free_eq, List.flatMap_cons, List.flatMap_map, List.flatMap_map]
    rfl

/-- A section belongs to the contents if it has the registrations of its owner, and at least one. -/
theorem IsContents.mem_iff {rs : List Registration} {ss : List Section} (h : IsContents rs ss) {s : Section} :
    s ∈ ss ↔ s.entries ≠ [] ∧ s.entries = rs.filter fun r => r.owner = s.owner := by
  refine ⟨h.entries s, fun ⟨hne, hentries⟩ => ?_⟩
  obtain ⟨r, hr⟩ := List.exists_mem_of_ne_nil _ hne
  rw [hentries] at hr
  obtain ⟨hr, ho⟩ := List.mem_filter.1 hr
  obtain ⟨t, ht, hrt⟩ := List.mem_flatMap.1 (h.all.mem_iff.2 hr)
  have htentries := (h.entries t ht).2
  rw [htentries] at hrt
  have howner : s.owner = t.owner := (of_decide_eq_true ho).symm.trans (of_decide_eq_true (List.mem_filter.1 hrt).2)
  have hst : s = t := by
    obtain ⟨o, es⟩ := s
    obtain ⟨o', es'⟩ := t
    simp_all
  exact hst ▸ ht

theorem IsContents.eq_contents {rs : List Registration} {ss : List Section} (h : IsContents rs ss) : ss = contents rs := by
  have hirrefl : Std.Irrefl fun s t : Section => place rs s < place rs t := ⟨fun _ => Nat.lt_irrefl _⟩
  have hantisymm : Std.Antisymm fun s t : Section => place rs s < place rs t :=
    ⟨fun _ _ hst hts => absurd hts (Nat.lt_asymm hst)⟩
  exact h.order.eq_of_mem_iff (isContents_contents rs).order fun s => h.mem_iff.trans (isContents_contents rs).mem_iff.symm

def entryLines (r : Registration) : List String :=
  ("### `" ++ r.name ++ "(" ++ ", ".intercalate (r.params.map (·.1)) ++ ")`") :: "" ::
    ((if r.comment.isTrue then [r.comment.plain, ""] else [])
      ++ r.params.map (fun p => "- `" ++ p.1 ++ "`: " ++ p.2) ++ ["- returns: " ++ r.result, ""])

def Section.lines (s : Section) : List String := ("## " ++ s.title) :: "" :: s.entries.flatMap entryLines

def document (title : String) (ss : List Section) : String :=
  "\n".intercalate (["# " ++ title ++ " API reference", "", "Auto-generated, do not edit.", ""] ++ ss.flatMap Section.lines)

theorem entry_eq (r : Registration) : entry r = entryLines r := by
  simp [entry, entryLines, signature, comment]

theorem lines_eq (title : String) (rs : List Registration) : "\n".intercalate (lines title rs) = document title (contents rs) := by
  have hsection : ∀ o es, section_ (Section.title ⟨o, es⟩) es = Section.lines ⟨o, es⟩ := by
    intro o es
    rw [section_, Section.lines, funext entry_eq]
    rfl
  have hfree : (if (free rs).isEmpty then [] else [⟨none, free rs⟩]).flatMap Section.lines =
      if (free rs).isEmpty then [] else section_ "Functions" (free rs) := by
    split
    · rfl
    · exact (List.append_nil _).trans (hsection none (free rs)).symm
  have howned : ((owners rs).map fun o => (⟨some o, ownedBy o rs⟩ : Section)).flatMap Section.lines =
      (owners rs).flatMap fun o => section_ o (ownedBy o rs) := by
    rw [List.flatMap_map]
    exact List.flatMap_congr fun o _ => (hsection (some o) (ownedBy o rs)).symm
  rw [document, contents, List.flatMap_append, hfree, howned, lines, List.append_assoc]

def HasTextComment (r : Registration) : Prop := r.comment.isTrue = true → ∃ t, r.comment = .text t

theorem strayComment?_eq_none {rs : List Registration} : strayComment? rs = none ↔ ∀ r ∈ rs, HasTextComment r := by
  rw [strayComment?, List.find?_eq_none, List.forall_mem_map]
  refine forall₂_congr fun r _ => ?_
  unfold HasTextComment
  cases r.comment <;> simp

/-- Every module has one way to list its registrations by owners. Its reference is the document of these contents, unless
    a comment is not text, which is reported. -/
theorem render_contents (m : Module) :
    ∃ ss, IsContents m.registrations ss ∧ (∀ ss', IsContents m.registrations ss' → ss' = ss) ∧
      ((∀ r ∈ m.registrations, HasTextComment r) → render m = .ok (document (title m) ss)) ∧
      ((∃ r ∈ m.registrations, ¬ HasTextComment r) → ∃ v, render m = .error (.comment v)) := by
  refine ⟨contents m.registrations, isContents_contents _, fun _ h => h.eq_contents, fun h => ?_, ?_⟩
  · rw [render, strayComment?_eq_none.2 h, ← lines_eq]
  · rintro ⟨r, hr, hstray⟩
    cases h : strayComment? m.registrations with
    | none => exact absurd (strayComment?_eq_none.1 h r hr) hstray
    | some v => exact ⟨v, by rw [render, h]⟩

def turns : Module where
  moduleName := .text "geo"
  modulePrefix := ""
  wrappers := [⟨"new", "ring_new", [], "A pointer", some "A", .text ""⟩,
      ⟨"b_get", "ring_b_get", [("self", "B pointer")], "number", some "B", .text "Reads."⟩,
      ⟨"sum", "ring_sum", [("x", "number"), ("y", "number")], "number", none, .text ""⟩,
      ⟨"new", "ring_new", [], "A pointer", some "A", .text ""⟩].map
    fun r => { registration := r, count := 0, answer := .skip }

theorem render_contents_turns :
    (∀ r ∈ turns.registrations, HasTextComment r) ∧ ∃ ss, render turns = .ok (document "geo" ss) ∧
      ss.map (fun s => (s.title, s.entries.map Registration.name)) =
        [("Functions", ["sum"]), ("A", ["new", "new"]), ("B", ["b_get"])] := by
  have htext : ∀ r ∈ turns.registrations, HasTextComment r := by
    simp [turns, Module.registrations, HasTextComment]
  obtain ⟨ss, hss, -, hrender, -⟩ := render_contents turns
  refine ⟨htext, ss, hrender htext, ?_⟩
  rw [hss.eq_contents]
  decide

end Reference
end RingBridge
