import RingBridge.Proofs.Code.Rows
import RingBridge.Proofs.Handle.Answers
import RingBridge.Proofs.Handle.Tags
/-!
Runs of requests about handles. The tags in use only grow: every constant that an answer gives or mentions is there from
then on, once, with a struct that it tags, and in its place by first use.
-/
namespace RingBridge.Handle.Request
open Layout Text
variable {t : Tags}

/-- The tags in use after some requests. -/
def tagsAfter (t : Tags) (rs : List Request) : Tags := rs.foldl (fun t r => (r.serve t).2) t

def used (t : Tags) : List Request → List String
  | [] => []
  | r :: rs => r.constants t ++ used (r.serve t).2 rs

theorem tagsAfter_append (t : Tags) (rs rs' : List Request) : tagsAfter t (rs ++ rs') = tagsAfter (tagsAfter t rs) rs' :=
  List.foldl_append

theorem used_append (t : Tags) (rs rs' : List Request) : used t (rs ++ rs') = used t rs ++ used (tagsAfter t rs) rs' := by
  induction rs generalizing t with
  | nil => rfl
  | cons r rs ih =>
    rw [List.cons_append, used, ih, used, List.append_assoc]
    rfl

theorem tagsAfter_eq (t : Tags) (rs : List Request) : tagsAfter t rs = t.recordAll (rs.flatMap structs) := by
  induction rs generalizing t with
  | nil => rfl
  | cons r rs ih =>
    have hstep : tagsAfter t (r :: rs) = tagsAfter (t.recordAll r.structs) rs := rfl
    rw [hstep, ih, Tags.recordAll, Tags.recordAll, ← List.foldl_append]
    rfl

/-- A request puts the constants of its answer behind those in use. -/
theorem keys_serve (ht : t.keys.eraseDups = t.keys) (r : Request) :
    (r.serve t).2.keys = (t.keys ++ r.constants t).eraseDups := by
  by_cases hr : r = declare
  · subst hr
    have hsame : (declare.serve t).2 = t := rfl
    have hnone : t.keys.removeAll t.keys = [] := by simp [List.removeAll]
    rw [hsame, constants_declare, List.eraseDups_append, hnone, List.eraseDups_nil, List.append_nil, ht]
  · rw [constants_eq hr]
    exact Tags.keys_recordAll ht r.structs

/-- The constants in use stand in the order of their first uses. -/
theorem keys_tagsAfter (ht : t.keys.eraseDups = t.keys) (rs : List Request) :
    (tagsAfter t rs).keys = (t.keys ++ used t rs).eraseDups := by
  induction rs generalizing t with
  | nil =>
    rw [used, List.append_nil, ht]
    rfl
  | cons r rs ih =>
    have hserve := keys_serve ht r
    have hfirst : (r.serve t).2.keys.eraseDups = (r.serve t).2.keys := by rw [hserve, eraseDups_eraseDups]
    have hrun : (tagsAfter t (r :: rs)).keys = ((r.serve t).2.keys ++ used (r.serve t).2 rs).eraseDups := ih hfirst
    rw [hrun, hserve, eraseDups_eraseDups_append, used, List.append_assoc]

/-- After any requests, every constant is in use once, for a struct that it tags, in its place by first use. The answers
    are lines in which every constant is in use, then and later; a later request leaves what is in use as it is and
    where it is; and the declarations are one line for each tag, whatever was written before. -/
theorem tagsAfter_stable (rs : List Request) :
    (tagsAfter {} rs).keys.Nodup ∧ (∀ e ∈ (tagsAfter {} rs).entries, Name.tag e.2 = e.1) ∧
      (tagsAfter {} rs).keys = (used {} rs).eraseDups ∧
      (∀ before r after, rs = before ++ r :: after →
        (r.serve (tagsAfter {} before)).1 = "\n".intercalate ((r.lines (tagsAfter {} before)).map Line.text) ∧
          ∀ const ∈ r.constants (tagsAfter {} before), const ∈ (tagsAfter {} rs).keys) ∧
      (∀ before after, rs = before ++ after → (tagsAfter {} before).entries <+: (tagsAfter {} rs).entries) ∧
      (tagsAfter {} rs).declarations =
        (tagsAfter {} rs).entries.map (fun e => "const " ++ e.1 ++ ": &[u8] = b\"" ++ e.2 ++ "\\0\";") ∧
      (declare.serve (tagsAfter {} rs)).1 = "\n".intercalate (tagsAfter {} rs).declarations ∧
      (∀ p : Page, (p.run ((tagsAfter {} rs).declarations.map .line)).lines =
        p.lines ++ ((tagsAfter {} rs).declarations.map (placed p.depth)).toArray) ∧
      ((tagsAfter {} rs).entries ≠ [] → (∀ e ∈ (tagsAfter {} rs).entries, IsLine e.2) →
        stringLines (declare.serve (tagsAfter {} rs)).1 = (tagsAfter {} rs).declarations) := by
  have hkeys : (tagsAfter {} rs).keys = (used {} rs).eraseDups := keys_tagsAfter rfl rs
  have htag : ∀ e ∈ (tagsAfter {} rs).entries, Name.tag e.2 = e.1 := by
    intro e he
    rw [tagsAfter_eq] at he
    exact Tags.tag_of_mem_entries_recordAll he
  refine ⟨?nodup, htag, hkeys, ?served, ?stays, rfl, rfl, ?pages, ?lines⟩
  case nodup =>
    rw [tagsAfter_eq]
    exact Tags.nodup_keys_recordAll List.nodup_nil
  case served =>
    rintro before r after rfl
    refine ⟨text_eq r, fun const hconst => ?_⟩
    rw [hkeys, List.mem_eraseDups, used_append, used]
    exact List.mem_append_right _ (List.mem_append_left _ hconst)
  case stays =>
    rintro before after rfl
    rw [tagsAfter_append, tagsAfter_eq (tagsAfter {} before)]
    exact Tags.entries_prefix_recordAll _ _
  case pages =>
    intro p
    have hplaced : Row.placedAt p.depth ∘ Row.mk 0 = placed p.depth := rfl
    rw [writes_lines, Page.addRows, List.map_map, hplaced]
  case lines =>
    intro hne hline
    refine stringLines_intercalate (mt List.map_eq_nil_iff.1 hne) fun l hl => ?_
    obtain ⟨e, he, rfl⟩ := List.mem_map.1 hl
    have hconst : IsLine e.1 := htag e he ▸ Name.isLine_tag (hline e he)
    exact isLine_around (by decide) hconst (by decide) (hline e he) (by decide)

def fooRun : List Request :=
  [.read "p" 1 "Foo<T>", .guard "p" "Foo", .receive "obj" "FOO", .tag "Bar", .declare]

theorem entries_fooRun : (tagsAfter {} fooRun).entries = [("FOO_TYPE", "Foo"), ("BAR_TYPE", "Bar")] := by
  have hgeneric : Spelling.baseName "Foo<T>" = "Foo" := (Spelling.baseName_plain (by decide)).trans (by decide)
  have hupper : Spelling.baseName "FOO" = "FOO" := (Spelling.baseName_plain (by decide)).trans (by decide)
  have hbar : Spelling.baseName "Bar" = "Bar" := (Spelling.baseName_plain (by decide)).trans (by decide)
  have hrun : tagsAfter {} fooRun = Tags.recordAll {} ["Foo<T>", "FOO", "Bar"] := tagsAfter_eq _ _
  rw [hrun]
  simp only [Tags.recordAll, List.foldl_cons, List.foldl_nil, Tags.record, Name.tag, hgeneric, hupper, hbar]
  decide

theorem tagsAfter_stable_fooRun :
    (tagsAfter {} fooRun).keys.Nodup ∧ Name.tag "Foo" = "FOO_TYPE" ∧ (used {} fooRun).eraseDups = ["FOO_TYPE", "BAR_TYPE"] ∧
      Name.tag "FOO" ∈ (tagsAfter {} fooRun).keys ∧
      (tagsAfter {} (fooRun.take 3)).entries <+: [("FOO_TYPE", "Foo"), ("BAR_TYPE", "Bar")] ∧
      stringLines (declare.serve (tagsAfter {} fooRun)).1 =
        ["const FOO_TYPE: &[u8] = b\"Foo\\0\";", "const BAR_TYPE: &[u8] = b\"Bar\\0\";"] := by
  obtain ⟨hnodup, htag, hkeys, hserved, hstays, _, _, _, hlines⟩ := tagsAfter_stable fooRun
  have hreceived := (hserved [.read "p" 1 "Foo<T>", .guard "p" "Foo"] (.receive "obj" "FOO") [.tag "Bar", .declare] rfl).2
  rw [Table.keys, entries_fooRun] at hkeys
  rw [entries_fooRun] at htag hstays
  rw [Tags.declarations, entries_fooRun] at hlines
  refine ⟨hnodup, ?_, hkeys.symm, ?_, hstays (fooRun.take 3) (fooRun.drop 3) rfl, ?_⟩
  · exact htag ("FOO_TYPE", "Foo") (by decide)
  · exact hreceived _ (List.mem_singleton_self _)
  · exact hlines (by decide) (by decide)

end RingBridge.Handle.Request
