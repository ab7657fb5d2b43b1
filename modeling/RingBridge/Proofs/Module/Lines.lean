import RingBridge.Proofs.Code.Rows
import RingBridge.Proofs.Handle.Tags
import RingBridge.Proofs.Module.Declarations
import RingBridge.Proofs.Wrapper.Limits
/-!
The lines of a generated module: its header, the declarations of its tags, its wrappers one after the other, and the
table of registrations. Every line of a wrapper but the first and the last two is empty or indented.
-/
namespace RingBridge
open Layout Text

def Limits.plain : Limits where
  accesses a := a ≠ .unknown
  tags := IsLine
  borrows _ := True
  frees _ := True
  chars c := c ≠ '\n'
  word c hc hn := by
    rw [hn] at hc
    exact absurd hc (by decide)

theorem Limits.isPlain_plain : Limits.plain.IsPlain := fun _ hc => hc

theorem Limits.allows_plain {x : String} : Limits.plain.Allows x ↔ IsLine x :=
  ⟨fun h hm => h _ hm rfl, fun h _ hc hn => h (hn ▸ hc)⟩

def Declaration.IsPlain (decl : Declaration Value) : Prop := ∀ v ∈ decl.names, IsLine v.plain

instance (decl : Declaration Value) : Decidable decl.IsPlain :=
  inferInstanceAs (Decidable (∀ v ∈ decl.names, IsLine v.plain))

namespace Declaration
variable {decl : Declaration Value} {e : Export}

theorem Offers.isLine_names (h : decl.Offers e) (hd : decl.IsPlain) : ∀ x ∈ e.names, IsLine x := by
  intro x hx
  obtain ⟨v, hv, rfl | rfl⟩ := h.mem_names hx
  · exact hd v hv
  · exact Spelling.isLine_baseName (hd v hv)

theorem isLine_opaques (hd : decl.IsPlain) : ∀ x ∈ decl.opaques, IsLine x := by
  intro x hx
  obtain ⟨v, hv, rfl⟩ | ⟨type, _, hx⟩ := mem_opaques_cases hx
  · exact Spelling.isLine_baseName (hd v hv)
  · exact Shape.not_newline_of_mem_names hx

theorem Offers.within_plain (h : decl.Offers e) (hd : decl.IsPlain) : e.Within .plain where
  freed _ _ := trivial
  names x hx := Limits.allows_plain.2 (h.isLine_names hd x hx)
  owner s hs := h.isLine_names hd s (Export.owner_mem_names hs)
  shapes s hs x hx := by
    have hline := isLine_opaques hd x (h.mem_opaques hs hx)
    exact ⟨hline, trivial, Limits.allows_plain.2 hline⟩

end Declaration

namespace Name

theorem isLine_joining {stem : String} (h : IsLine stem) : IsLine (joining stem) := by
  unfold joining
  split
  · decide
  · split
    · exact h
    · exact isLine_append.2 ⟨h, by decide⟩

theorem isLine_exported {stem : String} (h : IsLine stem) {parts : List String} (hp : ∀ x ∈ parts, IsLine x) :
    IsLine (exported stem parts) :=
  isLine_append.2 ⟨isLine_joining h, IsLine.intercalate (by decide) hp⟩

end Name

namespace Export

theorem registration_name (c : Converter) (name : String) (e : Export) :
    (e.wrapperAs c name).registration.name = name ∧ (e.wrapperAs c name).registration.wrapper = Name.wrapper name := by
  cases e <;> exact ⟨rfl, rfl⟩

theorem isLine_name {modulePrefix : String} (h : IsLine modulePrefix) {e : Export} (he : ∀ x ∈ e.names, IsLine x) :
    IsLine (e.name modulePrefix) := by
  have hstruct : ∀ struct op : String, IsLine struct → IsLine op → IsLine (structName modulePrefix struct op) := by
    intro struct op hs ho
    refine Name.isLine_exported h (List.forall_mem_cons.2 ⟨isLine_lower (Spelling.isLine_baseName hs), ?_⟩)
    exact List.forall_mem_singleton.2 ho
  cases e with
  | destructor s | constructor s => exact hstruct s _ (he s (List.mem_singleton_self s)) (by decide)
  | getter s x type | setter s x type =>
    have hx := he x (List.mem_cons_of_mem s (List.mem_singleton_self x))
    exact hstruct s _ (he s (List.mem_cons_self ..)) (isLine_append.2 ⟨by decide, hx⟩)
  | method s f =>
    have hname := he f.name (List.mem_cons_of_mem s (List.mem_cons_self ..))
    refine Name.isLine_exported h (List.forall_mem_cons.2 ⟨isLine_lower (he s (List.mem_cons_self ..)), ?_⟩)
    exact List.forall_mem_singleton.2 hname
  | function f => exact Name.isLine_exported h (List.forall_mem_singleton.2 (he f.name (List.mem_cons_self ..)))

end Export

namespace Wrapper

def opening (r : Registration) : String := "ring_func!(" ++ r.wrapper ++ ", |p| \x7b"

structure IsPlain (w : Wrapper) : Prop where
  body : w.body.Within .plain
  structs : ∀ s ∈ w.structs, IsLine s
  name : IsLine w.registration.name
  wrapper : IsLine w.registration.wrapper

variable {w : Wrapper}

def rows (w : Wrapper) : List Row := block (opening w.registration) "\x7d);" (w.body.rows.map Row.deeper) ++ [⟨0, ""⟩]

theorem writes_ops_of_body {rs : List Row} (h : Writes w.body.ops rs) :
    Writes w.ops (block (opening w.registration) "\x7d);" (rs.map Row.deeper) ++ [⟨0, ""⟩]) := by
  have hops := (h.inside.block (opening w.registration) "\x7d);").append (writes_line "")
  simp only [List.cons_append, List.append_assoc] at hops
  exact hops

theorem IsPlain.writes_ops (h : w.IsPlain) : Writes w.ops w.rows :=
  writes_ops_of_body (Code.writes_ops Limits.isPlain_plain h.body)

/-- Any wrapper writes rows, and not none. -/
theorem exists_writes (w : Wrapper) : ∃ rs, Writes w.ops rs ∧ rs ≠ [] := by
  obtain ⟨rs, h⟩ := w.body.exists_writes
  exact ⟨_, writes_ops_of_body h, nofun⟩

/-- After its first line, a wrapper has lines that are empty, indented, or a closing brace. -/
theorem exists_lines (w : Wrapper) : ∃ ls, w.rows.map (Row.placedAt 0) = opening w.registration :: ls ∧
    ∀ l ∈ ls, ∀ c, l.toList.head? = some c → c = ' ' ∨ c = '\x7d' := by
  refine ⟨(w.body.rows.map Row.deeper ++ [Row.mk 0 "\x7d);"] ++ [Row.mk 0 ""]).map (Row.placedAt 0), ?_, ?_⟩
  · rw [rows, block, List.cons_append, List.cons_append, List.map_cons, Row.placedAt_zero]
  · intro l hl c hc
    obtain ⟨r, hr, rfl⟩ := List.mem_map.1 hl
    obtain hr | hr := List.mem_append.1 hr
    · obtain hr | hr := List.mem_append.1 hr
      · obtain ⟨r, _, rfl⟩ := List.mem_map.1 hr
        exact .inl (r.head_placedAt_deeper hc)
      · rw [List.mem_singleton.1 hr, Row.placedAt_zero] at hc
        exact .inr (Option.some.inj hc).symm
    · rw [List.mem_singleton.1 hr, Row.placedAt_zero] at hc
      cases hc

theorem IsPlain.areLines_rows (h : w.IsPlain) : AreLines w.rows :=
  ((Code.areLines_rows Limits.isPlain_plain h.body).deeper.block
    (isLine_between (by decide) h.wrapper (by decide)) (by decide)).append (areLines_row (by decide) 0)

end Wrapper

theorem Declaration.Offers.isPlain_wrapper {decl : Declaration Value} {e : Export} (h : decl.Offers e)
    (hd : decl.IsPlain) {c : Converter} (hc : c.IsBare) (hjoining : IsLine c.modulePrefix) : (e.wrapper c).IsPlain := by
  have hbody := Export.body_within hc (e.name c.modulePrefix) (h.within_plain hd) fun _ h => h
  have hname := e.isLine_name hjoining (h.isLine_names hd)
  obtain ⟨hn, hw⟩ := e.registration_name c (e.name c.modulePrefix)
  refine ⟨hbody, fun s hs => ?_, ?_, ?_⟩
  · obtain ⟨a, ha, hs⟩ := (Export.mem_structs hc _ e).1 hs
    exact (hbody.atoms a ha).tagged s hs
  · rw [Export.wrapper, hn]
    exact hname
  · rw [Export.wrapper, hw]
    exact isLine_append.2 ⟨by decide, hname⟩

theorem Tags.isLine_declarations {ss : List String} (h : ∀ s ∈ ss, IsLine s) :
    ∀ l ∈ (recordAll {} ss).declarations, IsLine l := by
  intro l hl
  obtain ⟨e, he, rfl⟩ := List.mem_map.1 hl
  obtain he | ⟨s, hs, rfl⟩ := mem_entries_recordAll he
  · cases he
  · exact isLine_around (by decide) (Name.isLine_tag (h s hs)) (by decide) (Spelling.isLine_baseName (h s hs)) (by decide)

namespace Module

def lines (m : Module) : List String := stringLines m.code

def headerLines (m : Module) : List String :=
  ["// machine generated from " ++ (if m.moduleName.isTrue then m.moduleName.plain else "<input>") ++ ", do not edit",
    "use ring_lang_rs::*;", ""]

def tagLines (m : Module) : List String :=
  m.tags.declarations ++ if m.tags.declarations.isEmpty then [] else [""]

def tableLines (rs : List Registration) : List String :=
  "ring_libinit! \x7b" :: rs.map (fun r => "    " ++ tableLine r) ++ ["\x7d"]

def rows (m : Module) : List Row :=
  m.headerLines.map (Row.mk 0) ++ m.tagLines.map (Row.mk 0) ++ m.wrappers.flatMap Wrapper.rows
    ++ block "ring_libinit! \x7b" "\x7d" (m.registrations.map fun r => ⟨1, tableLine r⟩)

theorem placedAt_lines (ls : List String) : (ls.map (Row.mk 0)).map (Row.placedAt 0) = ls := by
  rw [List.map_map]
  exact (List.map_congr_left fun l _ => Row.placedAt_zero l).trans (List.map_id ls)

theorem placedAt_entry (r : Registration) : Row.placedAt 0 ⟨1, tableLine r⟩ = "    " ++ tableLine r := by
  have hne : (tableLine r).isEmpty = false := by simp [tableLine, quoteLiteral]
  have hindent : indentation (0 + 1) = "    " := by decide
  rw [Row.placedAt, placed, hne, hindent, if_neg Bool.false_ne_true]

theorem placedAt_table (rs : List Registration) :
    (block "ring_libinit! \x7b" "\x7d" (rs.map fun r => ⟨1, tableLine r⟩)).map (Row.placedAt 0) = tableLines rs := by
  have hentries : (rs.map fun r => (⟨1, tableLine r⟩ : Row)).map (Row.placedAt 0) =
      rs.map fun r => "    " ++ tableLine r := by
    simp only [List.map_map, Function.comp_def, placedAt_entry]
  rw [block, List.map_append, List.map_cons, hentries, List.map_singleton, Row.placedAt_zero, Row.placedAt_zero,
    tableLines]

variable {m : Module}

theorem writes_ops_of_wrappers {rows : Wrapper → List Row} (hw : ∀ w ∈ m.wrappers, Writes w.ops (rows w)) :
    Writes m.ops (m.headerLines.map (Row.mk 0) ++ m.tagLines.map (Row.mk 0) ++ m.wrappers.flatMap rows
      ++ block "ring_libinit! \x7b" "\x7d" (m.registrations.map fun r => ⟨1, tableLine r⟩)) := by
  have htags : Writes (tagOps m.tags) (m.tagLines.map (Row.mk 0)) := by
    unfold tagOps tagLines
    split
    · next h =>
      rw [h]
      exact writes_nil
    · next h =>
      have hne : m.tags.declarations.isEmpty = false := by simpa using h
      rw [hne, List.map_append]
      exact (writes_lines _).append (writes_line "")
  have htable : Writes (table m.registrations)
      (block "ring_libinit! \x7b" "\x7d" (m.registrations.map fun r => ⟨1, tableLine r⟩)) := by
    have hlines := (writes_lines (m.registrations.map tableLine)).inside.block "ring_libinit! \x7b" "\x7d"
    simp only [List.map_map, Function.comp_def, Row.deeper] at hlines
    exact hlines
  exact ((((writes_lines m.headerLines).append htags).append (.flatMap hw)).append htable)

theorem writes_ops (hw : ∀ w ∈ m.wrappers, w.IsPlain) : Writes m.ops m.rows :=
  writes_ops_of_wrappers fun w h => (hw w h).writes_ops

/-- The text of any module: its header, its tags, the texts of its wrappers in order, and the table. -/
theorem code_eq (m : Module) : m.code = "\n".intercalate
    (m.headerLines ++ m.tagLines ++ m.wrappers.map Wrapper.text ++ tableLines m.registrations) ++ "\n" := by
  obtain ⟨rows, hrows⟩ := Classical.axiomOfChoice Wrapper.exists_writes
  have hwrites : ∀ w, Writes (Wrapper.ops w) (rows w) := fun w => (hrows w).1
  have hne : ∀ w, rows w ≠ [] := fun w => (hrows w).2
  have htext : ∀ w : Wrapper, w.text = "\n".intercalate ((rows w).map (Row.placedAt 0)) := fun w => (hwrites w).write_eq
  have hsingle : ∀ ls : List String, (ls.map fun l => [l]).flatten = ls := fun ls => List.flatMap_singleton' ls
  -- The header, the tags and the table are lines of their own; a wrapper is a group of lines.
  let groups := (m.headerLines.map fun l => [l]) ++ (m.tagLines.map fun l => [l])
    ++ (m.wrappers.map fun w => (rows w).map (Row.placedAt 0)) ++ ((tableLines m.registrations).map fun l => [l])
  have hgroups : ∀ g ∈ groups, g ≠ [] := by
    have hlines : ∀ ls : List String, ∀ g ∈ ls.map fun l => [l], g ≠ [] := by simp
    have hwrappers : ∀ g ∈ m.wrappers.map fun w => (rows w).map (Row.placedAt 0), g ≠ [] := by simp [hne]
    simp only [groups, List.forall_mem_append]
    exact ⟨⟨⟨hlines _, hlines _⟩, hwrappers⟩, hlines _⟩
  have hcode : m.code = "\n".intercalate groups.flatten ++ "\n" := by
    rw [code, (writes_ops_of_wrappers fun w _ => hwrites w).write_eq, List.map_append, List.map_append, List.map_append,
      placedAt_lines, placedAt_lines, placedAt_table, List.map_flatMap]
    simp only [groups, List.flatten_append, hsingle, List.flatMap_def]
  rw [hcode, intercalate_flatten hgroups]
  simp only [groups, List.map_append, List.map_map, Function.comp_def, String.intercalate_singleton, List.map_id', ← htext]

theorem areLines_rows (hname : IsLine m.moduleName.plain) (hw : ∀ w ∈ m.wrappers, w.IsPlain) : AreLines m.rows := by
  have hmk : ∀ {ls : List String}, (∀ l ∈ ls, IsLine l) → AreLines (ls.map (Row.mk 0)) := by
    intro ls h r hr
    obtain ⟨l, hl, rfl⟩ := List.mem_map.1 hr
    exact h l hl
  have hheader : ∀ l ∈ m.headerLines, IsLine l := by
    have hshown : IsLine (if m.moduleName.isTrue then m.moduleName.plain else "<input>") := by
      split
      · exact hname
      · decide
    refine List.forall_mem_cons.2 ⟨isLine_between (by decide) hshown (by decide), ?_⟩
    decide
  have htags : ∀ l ∈ m.tagLines, IsLine l := by
    refine List.forall_mem_append.2 ⟨Tags.isLine_declarations fun s hs => ?_, ?_⟩
    · obtain ⟨w, hm, hs⟩ := List.mem_flatMap.1 hs
      exact (hw w hm).structs s hs
    · split <;> decide
  have hwrappers : AreLines (m.wrappers.flatMap Wrapper.rows) := by
    intro r hr
    obtain ⟨w, hm, hr⟩ := List.mem_flatMap.1 hr
    exact (hw w hm).areLines_rows r hr
  have htable : AreLines (m.registrations.map fun r => ⟨1, tableLine r⟩) := by
    intro l hl
    obtain ⟨r, hr, rfl⟩ := List.mem_map.1 hl
    obtain ⟨w, hm, rfl⟩ := List.mem_map.1 hr
    have hline := isLine_between (s := " => ") (isLine_quoteLiteral (hw w hm).name) (by decide) (hw w hm).wrapper
    exact isLine_append.2 ⟨hline, by decide⟩
  exact (((hmk hheader).append (hmk htags)).append hwrappers).append (htable.block (by decide) (by decide))

/-- A module without line feeds in its names is generated in these lines. -/
theorem lines_eq (hname : IsLine m.moduleName.plain) (hw : ∀ w ∈ m.wrappers, w.IsPlain) :
    m.lines = m.headerLines ++ m.tagLines ++ m.wrappers.flatMap (fun w => w.rows.map (Row.placedAt 0))
      ++ tableLines m.registrations ++ [""] := by
  have hrows : m.rows.map (Row.placedAt 0) = m.headerLines ++ m.tagLines
      ++ m.wrappers.flatMap (fun w => w.rows.map (Row.placedAt 0)) ++ tableLines m.registrations := by
    rw [rows, List.map_append, List.map_append, List.map_append, placedAt_lines, placedAt_lines, placedAt_table,
      List.map_flatMap]
  have hne : m.rows.map (Row.placedAt 0) ≠ [] := by
    rw [hrows]
    simp [headerLines]
  have hcode : m.code = write m.ops ++ "\n" ++ "" := String.append_empty.symm
  rw [← hrows, lines, hcode, stringLines_append, (writes_ops hw).write_eq,
    stringLines_intercalate hne ((areLines_rows hname hw).placedAt 0)]
  rfl

end Module
end RingBridge
