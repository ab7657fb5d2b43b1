import RingBridge.Proofs.Module.Table
import RingBridge.Proofs.Wrapper.Upright
/-!
The generated file is laid out by its braces: it closes what it opens, in order, and each of its lines goes in by the
braces that are open before it.
-/
namespace RingBridge
open Layout Text

def Limits.unbraced : Limits where
  accesses a := a ≠ .unknown
  tags := IsBraceless
  borrows _ := True
  frees _ := True
  chars c := c ≠ '\x7b' ∧ c ≠ '\x7d'
  word c hc := by
    refine ⟨?_, ?_⟩ <;>
    · rintro rfl
      exact absurd hc (by decide)

theorem Limits.isUnbraced_unbraced : Limits.unbraced.IsUnbraced := ⟨fun h => h rfl, fun _ h => h⟩

theorem Limits.allows_unbraced {x : String} : Limits.unbraced.Allows x ↔ IsBraceless x :=
  ⟨fun h => ⟨fun hm => (h _ hm).1 rfl, fun hm => (h _ hm).2 rfl⟩,
    fun h _ hc => ⟨fun he => h.1 (he ▸ hc), fun he => h.2 (he ▸ hc)⟩⟩

structure IsCompact (x : String) : Prop where
  line : IsLine x
  braceless : IsBraceless x
  solid : ' ' ∉ x.toList

instance (x : String) : Decidable (IsCompact x) :=
  decidable_of_iff (IsLine x ∧ IsBraceless x ∧ ' ' ∉ x.toList) ⟨fun ⟨h, h', h''⟩ => ⟨h, h', h''⟩, fun h => ⟨h.1, h.2, h.3⟩⟩

theorem isCompact_baseName {x : String} (h : IsCompact x) : IsCompact (Spelling.baseName x) where
  line := Spelling.isLine_baseName h.line
  braceless := Spelling.isBraceless_baseName h.braceless
  solid hm := by
    rw [Spelling.baseName, onText, String.toList_ofList] at hm
    exact h.solid ((Spelling.stripPath_suffix _).subset ((List.takeWhile_prefix _).subset hm))

namespace Declaration
variable {decl : Declaration Value} {e : Export}

structure IsUnbraced (decl : Declaration Value) : Prop where
  names : ∀ v ∈ decl.names, IsCompact v.plain
  types : ∀ v ∈ decl.types, IsBraceless v.plain

instance (decl : Declaration Value) : Decidable decl.IsUnbraced :=
  decidable_of_iff ((∀ v ∈ decl.names, IsCompact v.plain) ∧ ∀ v ∈ decl.types, IsBraceless v.plain)
    ⟨fun ⟨h, h'⟩ => ⟨h, h'⟩, fun h => ⟨h.1, h.2⟩⟩

theorem isBraceless_of_mem_names {type x : String} (h : IsBraceless type) (hx : x ∈ (Shape.ofSpelling type).names) :
    IsBraceless x := by
  refine h.of_mem fun d hd hm => ?_
  have hne : d ≠ ' ' := by
    rintro rfl
    exact absurd hd (by decide)
  exact (Spelling.mem_of_mem_normalize (Shape.names_classify_subset _ hx hm)).resolve_left hne

theorem IsUnbraced.opaques (hd : decl.IsUnbraced) : ∀ x ∈ decl.opaques, IsBraceless x := by
  intro x hx
  obtain ⟨v, hv, rfl⟩ | ⟨type, htype, hx⟩ := mem_opaques_cases hx
  · exact Spelling.isBraceless_baseName (hd.names v hv).braceless
  · exact isBraceless_of_mem_names (hd.types type htype) hx

theorem Offers.isCompact_names (h : decl.Offers e) (hd : decl.IsUnbraced) : ∀ x ∈ e.names, IsCompact x := by
  intro x hx
  obtain ⟨v, hv, rfl | rfl⟩ := h.mem_names hx
  · exact hd.names v hv
  · exact isCompact_baseName (hd.names v hv)

theorem Offers.within_unbraced (h : decl.Offers e) (hd : decl.IsUnbraced) : e.Within .unbraced where
  freed _ _ := trivial
  names x hx := Limits.allows_unbraced.2 (h.isCompact_names hd x hx).braceless
  owner s hs := (h.isCompact_names hd s (Export.owner_mem_names hs)).braceless
  shapes s hs x hx := by
    have hbraceless := hd.opaques x (h.mem_opaques hs hx)
    exact ⟨hbraceless, trivial, Limits.allows_unbraced.2 hbraceless⟩

end Declaration

namespace Name

theorem isBraceless_exported {stem : String} (h : IsBraceless stem) {parts : List String}
    (hp : ∀ x ∈ parts, IsBraceless x) : IsBraceless (exported stem parts) := by
  have hjoining : IsBraceless (joining stem) := by
    unfold joining
    split
    · decide
    · split
      · exact h
      · exact h.append (by decide)
  exact hjoining.append (IsBraceless.intercalate (by decide) hp)

end Name

theorem Export.isBraceless_name {modulePrefix : String} (h : IsBraceless modulePrefix) {e : Export}
    (he : ∀ x ∈ e.names, IsBraceless x) : IsBraceless (e.name modulePrefix) := by
  have hstruct : ∀ struct op : String, IsBraceless struct → IsBraceless op →
      IsBraceless (structName modulePrefix struct op) := by
    intro struct op hs ho
    refine Name.isBraceless_exported h (List.forall_mem_cons.2 ⟨(Spelling.isBraceless_baseName hs).lower, ?_⟩)
    exact List.forall_mem_singleton.2 ho
  cases e with
  | destructor s | constructor s => exact hstruct s _ (he s (List.mem_singleton_self s)) (by decide)
  | getter s x type | setter s x type =>
    have hx := he x (List.mem_cons_of_mem s (List.mem_singleton_self x))
    exact hstruct s _ (he s (List.mem_cons_self ..)) (IsBraceless.append (by decide) hx)
  | method s f =>
    have hname := he f.name (List.mem_cons_of_mem s (List.mem_cons_self ..))
    refine Name.isBraceless_exported h (List.forall_mem_cons.2 ⟨(he s (List.mem_cons_self ..)).lower, ?_⟩)
    exact List.forall_mem_singleton.2 hname
  | function f => exact Name.isBraceless_exported h (List.forall_mem_singleton.2 (he f.name (List.mem_cons_self ..)))

structure Wrapper.IsNested (w : Wrapper) : Prop where
  rows : Nested 0 w.rows 0
  structs : ∀ s ∈ w.structs, IsBraceless s
  name : IsBraceless w.registration.name
  wrapper : IsBraceless w.registration.wrapper

theorem Declaration.Offers.isNested_wrapper {decl : Declaration Value} {e : Export} (h : decl.Offers e)
    (hd : decl.IsUnbraced) {c : Converter} (hc : c.IsBare) (hjoining : IsBraceless c.modulePrefix) :
    (e.wrapper c).IsNested := by
  have hbody := Export.body_within hc (e.name c.modulePrefix) (h.within_unbraced hd) fun _ h => h
  have hupright := Export.body_upright hc (e.name c.modulePrefix) fun x hx => (h.isCompact_names hd x hx).solid
  have hname := e.isBraceless_name hjoining fun x hx => (h.isCompact_names hd x hx).braceless
  obtain ⟨hn, hw⟩ := e.registration_name c (e.name c.modulePrefix)
  have hwrapper : IsBraceless (e.wrapper c).registration.wrapper := by
    rw [Export.wrapper, hw]
    exact IsBraceless.append (by decide) hname
  refine ⟨?_, fun s hs => ?_, ?_, hwrapper⟩
  · have hrows := (Code.nested_rows Limits.isUnbraced_unbraced hbody hupright).deeper
    have hopening : Turns 0 1 (Wrapper.opening (e.wrapper c).registration) :=
      Turns.between (j := 0) (by decide) hwrapper.isLevel (by decide)
    exact (hrows.block hopening (Fronted.between (by decide)) (by decide)).append (fits_empty 0 0).nested
  · obtain ⟨a, ha, hs⟩ := (Export.mem_structs hc _ e).1 hs
    exact (hbody.atoms a ha).tagged s hs
  · rw [Export.wrapper, hn]
    exact hname

theorem Tags.isLevel_declarations {ss : List String} (h : ∀ s ∈ ss, IsBraceless s) :
    ∀ l ∈ (recordAll {} ss).declarations, IsLevel l := by
  intro l hl
  obtain ⟨e, he, rfl⟩ := List.mem_map.1 hl
  obtain he | ⟨s, hs, rfl⟩ := mem_entries_recordAll he
  · cases he
  · exact IsLevel.around (by decide) (Name.isBraceless_tag (h s hs)).isLevel (by decide)
      (Spelling.isBraceless_baseName (h s hs)).isLevel (by decide)

namespace Module
variable {m : Module}

/-- The rows of a module, with those of its wrappers between its header and its table. -/
theorem nested_rows (hname : IsBraceless m.moduleName.plain) (hw : ∀ w ∈ m.wrappers, w.IsNested) :
    Nested 0 m.rows 0 := by
  have hmk : ∀ {ls : List String}, (∀ l ∈ ls, l = "" ∨ IsLevel l ∧ Fronted l) → Nested 0 (ls.map (Row.mk 0)) 0 := by
    intro ls h
    induction ls with
    | nil => exact .nil 0
    | cons l ls ih =>
      have h := List.forall_mem_cons.1 h
      refine .cons ?_ (ih h.2)
      obtain rfl | ⟨hl, hfront⟩ := h.1
      · exact fits_empty 0 0
      · exact fits_outer hl hfront
  have hheader : ∀ l ∈ m.headerLines, l = "" ∨ IsLevel l ∧ Fronted l := by
    have hshown : IsBraceless (if m.moduleName.isTrue then m.moduleName.plain else "<input>") := by
      split
      · exact hname
      · decide
    refine List.forall_mem_cons.2 ⟨.inr ⟨IsLevel.between (by decide) hshown.isLevel (by decide), ?_⟩, by decide⟩
    exact Fronted.between (by decide)
  have htags : ∀ l ∈ m.tagLines, l = "" ∨ IsLevel l ∧ Fronted l := by
    refine List.forall_mem_append.2 ⟨fun l hl => Or.inr ⟨?_, ?_⟩, ?_⟩
    · refine Tags.isLevel_declarations (fun s hs => ?_) l hl
      obtain ⟨w, hm, hs⟩ := List.mem_flatMap.1 hs
      exact (hw w hm).structs s hs
    · obtain ⟨e, _, rfl⟩ := List.mem_map.1 hl
      exact Fronted.around (by decide)
    · split <;> decide
  have htable : Nested 0 (m.registrations.map fun r => ⟨0, tableLine r⟩) 0 := by
    have hentries : ∀ l ∈ m.registrations.map tableLine, l = "" ∨ IsLevel l ∧ Fronted l := by
      intro l hl
      obtain ⟨r, hr, rfl⟩ := List.mem_map.1 hl
      obtain ⟨w, hm, rfl⟩ := List.mem_map.1 hr
      have hquoted : Fronted (quoteLiteral w.registration.name) := by
        rw [Fronted, quoteLiteral, String.toList_ofList]
        rfl
      refine .inr ⟨?_, hquoted.between.append _⟩
      exact ((hw w hm).name.quoteLiteral.isLevel.between (s := " => ") (by decide) (hw w hm).wrapper.isLevel).append
        (by decide)
    have hrows := hmk hentries
    rwa [List.map_map] at hrows
  have hopens : Turns 0 1 "ring_libinit! \x7b" := by decide
  have hblock := htable.deeper.block hopens (by decide) turns_brace
  rw [List.map_map] at hblock
  exact (((hmk hheader).append (hmk htags)).append (.flatMap fun w h => (hw w h).rows)).append hblock

/-- The lines of a module are its rows, and an empty one at the end. -/
theorem lines_eq_rows (hname : IsLine m.moduleName.plain) (hw : ∀ w ∈ m.wrappers, w.IsPlain) :
    m.lines = (m.rows ++ [Row.mk 0 ""]).map (Row.placedAt 0) := by
  rw [lines_eq hname hw, List.map_append, rows, List.map_append, List.map_append, List.map_append, placedAt_lines,
    placedAt_lines, placedAt_table, List.map_flatMap]
  rfl

end Module

namespace Settings
variable {s : Settings} {d : Document Value} {given : Option String} {m : Module}

/-- The text of a module without handlers, of which no name has a brace, a blank or a line feed and no type a brace,
    closes all braces that it opens and never more than are open. Each of its lines is empty or goes in by four blanks
    for each brace that is open before it, by four less if a closing brace comes first. -/
theorem generate_nested (h : s.generate d given = .ok m) (hbare : (s.moduleFor m.modulePrefix).handlers.entries = [])
    (hname : IsLine m.moduleName.plain ∧ IsBraceless m.moduleName.plain)
    (hjoining : IsLine m.modulePrefix ∧ IsBraceless m.modulePrefix) (hdecls : ∀ decl ∈ d.decls, decl.IsUnbraced) :
    braces 0 m.code = some 0 ∧ ∀ before l after, m.lines = before ++ l :: after → l ≠ "" →
      ∃ k, braces 0 ("\n".intercalate before) = some k ∧ IsIndented k l := by
  have hplain := isPlain_of_generate h hbare hjoining.1 fun decl hd v hv => ((hdecls decl hd).names v hv).line
  have hnested : ∀ w ∈ m.wrappers, w.IsNested := by
    intro w hw
    obtain ⟨decl, hd, e, he, rfl⟩ := offers_of_generate h hw
    have hc : (s.converterFor m).IsBare := Converter.isBare_converter hbare _
    apply he.isNested_wrapper (hdecls decl hd) hc
    rw [modulePrefix_converterFor hbare]
    exact hjoining.2
  have hrows := Module.nested_rows hname.2 hnested
  refine ⟨?_, fun before l after hl hne => ?_⟩
  · have hcode : Turns 0 0 (write m.ops ++ "\n") := by
      rw [(Module.writes_ops hplain).write_eq]
      exact hrows.turns.append (by decide)
    exact hcode
  · rw [Module.lines_eq_rows hname.1 hplain] at hl
    exact (hrows.append (fits_empty 0 0).nested).isIndented hl hne

/-- Here the setter and the function have blocks inside their own. -/
theorem generate_nested_points : ∃ m, generate {} pointDocument none = .ok m ∧ braces 0 m.code = some 0 ∧
    ∀ before l after, m.lines = before ++ l :: after → l ≠ "" →
      ∃ k, braces 0 ("\n".intercalate before) = some k ∧ IsIndented k l := by
  obtain ⟨ws, hm⟩ : ∃ ws, generate {} pointDocument none = .ok ⟨.text "", "", ws⟩ := ⟨_, rfl⟩
  have hempty : IsLine "" ∧ IsBraceless "" := by decide
  exact ⟨_, hm, generate_nested hm rfl hempty hempty (by decide)⟩

end Settings
end RingBridge
