import RingBridge.Proofs.Module.Table
/-!
The tags of a module: they are those that its wrappers pass on, and each of them is declared on one line above the
wrappers.
-/
namespace RingBridge
open Layout Text Wrapper

namespace Module
variable {m : Module} {const : String}

/-- Somewhere in a wrapper, the constant is passed on as a tag. -/
def PassesTag (m : Module) (const : String) : Prop :=
  ∃ w ∈ m.wrappers, ∃ a ∈ w.body.atoms, ∃ struct, a.tagged? = some struct ∧ Name.tag struct = const

theorem mem_keys_tags
    (h : ∀ w ∈ m.wrappers, ∀ struct, struct ∈ w.structs ↔ ∃ a ∈ w.body.atoms, a.tagged? = some struct) :
    const ∈ m.tags.keys ↔ m.PassesTag const := by
  rw [tags, Tags.mem_keys_recordAll]
  constructor
  · rintro (hnil | ⟨struct, hs, hconst⟩)
    · cases hnil
    · obtain ⟨w, hw, hs⟩ := List.mem_flatMap.1 hs
      obtain ⟨a, ha, hs⟩ := (h w hw struct).1 hs
      exact ⟨w, hw, a, ha, struct, hs, hconst⟩
  · rintro ⟨w, hw, a, ha, struct, hs, hconst⟩
    exact .inr ⟨struct, List.mem_flatMap.2 ⟨w, hw, (h w hw struct).2 ⟨a, ha, hs⟩⟩, hconst⟩

theorem filter_tagLines (m : Module) : m.tagLines.filter (startsWith "const ") = m.tags.declarations := by
  have hdeclarations : m.tags.declarations.filter (startsWith "const ") = m.tags.declarations := by
    apply List.filter_eq_self.2
    intro l hl
    obtain ⟨e, _, rfl⟩ := List.mem_map.1 hl
    simp only [Tags.declaration, String.append_assoc, startsWith_append]
  have hempty : NoneStarts "const " (if m.tags.declarations.isEmpty then [] else [""]) := by
    split
    · exact List.forall_mem_nil _
    · exact List.forall_mem_singleton.2 (by decide)
  rw [tagLines, List.filter_append, hdeclarations, hempty.filter, List.append_nil]

end Module

namespace Settings
variable {s : Settings} {d : Document Value} {given : Option String} {m : Module}

theorem mem_keys_of_generate (h : s.generate d given = .ok m)
    (hbare : (s.moduleFor m.modulePrefix).handlers.entries = []) (const : String) :
    const ∈ m.tags.keys ↔ m.PassesTag const := by
  apply Module.mem_keys_tags
  intro w hw struct
  obtain ⟨decl, _, e, _, rfl⟩ := offers_of_generate h hw
  exact Export.mem_structs (Converter.isBare_converter hbare _) _ e

/-- In a module without handlers and without line feeds in its names, the tags are those that the wrappers pass on,
    no tag comes twice, and the lines that declare a constant declare the tags in order, before any wrapper. -/
theorem generate_tags (h : s.generate d given = .ok m) (hbare : (s.moduleFor m.modulePrefix).handlers.entries = [])
    (hname : IsLine m.moduleName.plain) (hjoining : IsLine m.modulePrefix) (hnames : ∀ decl ∈ d.decls, decl.IsPlain) :
    (∀ const, const ∈ m.tags.keys ↔ m.PassesTag const) ∧ m.tags.keys.Nodup ∧
      m.lines.filter (startsWith "const ") =
        m.tags.entries.map (fun e => "const " ++ e.1 ++ ": &[u8] = b\"" ++ e.2 ++ "\\0\";") ∧
      ∃ front back, m.lines = front ++ m.lines.filter (startsWith "const ") ++ back ∧
        ∀ l ∈ front ++ m.lines.filter (startsWith "const "), startsWith "ring_func!(" l = false := by
  have hplain := isPlain_of_generate h hbare hjoining hnames
  have hfilter : m.lines.filter (startsWith "const ") = m.tags.declarations := by
    have hopenings : Module.NoneStarts "const " (m.registrations.map opening) := by
      intro l hl
      obtain ⟨r, _, rfl⟩ := List.mem_map.1 hl
      rw [Module.opening_eq, startsWith, String.toList_append]
      rfl
    rw [Module.filter_lines hname hplain rfl (by decide), List.filter_append, List.filter_append,
      Module.filter_tagLines, hopenings.filter, List.append_nil]
    exact List.append_nil _
  have hbefore : Module.NoneStarts "ring_func!(" (m.headerLines ++ m.tags.declarations) :=
    (Module.noneStarts_header rfl (by decide) m).append
      fun l hl => Module.noneStarts_tags rfl (by decide) m l (List.mem_append_left _ hl)
  obtain ⟨back, hback⟩ : m.headerLines ++ m.tags.declarations <+: m.lines := by
    rw [Module.lines_eq hname hplain, Module.tagLines]
    simp only [List.append_assoc, List.prefix_append_right_inj, List.prefix_append]
  refine ⟨mem_keys_of_generate h hbare, Tags.nodup_keys_recordAll List.Pairwise.nil, hfilter, m.headerLines, back, ?_⟩
  rw [hfilter]
  exact ⟨hback.symm, hbefore⟩

/-- Here two structs share a constant, which is declared once. -/
theorem generate_tags_clashing : ∃ m, generate {} clashDocument none = .ok m ∧ "FOO_TYPE" ∈ m.tags.keys ∧
    (∀ const, const ∈ m.tags.keys ↔ m.PassesTag const) ∧ m.tags.keys.Nodup ∧
    m.lines.filter (startsWith "const ") =
      m.tags.entries.map (fun e => "const " ++ e.1 ++ ": &[u8] = b\"" ++ e.2 ++ "\\0\";") := by
  have hm : generate {} clashDocument none = .ok ⟨.text "", "", clashExports.map (Export.wrapper {})⟩ := rfl
  obtain ⟨hkeys, hnodup, hconst, _⟩ := generate_tags hm rfl (by decide) (by decide) (by decide)
  refine ⟨_, hm, (hkeys _).2 ⟨_, List.mem_map_of_mem (List.mem_cons_self ..), .expr (.handle 1 (Spelling.baseName "Foo")),
    ?_, Spelling.baseName "Foo", rfl, ?_⟩, hkeys, hnodup, hconst⟩
  · exact List.mem_append_right _ (List.mem_append_right _ (List.mem_append_right _ (.tail _ (.head _))))
  · have hfoo : Spelling.baseName "Foo" = "Foo" := (Spelling.baseName_plain (by decide)).trans (by decide)
    rw [hfoo]
    exact tag_plain (by decide) (by decide)

end Settings
end RingBridge
