import RingBridge.Proofs.Module.Lines
import RingBridge.Proofs.Module.Tagged
/-!
The generated file agrees with the registrations: it opens one wrapper for each of them, in order, lists them in its
table in the same order, and declares the tags that its wrappers pass on.
-/
namespace RingBridge
open Layout Text Wrapper

namespace Module

def NoneStarts (word : String) (ls : List String) : Prop := ∀ l ∈ ls, startsWith word l = false

variable {m : Module} {word : String} {c : Char}

theorem NoneStarts.append {ls ls' : List String} (h : NoneStarts word ls) (h' : NoneStarts word ls') :
    NoneStarts word (ls ++ ls') := List.forall_mem_append.2 ⟨h, h'⟩

theorem NoneStarts.filter {ls : List String} (h : NoneStarts word ls) : ls.filter (startsWith word) = [] :=
  List.filter_eq_nil_iff.2 fun l hl => by rw [h l hl]; decide

theorem noneStarts_header (hw : word.toList.head? = some c) (hc : c ≠ '/' ∧ c ≠ 'u') (m : Module) :
    NoneStarts word m.headerLines := by
  have hline : ∀ l ∈ m.headerLines, l.toList.head? ≠ some c := by
    refine List.forall_mem_cons.2 ⟨?_, ?_⟩
    · rw [String.toList_append, String.toList_append]
      exact fun h => hc.1 (Option.some.inj h).symm
    · refine List.forall_mem_cons.2 ⟨fun h => hc.2 (Option.some.inj h).symm, ?_⟩
      exact List.forall_mem_singleton.2 nofun
  exact fun l hl => startsWith_eq_false hw (hline l hl)

theorem noneStarts_tags (hw : word.toList.head? = some c) (hc : c ≠ 'c') (m : Module) : NoneStarts word m.tagLines := by
  refine List.forall_mem_append.2 ⟨fun l hl => startsWith_eq_false hw ?_, fun l hl => startsWith_eq_false hw ?_⟩
  · obtain ⟨e, _, rfl⟩ := List.mem_map.1 hl
    simp only [Tags.declaration, String.toList_append]
    exact fun h => hc (Option.some.inj h).symm
  · split at hl
    · cases hl
    · rw [List.mem_singleton.1 hl]
      nofun

/-- A wrapper starts with its first line; the others start with no word of a file. -/
theorem filter_wrapper (hw : word.toList.head? = some c) (hc : c ≠ ' ' ∧ c ≠ '\x7d') (w : Wrapper) :
    (w.rows.map (Row.placedAt 0)).filter (startsWith word) = [opening w.registration].filter (startsWith word) := by
  obtain ⟨ls, hls, hhead⟩ := w.exists_lines
  have hnone : NoneStarts word ls :=
    fun l hl => startsWith_eq_false hw fun h => (hhead l hl c h).elim hc.1 hc.2
  rw [hls, ← List.singleton_append, List.filter_append, hnone.filter, List.append_nil]

theorem filter_wrappers (hw : word.toList.head? = some c) (hc : c ≠ ' ' ∧ c ≠ '\x7d') (ws : List Wrapper) :
    (ws.flatMap fun w => w.rows.map (Row.placedAt 0)).filter (startsWith word) =
      (ws.map fun w => opening w.registration).filter (startsWith word) := by
  induction ws with
  | nil => rfl
  | cons w ws ih =>
    rw [List.flatMap_cons, List.filter_append, filter_wrapper hw hc, ih, ← List.filter_append]
    rfl

theorem filter_table (hw : word.toList.head? = some c) (hc : c ≠ ' ' ∧ c ≠ '\x7d') (rs : List Registration) :
    (tableLines rs ++ [""]).filter (startsWith word) = ["ring_libinit! \x7b"].filter (startsWith word) := by
  have hentries : NoneStarts word (rs.map fun r => "    " ++ tableLine r) := by
    intro l hl
    obtain ⟨r, _, rfl⟩ := List.mem_map.1 hl
    apply startsWith_eq_false hw
    rw [String.toList_append]
    exact fun h => hc.1 (Option.some.inj h).symm
  have hend : NoneStarts word ["\x7d", ""] := by
    refine List.forall_mem_cons.2 ⟨startsWith_eq_false hw fun h => hc.2 (Option.some.inj h).symm, ?_⟩
    exact List.forall_mem_singleton.2 (startsWith_eq_false hw nofun)
  have hparts : tableLines rs ++ [""] =
      ["ring_libinit! \x7b"] ++ ((rs.map fun r => "    " ++ tableLine r) ++ ["\x7d", ""]) := by
    rw [tableLines, List.append_assoc]
    rfl
  rw [hparts, List.filter_append, (hentries.append hend).filter, List.append_nil]

def front (m : Module) : List String :=
  m.headerLines ++ m.tagLines ++ m.wrappers.flatMap fun w => w.rows.map (Row.placedAt 0)

theorem filter_front (hw : word.toList.head? = some c) (hc : c ∉ ['/', 'u', ' ', '\x7d']) (m : Module) :
    m.front.filter (startsWith word) = (m.tagLines ++ m.registrations.map opening).filter (startsWith word) := by
  simp only [List.mem_cons, List.not_mem_nil, or_false, not_or] at hc
  obtain ⟨hslash, hu, hblank, hbrace⟩ := hc
  have hopenings : m.wrappers.map (fun w => opening w.registration) = m.registrations.map opening := by
    rw [registrations, List.map_map]
    rfl
  rw [front, List.filter_append, List.filter_append, List.filter_append, (noneStarts_header hw ⟨hslash, hu⟩ m).filter,
    filter_wrappers hw ⟨hblank, hbrace⟩, hopenings, List.nil_append]

/-- The lines of a module that start with a word are among the tags, the openings of the wrappers, and that of the
    table. -/
theorem filter_lines (hname : IsLine m.moduleName.plain) (hplain : ∀ w ∈ m.wrappers, w.IsPlain)
    (hw : word.toList.head? = some c) (hc : c ∉ ['/', 'u', ' ', '\x7d']) : m.lines.filter (startsWith word) =
      (m.tagLines ++ m.registrations.map opening ++ ["ring_libinit! \x7b"]).filter (startsWith word) := by
  have hindent : c ≠ ' ' ∧ c ≠ '\x7d' := by
    simp only [List.mem_cons, List.not_mem_nil, or_false, not_or] at hc
    exact hc.2.2
  rw [lines_eq hname hplain, ← front, List.append_assoc, List.filter_append, filter_front hw hc, filter_table hw hindent,
    ← List.filter_append]

theorem opening_eq (r : Registration) : opening r = "ring_func!(" ++ (r.wrapper ++ ", |p| \x7b") := String.append_assoc

theorem filter_openings (rs : List Registration) :
    (rs.map opening).filter (startsWith "ring_func!(") = rs.map opening := by
  apply List.filter_eq_self.2
  intro l hl
  obtain ⟨r, _, rfl⟩ := List.mem_map.1 hl
  rw [opening_eq, startsWith_append]

/-- Nothing but wrappers is opened before the table. -/
theorem noneStarts_front (m : Module) : NoneStarts "ring_libinit!" m.front := by
  have hopenings : NoneStarts "ring_libinit!" (m.registrations.map opening) := by
    intro l hl
    obtain ⟨r, _, rfl⟩ := List.mem_map.1 hl
    rw [opening_eq, startsWith, String.toList_append]
    rfl
  have hword : ("ring_libinit!").toList.head? = some 'r' := rfl
  have hfront := filter_front hword (by decide) m
  rw [((noneStarts_tags rfl (by decide) m).append hopenings).filter, List.filter_eq_nil_iff] at hfront
  exact fun l hl => Bool.not_eq_true _ ▸ hfront l hl

end Module

namespace Settings
variable {s : Settings} {d : Document Value} {given : Option String} {m : Module}

theorem modulePrefix_converterFor (hbare : (s.moduleFor m.modulePrefix).handlers.entries = []) :
    (s.converterFor m).modulePrefix = m.modulePrefix := by
  rw [converterFor, converter, hbare]
  rfl

/-- Without line feeds in names, all wrappers are written in lines. -/
theorem isPlain_of_generate (h : s.generate d given = .ok m)
    (hbare : (s.moduleFor m.modulePrefix).handlers.entries = []) (hjoining : IsLine m.modulePrefix)
    (hnames : ∀ decl ∈ d.decls, decl.IsPlain) : ∀ w ∈ m.wrappers, w.IsPlain := by
  intro w hw
  obtain ⟨decl, hd, e, he, rfl⟩ := offers_of_generate h hw
  have hc : (s.converterFor m).IsBare := Converter.isBare_converter hbare _
  apply he.isPlain_wrapper (hnames decl hd) hc
  rwa [modulePrefix_converterFor hbare]

/-- In a module without handlers and without line feeds in its names, the lines that open a wrapper are those of the
    registrations in order, the table at the end lists them in the same order, and the registrations are those of the
    exports of one declaration after the other. -/
theorem generate_table (h : s.generate d given = .ok m) (hbare : (s.moduleFor m.modulePrefix).handlers.entries = [])
    (hname : IsLine m.moduleName.plain) (hjoining : IsLine m.modulePrefix) (hnames : ∀ decl ∈ d.decls, decl.IsPlain) :
    m.lines.filter (startsWith "ring_func!(") =
        m.registrations.map (fun r => "ring_func!(" ++ r.wrapper ++ ", |p| \x7b") ∧
      (∃ front, m.lines = front ++ "ring_libinit! \x7b" ::
          m.registrations.map (fun r => "    " ++ quoteLiteral r.name ++ " => " ++ r.wrapper ++ ",") ++ ["\x7d", ""] ∧
        ∀ l ∈ front, startsWith "ring_libinit!" l = false) ∧
      ∃ p, ∃ parts : List (List Export), s.plan d m.modulePrefix = .ok p ∧
        d.decls.map p.exports = parts.map (List.map .ok) ∧
        m.registrations = parts.flatten.map fun e => (e.wrapper (s.converterFor m)).registration := by
  have hplain := isPlain_of_generate h hbare hjoining hnames
  refine ⟨?_, ⟨m.front, ?_, m.noneStarts_front⟩, ?_⟩
  · rw [Module.filter_lines hname hplain rfl (by decide), List.filter_append, List.filter_append,
      (Module.noneStarts_tags rfl (by decide) m).filter, Module.filter_openings]
    exact List.append_nil _
  · have hentry : ∀ r : Registration,
        "    " ++ Module.tableLine r = "    " ++ quoteLiteral r.name ++ " => " ++ r.wrapper ++ "," := by
      intro r
      simp only [Module.tableLine, String.append_assoc]
    rw [Module.lines_eq hname hplain, ← Module.front]
    simp only [Module.tableLines, hentry, List.append_assoc, List.cons_append, List.nil_append]
  · obtain ⟨p, parts, hp, hparts, hwrappers⟩ := parts_of_generate h
    exact ⟨p, parts, hp, hparts, by rw [Module.registrations, hwrappers, List.map_map]; rfl⟩

/-- Here two structs whose names differ in case are freed under one name. -/
theorem generate_table_clashing : ∃ m, generate {} clashDocument none = .ok m ∧
    m.registrations.map Registration.name =
      ["foo_delete", "foo_new", "foo_delete", "foo_new", "bar_delete", "bar_new", "make", "take", "both"] ∧
    m.lines.filter (startsWith "ring_func!(") =
      m.registrations.map (fun r => "ring_func!(" ++ r.wrapper ++ ", |p| \x7b") ∧
    ∃ front, m.lines = front ++ "ring_libinit! \x7b" ::
        m.registrations.map (fun r => "    " ++ quoteLiteral r.name ++ " => " ++ r.wrapper ++ ",") ++ ["\x7d", ""] ∧
      ∀ l ∈ front, startsWith "ring_libinit!" l = false := by
  have hm : generate {} clashDocument none = .ok ⟨.text "", "", clashExports.map (Export.wrapper {})⟩ := rfl
  obtain ⟨hfunc, htable, _⟩ := generate_table hm rfl (by decide) (by decide) (by decide)
  refine ⟨_, hm, ?_, hfunc, htable⟩
  have hbase : ∀ n ∈ ["Foo", "FOO", "Bar"], Spelling.baseName n = n := by
    intro n hn
    simp only [List.mem_cons, List.not_mem_nil, or_false] at hn
    obtain rfl | rfl | rfl := hn <;> exact (Spelling.baseName_plain (by decide)).trans (by decide)
  have hnames : clashExports.map (Export.name "") =
      ["foo_delete", "foo_new", "foo_delete", "foo_new", "bar_delete", "bar_new", "make", "take", "both"] := by
    simp only [clashExports, List.map_cons, Export.name, Export.structName, hbase "Foo" (by simp),
      hbase "FOO" (by simp), hbase "Bar" (by simp)]
    rfl
  rw [Module.registrations, List.map_map, List.map_map, ← hnames]
  exact List.map_congr_left fun e _ => (e.registration_name {} (e.name "")).1

end Settings
end RingBridge
