import RingBridge.Proofs.Module.Identifiers
import RingBridge.Proofs.Tables
/-!
Names left out. A module that is generated with names left out is the one without, less the exports that have those
names: the methods that stand in for accessors and constructors are those of the whole document in both.
-/
namespace RingBridge

theorem Name.joining_joining (stem : String) : joining (joining stem) = joining stem := by
  by_cases hempty : stem.isEmpty = true
  · simp [joining, hempty]
  · by_cases hlast : stem.toList.getLast? = some '_'
    · simp [joining, hempty, hlast]
    · simp [joining, hempty, hlast]

namespace Export

/-- The names that leave an export out: that of a function, that of the struct of any other export, and for a method
    also its own name behind that of its struct. -/
def entries : Export → List String
  | destructor s | constructor s | getter s _ _ | setter s _ _ => [s]
  | method s f => [s, s ++ "::" ++ f.name]
  | function f => [f.name]

def isKept (names : List String) (e : Export) : Bool := e.entries.all fun x => !names.contains x

def kept (names : List String) (es : List Export) : List Export := es.filter (isKept names)

/-- The names count, and not how they are listed. -/
theorem kept_congr {names others : List String} (h : ∀ x, x ∈ names ↔ x ∈ others) : kept names = kept others := by
  have hcontains : names.contains = others.contains := by
    funext x
    rw [Bool.eq_iff_iff, List.contains_iff_mem, List.contains_iff_mem, h]
  funext es
  rw [kept, kept]
  unfold isKept
  rw [hcontains]

theorem kept_eq_self {names : List String} {es : List Export} (h : ∀ e ∈ es, ∀ x ∈ e.entries, x ∉ names) :
    kept names es = es :=
  List.filter_eq_self.2 fun e he => List.all_eq_true.2 fun x hx => by simpa using h e he x hx

theorem kept_eq_nil {names : List String} {es : List Export} (h : ∀ e ∈ es, ∃ x ∈ e.entries, x ∈ names) :
    kept names es = [] := by
  refine List.filter_eq_nil_iff.2 fun e he => ?_
  obtain ⟨x, hx, hin⟩ := h e he
  exact fun hkept => by simpa [hin] using List.all_eq_true.1 hkept x hx

end Export

namespace Declaration

def HasPlainOwner (decl : Declaration Value) : Prop := ∀ v ∈ decl.owner?, Spelling.baseName v.plain = v.plain

theorem HasPlainOwner.of_isIdentifier {decl : Declaration Value} (h : ∀ v ∈ decl.owner?, Source.IsIdentifier v.plain) :
    decl.HasPlainOwner := fun v hv => baseName_of_isIdentifier (h v hv)

/-- The exports of a struct go with its name, all or none. -/
theorem Offers.entries_struct {t : Struct Value} {n : String} {e : Export} (h : (Declaration.struct t).Offers e)
    (hn : t.name = .text n) : e.entries = [Spelling.baseName n] := by
  cases h with
  | destructor hm | constructor hm | getter hm | setter hm =>
    cases hn.symm.trans hm
    rfl

/-- The exports of an impl go with its name as well. -/
theorem Offers.mem_entries_impl {i : Impl Value} {n : String} {e : Export} (h : (Declaration.impl i).Offers e)
    (hn : i.name = .text n) : Spelling.baseName n ∈ e.entries := by
  cases h with
  | method hm =>
    cases hn.symm.trans hm
    exact List.mem_cons_self

end Declaration

namespace Plan
variable {p q : Plan} {es : List Export}

theorem ignores_iff {name : String} : p.ignores name = true ↔ name ∈ p.ignored := List.contains_iff_mem

theorem ignores_of_nil (h : p.ignored = []) (name : String) : p.ignores name = false := by
  rw [ignores, h]
  rfl

/-- What a struct exports depends on the index alone. -/
theorem structExports_congr (hindex : q.index = p.index) : q.structExports = p.structExports := by
  funext struct t
  unfold structExports accessors getter setter
  rw [hindex]

/-- The methods left out are those whose exports go with the names. -/
theorem methods_kept (hp : p.ignored = []) {struct : String} (hstruct : q.ignores struct = false) {i : Impl Value}
    (h : p.methods struct i = es.map .ok) : q.methods struct i = (Export.kept q.ignored es).map .ok := by
  unfold methods at h ⊢
  generalize i.methods = fs at h ⊢
  induction fs generalizing es with
  | nil =>
    rw [List.map_eq_nil_iff.1 h.symm]
    rfl
  | cons f fs ih =>
    have hselects : p.selectsMethod struct f = f.isPublic.isTrue := by
      rw [selectsMethod, ignores_of_nil hp]
      exact Bool.and_true _
    rw [List.filter_cons, hselects] at h
    rw [List.filter_cons, selectsMethod]
    cases hpublic : f.isPublic.isTrue with
    | false =>
      rw [hpublic] at h
      exact ih h
    | true =>
      rw [hpublic, if_pos rfl, List.map_cons] at h
      obtain ⟨e, rest, rfl, he, hrest⟩ := List.map_eq_cons_iff.1 h.symm
      obtain ⟨g, hg, rfl⟩ := Except.exists_of_map_eq_ok he.symm
      have hname : f.name.plain = g.name := by
        rw [Document.eq_map_of_functionText hg]
        rfl
      have hkept : (Export.method struct g).isKept q.ignored = !q.ignores (struct ++ "::" ++ f.name.plain) := by
        rw [hname]
        show (!q.ignores struct && (_ && true)) = _
        rw [hstruct, Bool.and_true]
        rfl
      rw [Bool.true_and, Export.kept, List.filter_cons, hkept]
      cases q.ignores (struct ++ "::" ++ f.name.plain) with
      | true => exact ih hrest.symm
      | false =>
        rw [Bool.not_false, if_pos rfl, if_pos rfl, List.map_cons, List.map_cons, hg, ih hrest.symm]
        rfl

/-- A declaration offers, with names left out, what it offers without, less what goes with the names. -/
theorem exports_kept (hp : p.ignored = []) (hindex : q.index = p.index) {decl : Declaration Value}
    (hplain : decl.HasPlainOwner) (h : p.exports decl = es.map .ok) :
    q.exports decl = (Export.kept q.ignored es).map .ok := by
  have hoffers : ∀ e ∈ es, decl.Offers e := fun e he => offers_of_mem (h ▸ List.mem_map_of_mem he)
  cases decl with
  | struct t =>
    obtain ⟨n, hn, h⟩ := named_eq_map h
    have hbase : Spelling.baseName n = n := by
      have hv := hplain t.name rfl
      rwa [hn] at hv
    have hentries : ∀ e ∈ es, e.entries = [n] := by
      intro e he
      rw [(hoffers e he).entries_struct hn, hbase]
    rw [ignores_of_nil hp, if_neg Bool.false_ne_true] at h
    have hq : q.exports (.struct t) = if q.ignores n then [] else q.structExports (Spelling.baseName n) t := by
      rw [exports, hn]
      rfl
    rw [hq]
    cases hin : q.ignores n with
    | true =>
      rw [Export.kept_eq_nil fun e he => ⟨n, by simp [hentries e he], ignores_iff.1 hin⟩]
      rfl
    | false =>
      have hfree : ∀ e ∈ es, ∀ x ∈ e.entries, x ∉ q.ignored := by
        intro e he x hx hm
        rw [hentries e he, List.mem_singleton] at hx
        exact Bool.false_ne_true (hin.symm.trans (ignores_iff.2 (hx ▸ hm)))
      rw [Export.kept_eq_self hfree, structExports_congr hindex, ← h]
      rfl
  | impl i =>
    obtain ⟨n, hn, h⟩ := named_eq_map h
    rw [ignores_of_nil hp, if_neg Bool.false_ne_true] at h
    have hq : q.exports (.impl i) =
        if q.ignores (Spelling.baseName n) then [] else q.methods (Spelling.baseName n) i := by
      rw [exports, hn]
      rfl
    rw [hq]
    cases hin : q.ignores (Spelling.baseName n) with
    | true =>
      rw [Export.kept_eq_nil fun e he => ⟨_, (hoffers e he).mem_entries_impl hn, ignores_iff.1 hin⟩]
      rfl
    | false => exact methods_kept hp hin h
  | func f =>
    rw [exports] at h ⊢
    cases hpublic : f.isPublic.isTrue with
    | false =>
      rw [hpublic] at h
      rw [List.map_eq_nil_iff.1 h.symm]
      rfl
    | true =>
      rw [hpublic, if_pos rfl] at h
      obtain ⟨n, hn, h⟩ := named_eq_map h
      rw [ignores_of_nil hp, if_neg Bool.false_ne_true] at h
      obtain ⟨e, rfl, he⟩ := List.map_eq_singleton_iff.1 h.symm
      obtain ⟨g, hg, rfl⟩ := Except.exists_of_map_eq_ok he.symm
      have hname : n = g.name := by
        rw [Document.eq_map_of_functionText hg] at hn
        exact (Value.text.inj hn).symm
      have hkept : (Export.function g).isKept q.ignored = !q.ignores n := by
        rw [hname]
        exact Bool.and_true _
      have hq : named f.name (fun name => if q.ignores name then [] else
          [(Document.functionText f).map Export.function]) =
            if q.ignores n then [] else [(Document.functionText f).map .function] := by
        rw [hn]
        rfl
      rw [if_pos rfl, hq, Export.kept, List.filter_cons, hkept]
      cases q.ignores n with
      | true => rfl
      | false =>
        rw [hg]
        rfl

end Plan

namespace Settings
variable {s : Settings} {d : Document Value} {given : Option String} {m : Module} {stem joined : String}
  {all inModule : List String}

theorem moduleFor_joining (s : Settings) (stem : String) : s.moduleFor (Name.joining stem) = s.moduleFor stem := by
  rw [moduleFor, moduleFor, Name.joining_joining]

theorem moduleFor_ignoreIn (s : Settings) (stem : String) (names : List String) :
    (s.ignoreIn stem names).moduleFor stem =
      { s.moduleFor stem with ignored := (s.moduleFor stem).ignored ++ names } := by
  rw [moduleFor, ignoreIn, setModule, Table.find?_put_self]
  rfl

/-- Names that are left out, everywhere or in the modules with one prefix, change nothing else about a module with that
    prefix. -/
theorem moduleFor_ignored (hstem : Name.joining stem = joined) : ((s.ignore all).ignoreIn stem inModule).moduleFor joined =
    { s.moduleFor joined with ignored := (s.moduleFor joined).ignored ++ inModule } := by
  rw [← hstem, moduleFor_joining, moduleFor_joining]
  exact moduleFor_ignoreIn (s.ignore all) stem inModule

theorem converterFor_ignored (hstem : Name.joining stem = m.modulePrefix) :
    ((s.ignore all).ignoreIn stem inModule).converterFor m = s.converterFor m := by
  rw [converterFor, converterFor, moduleFor_ignored hstem]
  rfl

/-- The index is that of the whole document, whatever is left out. -/
theorem plan_ignored {index : MethodIndex} (hstem : Name.joining stem = joined)
    (hindex : MethodIndex.ofDocument d = .ok index) : ((s.ignore all).ignoreIn stem inModule).plan d joined =
      .ok ⟨(s.ignored ++ all) ++ ((s.moduleFor joined).ignored ++ inModule), index⟩ := by
  rw [plan, hindex, moduleFor_ignored hstem]
  rfl

/-- Leaving names out is deletion. Take settings under which nothing is left out, and a document in which structs and
    impls have plain names. A document of text has a module. Whenever there is a module, it holds the wrappers of some
    exports, and with any names left out there is a module that differs only in that it holds, in the same order, the
    same wrappers of those exports that go with none of the names. It is the same for all ways to divide the names
    between those left out everywhere and those left out under the prefix of the module. -/
theorem generate_ignore {joined : String} (hjoined : d.joinedPrefix given = .ok joined) (hall : s.ignored = [])
    (hmodule : (s.moduleFor joined).ignored = []) (hplain : ∀ decl ∈ d.decls, decl.HasPlainOwner) :
    (∀ e : Document String, d = e.map .text → ∃ m, s.generate d given = .ok m) ∧
    ∀ m, s.generate d given = .ok m → ∃ es, s.exports d joined = .ok es ∧
      m.wrappers = es.map (Export.wrapper (s.converterFor m)) ∧
      ∀ (names all inModule : List String) (stem : String), Name.joining stem = joined →
        (∀ x, x ∈ names ↔ x ∈ all ∨ x ∈ inModule) →
        ((s.ignore all).ignoreIn stem inModule).generate d given =
          .ok { m with wrappers := (Export.kept names es).map (Export.wrapper (s.converterFor m)) } := by
  refine ⟨fun e he => ?_, fun m h => ?_⟩
  · subst he
    obtain ⟨m, hm, -⟩ := s.exists_generate e hjoined
    exact ⟨m, hm⟩
  obtain ⟨p, es, hgiven, hp, hes, hm⟩ := generate_eq_ok.1 h
  have hgiven : m.modulePrefix = joined := Except.ok.inj (hgiven.symm.trans hjoined)
  rw [hgiven] at hp
  obtain ⟨index, hindex, hp⟩ := Except.exists_of_bind_eq_ok hp
  cases hp
  refine ⟨es, ?_, congrArg Module.wrappers hm, fun names all inModule stem hstem hnames => ?_⟩
  · rw [exports, plan, hindex]
    exact Except.mapM_id_eq_ok.2 hes
  let p : Plan := ⟨s.ignored ++ (s.moduleFor joined).ignored, index⟩
  let q : Plan := ⟨all ++ inModule, index⟩
  have hq : ((s.ignore all).ignoreIn stem inModule).plan d joined = .ok q := by
    rw [plan_ignored hstem hindex, hall, hmodule]
    rfl
  have hkept : Export.kept names = Export.kept q.ignored :=
    Export.kept_congr fun x => (hnames x).trans List.mem_append.symm
  have hnone : p.ignored = [] := by simp [p, hall, hmodule]
  obtain ⟨group, heach, rfl⟩ := Except.exists_groups hes
  refine generate_eq_ok.2 ⟨q, Export.kept names (d.decls.flatMap group), ?_, ?_, ?_, ?_⟩
  · exact hgiven ▸ hjoined
  · exact hgiven ▸ hq
  · rw [hkept, Export.kept, List.filter_flatMap, List.map_flatMap, List.flatMap_def, List.flatMap_def]
    refine congrArg List.flatten (List.map_congr_left fun decl hd => ?_)
    exact Plan.exports_kept (p := p) (q := q) hnone rfl (hplain decl hd) (heach decl hd)
  · have hconverter : ((s.ignore all).ignoreIn stem inModule).converterFor { m with wrappers := [] } =
        s.converterFor m := converterFor_ignored (hstem.trans hgiven.symm)
    have hname : m.moduleName = d.moduleName := congrArg Module.moduleName hm
    rw [hname]
    exact congrArg (fun c => Module.mk d.moduleName m.modulePrefix
      ((Export.kept names (d.decls.flatMap group)).map (Export.wrapper c))) hconverter.symm

theorem exports_gauge : ({} : Settings).exports (gaugeDocument.map Value.text) "" =
    .ok [.method "Gauge" levelMethod, .destructor "Gauge", .constructor "Gauge", .setter "Gauge" "level" "f64"] := by
  have hoffers : (gaugeDocument.map Value.text).decls.flatMap gaugePlan.exports = List.map .ok
      [.method "Gauge" levelMethod, .destructor "Gauge", .constructor "Gauge", .setter "Gauge" "level" "f64"] := by
    show gaugePlan.exports (.impl ⟨.text "Gauge", [levelMethod.map Value.text]⟩) ++
      (gaugePlan.exports (.struct (gaugeStruct.map Value.text)) ++ []) = _
    rw [exports_gauge_impl, exports_gauge_struct]
    rfl
  rw [exports, plan_gauge]
  exact Except.mapM_id_eq_ok.2 hoffers

/-- A method is left out in the modules with no prefix. The getter for which it stood in does not come back. -/
theorem generate_ignore_gauge : ∃ m m',
    generate {} (gaugeDocument.map Value.text) none = .ok m ∧
    m.registrations.map Registration.name = ["gauge_get_level", "gauge_delete", "gauge_new", "gauge_set_level"] ∧
    ((({} : Settings).ignore []).ignoreIn "" ["Gauge::get_level"]).generate (gaugeDocument.map Value.text) none = .ok m' ∧
    m'.registrations.map Registration.name = ["gauge_delete", "gauge_new", "gauge_set_level"] := by
  have hgauge : Source.IsIdentifier "Gauge" := ⟨⟨'G', ['a', 'u', 'g', 'e'], by decide, by decide⟩, .inl rfl⟩
  have hplain : ∀ decl ∈ (gaugeDocument.map Value.text).decls, decl.HasPlainOwner := by
    intro decl hd
    obtain rfl | hd := List.mem_cons.1 hd
    · exact .of_isIdentifier fun v hv => Option.some.inj hv ▸ hgauge
    · exact List.mem_singleton.1 hd ▸ .of_isIdentifier fun v hv => Option.some.inj hv ▸ hgauge
  have hop : ∀ op, Export.structName "" "Gauge" op = "gauge_" ++ op := by
    intro op
    rw [Export.structName, baseName_gauge]
    rfl
  obtain ⟨htotal, hkept⟩ := @generate_ignore {} _ none "" rfl rfl rfl hplain
  obtain ⟨m, hm⟩ := htotal gaugeDocument rfl
  obtain ⟨es, hes, hwrappers, hignore⟩ := hkept m hm
  cases hes.symm.trans exports_gauge
  have hgiven : (converterFor {} m).modulePrefix = "" := by
    obtain ⟨_, _, hgiven, -⟩ := generate_eq_ok.1 hm
    rw [converterFor, ← Except.ok.inj hgiven]
    rfl
  have hnames : ∀ es : List Export, (((es.map (Export.wrapper (converterFor {} m))).map Wrapper.registration).map
      Registration.name) = es.map fun e => e.name "" := by
    intro es
    rw [List.map_map, List.map_map]
    refine List.map_congr_left fun e _ => ?_
    show ((e.wrapperAs _ _).registration).name = _
    rw [(Export.registration_name ..).1, hgiven]
  refine ⟨m, _, hm, ?_, hignore ["Gauge::get_level"] [] ["Gauge::get_level"] "" rfl (by simp), ?_⟩
  · rw [Module.registrations, hwrappers, hnames]
    show ["gauge_get_level", Export.structName "" "Gauge" "delete", Export.structName "" "Gauge" "new",
      Export.structName "" "Gauge" ("set_" ++ "level")] = _
    rw [hop, hop, hop]
    rfl
  · rw [Module.registrations, hnames]
    show [Export.structName "" "Gauge" "delete", Export.structName "" "Gauge" "new",
      Export.structName "" "Gauge" ("set_" ++ "level")] = _
    rw [hop, hop, hop]
    rfl

end Settings
end RingBridge
