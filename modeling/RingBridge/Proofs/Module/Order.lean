import RingBridge.Proofs.Module.Lines
import RingBridge.Proofs.Module.Total
/-!
The order of declarations. What a declaration offers depends on the names left out and on which methods there are, and
neither depends on an order. A document in another order therefore gives the same groups of wrappers, in that order.
-/
namespace RingBridge
open Layout

namespace Plan
variable {p q : Plan}

/-- What is offered depends on the index only through the methods that it has. -/
theorem exports_congr (hignored : p.ignored = q.ignored) (hindex : p.index.has = q.index.has) :
    p.exports = q.exports := by
  have hignores : p.ignores = q.ignores := by
    funext name
    rw [ignores, ignores, hignored]
  have haccessors : p.accessors = q.accessors := by
    funext struct f
    unfold accessors getter setter MethodIndex.hasText
    rw [hindex]
  have hstruct : p.structExports = q.structExports := by
    funext struct t
    unfold structExports MethodIndex.hasNew MethodIndex.hasText
    rw [hindex, haccessors]
  have hmethods : p.methods = q.methods := by
    have hselects : p.selectsMethod = q.selectsMethod := by
      funext struct f
      rw [selectsMethod, selectsMethod, hignores]
    funext struct i
    rw [methods, methods, hselects]
  funext decl
  cases decl with
  | struct t => rw [exports, exports, hignores, hstruct]
  | impl i => rw [exports, exports, hignores, hmethods]
  | func f => rw [exports, exports, hignores]

end Plan

namespace Module

/-- A module whose wrappers, table and text are made from groups of wrappers, one after the other. -/
structure IsMadeFrom (m : Module) (groups : List (List Wrapper)) : Prop where
  wrappers : m.wrappers = groups.flatten
  registrations : m.registrations = (groups.map (List.map Wrapper.registration)).flatten
  code : m.code = "\n".intercalate (m.headerLines ++ m.tagLines ++ (groups.map (List.map Wrapper.text)).flatten
    ++ tableLines (groups.map (List.map Wrapper.registration)).flatten) ++ "\n"

theorem isMadeFrom {m : Module} {groups : List (List Wrapper)} (h : m.wrappers = groups.flatten) :
    m.IsMadeFrom groups where
  wrappers := h
  registrations := by rw [registrations, h, List.map_flatten]
  code := by rw [code_eq, registrations, h, List.map_flatten, List.map_flatten]

/-- The constants of the tags do not depend on the order of the wrappers. -/
theorem mem_keys_tags_perm {m m' : Module} (h : m'.wrappers.Perm m.wrappers) {const : String} :
    const ∈ m'.tags.keys ↔ const ∈ m.tags.keys := by
  rw [tags, tags, Tags.mem_keys_recordAll, Tags.mem_keys_recordAll]
  simp only [(h.flatMap_right Wrapper.structs).mem_iff]

end Module

namespace Settings
variable {s : Settings} {d : Document Value} {given : Option String} {m : Module}

def wrappersOf (s : Settings) (d : Document Value) (modulePrefix : String) (decl : Declaration Value) :
    Except TextError (List Wrapper) := do
  let plan ← s.plan d modulePrefix
  let exports ← (plan.exports decl).mapM id
  return exports.map (Export.wrapper (converter (s.moduleFor modulePrefix) modulePrefix))

theorem wrappersOf_eq {joined : String} {p : Plan} (hp : s.plan d joined = .ok p) {decl : Declaration Value}
    {es : List Export} (he : p.exports decl = es.map .ok) :
    s.wrappersOf d joined decl = .ok (es.map (Export.wrapper (converter (s.moduleFor joined) joined))) := by
  rw [wrappersOf, hp]
  show ((p.exports decl).mapM id >>= fun es => _) = _
  rw [Except.mapM_id_eq_ok.2 he]
  rfl

/-- The same names are left out and the same methods are known in any order of the declarations. -/
theorem exists_plan_perm {joined : String} {p : Plan} (hp : s.plan d joined = .ok p) {decls : List (Declaration Value)}
    (hperm : decls.Perm d.decls) : ∃ q, s.plan { d with decls } joined = .ok q ∧ q.exports = p.exports := by
  obtain ⟨index, hindex, hp⟩ := Except.exists_of_bind_eq_ok hp
  cases hp
  have hperm : Document.decls { d with decls } |>.Perm d.decls := hperm
  obtain ⟨index', hindex', hhas⟩ := MethodIndex.exists_ofDocument_perm hperm hindex
  refine ⟨⟨_, index'⟩, ?_, Plan.exports_congr rfl hhas⟩
  rw [plan, hindex']
  rfl

/-- The declarations of a document may come in any order: if its module is generated, then so is that of the document
    in the other order. Each declaration leads to the same wrappers in both, and so to the same registrations and
    texts; these make up the modules, group after group in the order of the declarations, between the same header and
    the table. Both use the same tags. -/
theorem generate_perm (h : s.generate d given = .ok m) {decls : List (Declaration Value)} (hperm : decls.Perm d.decls) :
    ∃ m' group, s.generate { d with decls } given = .ok m' ∧
      (∀ decl ∈ d.decls, s.wrappersOf d m.modulePrefix decl = .ok (group decl) ∧
        s.wrappersOf { d with decls } m.modulePrefix decl = .ok (group decl)) ∧
      m.IsMadeFrom (d.decls.map group) ∧ m'.IsMadeFrom (decls.map group) ∧ m'.headerLines = m.headerLines ∧
      ∀ const, const ∈ m'.tags.keys ↔ const ∈ m.tags.keys := by
  obtain ⟨p, es, hjoined, hp, he, hm⟩ := generate_eq_ok.1 h
  obtain ⟨q, hq, hexports⟩ := exists_plan_perm hp hperm
  obtain ⟨exportsOf, heach, rfl⟩ := Except.exists_groups he
  let group decl := (exportsOf decl).map (Export.wrapper (s.converterFor m))
  have hgroups : ∀ ds : List (Declaration Value),
      (ds.flatMap exportsOf).map (Export.wrapper (s.converterFor m)) = (ds.map group).flatten := by
    intro ds
    rw [List.map_flatMap, List.flatMap_def]
  let m' : Module := ⟨d.moduleName, m.modulePrefix, (decls.map group).flatten⟩
  have hoffers : decls.flatMap q.exports = (decls.flatMap exportsOf).map .ok := by
    rw [hexports, List.map_flatMap]
    simp only [List.flatMap_def]
    rw [List.map_congr_left fun decl hd => heach decl (hperm.mem_iff.1 hd)]
  have hgenerate : s.generate { d with decls } given = .ok m' :=
    generate_eq_ok.2 ⟨q, _, hjoined, hq, hoffers, congrArg (Module.mk d.moduleName m.modulePrefix) (hgroups decls).symm⟩
  have hwrappers : m.wrappers = (d.decls.map group).flatten := by
    rw [← hgroups]
    exact congrArg Module.wrappers hm
  have hname : m.moduleName = d.moduleName := congrArg Module.moduleName hm
  refine ⟨m', group, hgenerate, fun decl hd => ⟨wrappersOf_eq hp (heach decl hd), ?_⟩, Module.isMadeFrom hwrappers,
    Module.isMadeFrom rfl, ?_, fun const => Module.mem_keys_tags_perm ?_⟩
  · exact wrappersOf_eq hq (hexports ▸ heach decl hd)
  · rw [Module.headerLines, Module.headerLines, hname]
  · rw [hwrappers]
    exact (hperm.map group).flatten

def levelMethod : Function String := { name := "get_level", result := some "f64", receiver := .byRef }

def gaugeStruct : Struct String := { name := "Gauge", fields := [⟨"level", "f64", .boolean true⟩] }

def gaugeDocument : Document String where
  decls := [.impl ⟨"Gauge", [levelMethod]⟩, .struct gaugeStruct]

theorem baseName_gauge : Spelling.baseName "Gauge" = "Gauge" :=
  (Spelling.baseName_plain (by decide)).trans (by decide)

def gaugePlan : Plan := ⟨[], ⟨[("Gauge", .text "get_level")]⟩⟩

theorem plan_gauge : ({} : Settings).plan (gaugeDocument.map Value.text) "" = .ok gaugePlan := by
  have hindexed : ({} : Settings).plan (gaugeDocument.map Value.text) "" =
      .ok ⟨[], ⟨[(Spelling.baseName "Gauge", .text "get_level")]⟩⟩ := rfl
  rw [hindexed, baseName_gauge]
  rfl

theorem exports_gauge_impl : gaugePlan.exports (.impl ⟨.text "Gauge", [levelMethod.map Value.text]⟩) =
    [Export.method "Gauge" levelMethod].map .ok := by
  show gaugePlan.methods (Spelling.baseName "Gauge") _ = _
  rw [baseName_gauge]
  rfl

theorem exports_gauge_struct : gaugePlan.exports (.struct (gaugeStruct.map Value.text)) =
    [Export.destructor "Gauge", .constructor "Gauge", .setter "Gauge" "level" "f64"].map .ok := by
  have hhas : ∀ k, gaugePlan.index.has "Gauge" k = [("Gauge", Key.text "get_level")].contains ("Gauge", k) := by
    intro k
    rw [MethodIndex.has, baseName_gauge]
    rfl
  have hfields : (gaugeStruct.map Value.text).publicFields.flatMap (gaugePlan.accessors "Gauge") =
      [.ok (.setter "Gauge" "level" "f64")] := by
    show gaugePlan.getter "Gauge" (.text "level") _ ++ gaugePlan.setter "Gauge" _ ++ [] = _
    simp only [Plan.getter, Plan.setter, MethodIndex.hasText, hhas]
    rfl
  show gaugePlan.structExports (Spelling.baseName "Gauge") _ = _
  rw [baseName_gauge, Plan.structExports, MethodIndex.hasNew, MethodIndex.hasText, hhas, hfields]
  rfl

/-- Where the impl comes after the struct, the struct still has no getter. -/
theorem generate_perm_gauge : ∃ m m' methods accessors,
    generate {} (gaugeDocument.map Value.text) none = .ok m ∧
    generate {} { gaugeDocument.map Value.text with decls := (gaugeDocument.map Value.text).decls.reverse } none = .ok m' ∧
    m.wrappers = methods ++ accessors ∧ m'.wrappers = accessors ++ methods ∧
    methods.map (fun w => w.registration.name) = ["gauge_get_level"] ∧
    accessors.map (fun w => w.registration.name) = ["gauge_delete", "gauge_new", "gauge_set_level"] ∧
    ∀ const, const ∈ m'.tags.keys ↔ const ∈ m.tags.keys := by
  obtain ⟨m, hm, hjoined⟩ := @exists_generate {} gaugeDocument none "" rfl
  obtain ⟨m', group, hm', hgroup, hmade, hmade', -, htags⟩ := generate_perm hm (List.reverse_perm _)
  obtain ⟨hmethods, -⟩ := hgroup _ (.head _)
  obtain ⟨haccessors, -⟩ := hgroup _ (.tail _ (.head _))
  rw [hjoined] at hmethods haccessors
  have hmethods := Except.ok.inj (hmethods.symm.trans (wrappersOf_eq plan_gauge exports_gauge_impl))
  have haccessors := Except.ok.inj (haccessors.symm.trans (wrappersOf_eq plan_gauge exports_gauge_struct))
  have hname : ∀ op, Export.structName "" "Gauge" op = "gauge_" ++ op := by
    intro op
    rw [Export.structName, baseName_gauge]
    rfl
  refine ⟨m, m', _, _, hm, hm', hmade.wrappers.trans (congrArg _ (List.append_nil _)),
    hmade'.wrappers.trans (congrArg _ (List.append_nil _)), ?_, ?_, htags⟩
  · rw [hmethods]
    rfl
  · rw [haccessors]
    show [Export.structName "" "Gauge" "delete", Export.structName "" "Gauge" "new",
      Export.structName "" "Gauge" ("set_" ++ "level")] = _
    rw [hname, hname, hname]
    rfl

end Settings
end RingBridge
