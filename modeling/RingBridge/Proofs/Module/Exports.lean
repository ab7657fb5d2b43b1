import RingBridge.Module
/-!
Where exports come from: a generated module holds one wrapper for each export of its document, and an export takes its
names and types from one declaration. What is exported for a struct is exported under the base name of a declaration.
-/
namespace RingBridge

def Declaration.owner? {ν : Type} : Declaration ν → Option ν
  | struct s => some s.name
  | impl i => some i.name
  | func _ => none

def Export.owner? : Export → Option String
  | destructor s | constructor s | getter s _ _ | setter s _ _ | method s _ => some s
  | function _ => none

def Declaration.functions {ν : Type} : Declaration ν → List (Function ν)
  | struct _ => []
  | impl i => i.methods
  | func f => [f]

def Export.params : Export → List (Param String)
  | method _ f | function f => f.params
  | _ => []

/-- An export of a declaration: it stands under the base name of the declaration, and has the parameters of one of
    its functions, if it has any. -/
structure Export.ComesFrom (e : Export) (decl : Declaration Value) : Prop where
  owner : ∀ struct, e.owner? = some struct → ∃ n, decl.owner? = some (.text n) ∧ struct = Spelling.baseName n
  params : e.params = [] ∨ ∃ f ∈ decl.functions, ∃ g, Document.functionText f = .ok g ∧ e.params = g.params

theorem Except.exists_of_bind_eq_ok {ε α β : Type} {x : Except ε α} {f : α → Except ε β} {b : β}
    (h : (x >>= f) = .ok b) : ∃ a, x = .ok a ∧ f a = .ok b := by
  cases x with
  | error e => cases h
  | ok a => exact ⟨a, rfl, h⟩

theorem Except.bind_eq_error_iff {ε α β : Type} {x : Except ε α} {f : α → Except ε β} {e : ε} :
    (x >>= f) = .error e ↔ x = .error e ∨ ∃ a, x = .ok a ∧ f a = .error e := by
  cases x with
  | error e' => exact ⟨fun h => .inl (Except.error.inj h ▸ rfl), fun h => h.elim (fun h => Except.error.inj h ▸ rfl) nofun⟩
  | ok a =>
    refine ⟨fun h => .inr ⟨a, rfl, h⟩, ?_⟩
    rintro (h | ⟨a', ha, h⟩)
    · cases h
    · cases ha
      exact h

theorem Except.exists_of_map_eq_ok {ε α β : Type} {x : Except ε α} {f : α → β} {b : β} (h : x.map f = .ok b) :
    ∃ a, x = .ok a ∧ f a = b := by
  cases x with
  | error e => cases h
  | ok a => exact ⟨a, rfl, Except.ok.inj h⟩

/-- All are values, and these in order. -/
theorem Except.mapM_id_eq_ok {ε α : Type} {xs : List (Except ε α)} {as : List α} :
    xs.mapM id = .ok as ↔ xs = as.map .ok := by
  induction xs generalizing as with
  | nil =>
    rw [List.mapM_nil, eq_comm (a := []), List.map_eq_nil_iff]
    exact ⟨fun h => (Except.ok.inj h).symm, fun h => congrArg Except.ok h.symm⟩
  | cons x xs ih =>
    rw [List.mapM_cons]
    constructor
    · intro h
      obtain ⟨b, hb, h⟩ := exists_of_bind_eq_ok h
      obtain ⟨bs, hbs, h⟩ := exists_of_bind_eq_ok h
      cases h
      rw [List.map_cons, ← ih.1 hbs]
      exact congrArg (· :: xs) hb
    · intro h
      obtain ⟨b, bs, rfl, hb, hbs⟩ := List.map_eq_cons_iff.1 h.symm
      rw [ih.2 hbs.symm, ← hb]
      rfl

theorem Except.ok_mem_of_mapM_id {ε α : Type} {xs : List (Except ε α)} {as : List α} (h : xs.mapM id = .ok as) {a : α}
    (ha : a ∈ as) : .ok a ∈ xs :=
  mapM_id_eq_ok.1 h ▸ List.mem_map_of_mem ha

theorem Except.exists_map_ok {ε α : Type} {xs : List (Except ε α)} (h : ∀ x ∈ xs, ∃ a, x = .ok a) :
    ∃ as : List α, xs = as.map .ok := by
  induction xs with
  | nil => exact ⟨[], rfl⟩
  | cons x xs ih =>
    obtain ⟨⟨a, rfl⟩, hrest⟩ := List.forall_mem_cons.1 h
    obtain ⟨as, rfl⟩ := ih hrest
    exact ⟨a :: as, rfl⟩

/-- Where all that the parts give are values, each part gives values of its own. -/
theorem Except.exists_groups {ε α β : Type} {f : β → List (Except ε α)} {xs : List β} {as : List α}
    (h : xs.flatMap f = as.map .ok) :
    ∃ group : β → List α, (∀ x ∈ xs, f x = (group x).map .ok) ∧ as = xs.flatMap group := by
  have hback : ∀ bs : List α, (bs.map Except.ok : List (Except ε α)).filterMap Except.toOption = bs := by
    intro bs
    rw [List.filterMap_map]
    exact List.filterMap_some
  refine ⟨fun x => (f x).filterMap Except.toOption, fun x hx => ?_, ?_⟩
  · obtain ⟨bs, hbs⟩ := Except.exists_map_ok fun o ho => by
      have hmem : o ∈ as.map Except.ok := h ▸ List.mem_flatMap.2 ⟨x, hx, ho⟩
      obtain ⟨a, _, ha⟩ := List.mem_map.1 hmem
      exact ⟨a, ha.symm⟩
    show f x = ((f x).filterMap Except.toOption).map Except.ok
    rw [hbs, hback]
  · rw [← List.filterMap_flatMap, h, hback]

namespace Document

theorem text_of_typeText {v : Value} {s : String} (h : typeText v = .ok s) : v = .text s := by
  unfold typeText at h
  split at h <;> cases h
  rfl

theorem text_of_nameText {v : Value} {s : String} (h : nameText v = .ok s) : v = .text s := by
  unfold nameText at h
  split at h <;> cases h
  rfl

theorem key_of_nameKey {v : Value} {k : Key} (h : nameKey v = .ok k) : v.key? = some k := by
  unfold nameKey at h
  split at h <;> cases h
  assumption

theorem text_of_paramText {v : Value} {s : String} (h : paramText v = .ok s) : v = .text s := by
  unfold paramText at h
  split at h
  · cases h
    rfl
  · obtain ⟨k, _, h⟩ := Except.exists_of_bind_eq_ok h
    cases h

theorem names_of_paramNames {ps : List (Param Value)} {names : List String} (h : paramNames ps = .ok names) :
    ps.map Param.name = names.map .text := by
  induction ps generalizing names with
  | nil =>
    cases h
    rfl
  | cons p ps ih =>
    rw [paramNames, List.mapM_cons] at h
    obtain ⟨n, hn, h⟩ := Except.exists_of_bind_eq_ok h
    obtain ⟨ns, hns, h⟩ := Except.exists_of_bind_eq_ok h
    cases h
    rw [List.map_cons, List.map_cons, text_of_paramText hn, ih hns]

theorem types_of_paramTypes {ps : List (Param Value)} {types : List String} (h : paramTypes ps = .ok types) :
    ps.map Param.type = types.map .text := by
  induction ps generalizing types with
  | nil =>
    cases h
    rfl
  | cons p ps ih =>
    rw [paramTypes, List.mapM_cons] at h
    obtain ⟨t, ht, h⟩ := Except.exists_of_bind_eq_ok h
    obtain ⟨ts, hts, h⟩ := Except.exists_of_bind_eq_ok h
    cases h
    rw [List.map_cons, List.map_cons, text_of_typeText ht, ih hts]

theorem params_of_text {ps : List (Param Value)} {names types : List String}
    (hnames : ps.map Param.name = names.map .text) (htypes : ps.map Param.type = types.map .text) :
    ps = (List.zipWith Param.mk names types).map (Param.map .text) := by
  induction ps generalizing names types with
  | nil =>
    rw [List.map_nil, eq_comm, List.map_eq_nil_iff] at hnames
    rw [hnames]
    rfl
  | cons p ps ih =>
    obtain ⟨x, xs, rfl, hx, hxs⟩ := List.map_eq_cons_iff.1 hnames.symm
    obtain ⟨t, ts, rfl, ht, hts⟩ := List.map_eq_cons_iff.1 htypes.symm
    rw [List.zipWith_cons_cons, List.map_cons, ← ih hxs.symm hts.symm, Param.map, hx, ht]

/-- A function is read as text if all its names and types are texts. -/
theorem eq_map_of_functionText {f : Function Value} {g : Function String} (h : functionText f = .ok g) :
    f = g.map .text := by
  obtain ⟨name, hname, h⟩ := Except.exists_of_bind_eq_ok h
  obtain ⟨types, htypes, h⟩ := Except.exists_of_bind_eq_ok h
  obtain ⟨result, hresult, h⟩ := Except.exists_of_bind_eq_ok h
  obtain ⟨names, hnames, h⟩ := Except.exists_of_bind_eq_ok h
  cases h
  have hparams := params_of_text (names_of_paramNames hnames) (types_of_paramTypes htypes)
  have hres : f.result = result.map .text := by
    cases hr : f.result with
    | none =>
      rw [hr] at hresult
      cases hresult
      rfl
    | some v =>
      rw [hr] at hresult
      obtain ⟨t, ht, hresult⟩ := Except.exists_of_bind_eq_ok hresult
      cases hresult
      exact congrArg some (text_of_typeText ht)
  cases f
  simp only [Function.map, Function.mk.injEq, and_true] at hparams hres ⊢
  exact ⟨text_of_nameText hname, hparams, hres⟩

theorem functionText_map (g : Function String) : functionText (g.map .text) = .ok g := by
  have htypes : ∀ ps : List (Param String), paramTypes (ps.map (Param.map .text)) = .ok (ps.map Param.type) := by
    intro ps
    induction ps with
    | nil => rfl
    | cons p ps ih => rw [paramTypes, List.map_cons, List.mapM_cons, ← paramTypes, ih]; rfl
  have hnames : ∀ ps : List (Param String), paramNames (ps.map (Param.map .text)) = .ok (ps.map Param.name) := by
    intro ps
    induction ps with
    | nil => rfl
    | cons p ps ih => rw [paramNames, List.map_cons, List.mapM_cons, ← paramNames, ih]; rfl
  have hparams : ∀ ps : List (Param String), List.zipWith Param.mk (ps.map Param.name) (ps.map Param.type) = ps := by
    intro ps
    induction ps with
    | nil => rfl
    | cons p ps ih => rw [List.map_cons, List.map_cons, List.zipWith_cons_cons, ih]
  have hresult : (g.result.map Value.text).mapM typeText = .ok g.result := by
    cases g.result <;> rfl
  have hname : nameText (.text g.name) = .ok g.name := rfl
  simp only [functionText, Function.map, hname, htypes, hresult, hnames, hparams, bind, Except.bind, pure, Except.pure]

/-- The parameters of a function in text have the names that they have in the document. -/
theorem params_functionText {f : Function Value} {g : Function String} (h : functionText f = .ok g) :
    ∃ names types, f.params.map Param.name = names.map .text ∧ g.params = List.zipWith Param.mk names types := by
  obtain ⟨name, _, h⟩ := Except.exists_of_bind_eq_ok h
  obtain ⟨types, _, h⟩ := Except.exists_of_bind_eq_ok h
  obtain ⟨result, _, h⟩ := Except.exists_of_bind_eq_ok h
  obtain ⟨names, hnames, h⟩ := Except.exists_of_bind_eq_ok h
  cases h
  exact ⟨names, types, names_of_paramNames hnames, rfl⟩

end Document

/-- An export with all that it takes from the declaration it is made for. -/
inductive Declaration.Offers : Declaration Value → Export → Prop
  | destructor {t : Struct Value} {n : String} (hn : t.name = .text n) :
    Offers (.struct t) (.destructor (Spelling.baseName n))
  | constructor {t : Struct Value} {n : String} (hn : t.name = .text n) :
    Offers (.struct t) (.constructor (Spelling.baseName n))
  | getter {t : Struct Value} {n type : String} {f : Field Value} (hn : t.name = .text n) (hf : f ∈ t.fields)
    (ht : f.type = .text type) : Offers (.struct t) (.getter (Spelling.baseName n) f.name.plain type)
  | setter {t : Struct Value} {n type : String} {f : Field Value} (hn : t.name = .text n) (hf : f ∈ t.fields)
    (ht : f.type = .text type) : Offers (.struct t) (.setter (Spelling.baseName n) f.name.plain type)
  | method {i : Impl Value} {n : String} {g : Function String} (hn : i.name = .text n)
    (hg : g.map .text ∈ i.methods) : Offers (.impl i) (.method (Spelling.baseName n) g)
  | function {g : Function String} : Offers (.func (g.map .text)) (.function g)

namespace Plan
variable {p : Plan} {e : Export}

theorem exists_of_named {name : Value} {offers : String → List Offer} (h : .ok e ∈ named name offers) :
    ∃ n, name = .text n ∧ .ok e ∈ offers n := by
  cases name with
  | text n => exact ⟨n, rfl, h⟩
  | _ => cases List.mem_singleton.1 h

theorem named_eq_map {name : Value} {offers : String → List Offer} {es : List Export}
    (h : named name offers = es.map .ok) : ∃ n, name = .text n ∧ offers n = es.map .ok := by
  cases name with
  | text n => exact ⟨n, rfl, h⟩
  | _ =>
    obtain ⟨_, _, _, he, _⟩ := List.map_eq_cons_iff.1 h.symm
    cases he

/-- An accessor of a field. -/
theorem cases_accessors {struct : String} {f : Field Value} (h : .ok e ∈ p.accessors struct f) :
    ∃ type, f.type = .text type ∧ (e = .getter struct f.name.plain type ∨ e = .setter struct f.name.plain type) := by
  unfold accessors at h
  split at h
  · obtain h | h := List.mem_append.1 h
    · unfold getter at h
      split at h
      · cases h
      · obtain ⟨type, htype, rfl⟩ := Except.exists_of_map_eq_ok (List.mem_singleton.1 h).symm
        exact ⟨type, Document.text_of_typeText htype, .inl rfl⟩
    · unfold setter at h
      split at h
      · cases h
      · have h : .ok e = setterOf struct f := List.mem_singleton.1 h
        obtain ⟨type, htype, h⟩ := Except.exists_of_bind_eq_ok h.symm
        obtain ⟨x, hx, h⟩ := Except.exists_of_bind_eq_ok h
        cases h
        refine ⟨type, Document.text_of_typeText htype, .inr ?_⟩
        rw [Document.text_of_paramText hx]
        rfl
  · cases List.mem_singleton.1 h

/-- A struct has its destructor first, and after it a constructor and accessors of its fields. -/
theorem exists_structExports (p : Plan) (struct : String) (t : Struct Value) : ∃ rest,
    p.structExports struct t = .ok (.destructor struct) :: rest ∧ ∀ e, .ok e ∈ rest → e = .constructor struct ∨
      ∃ f ∈ t.fields, ∃ type, f.type = .text type ∧
        (e = .getter struct f.name.plain type ∨ e = .setter struct f.name.plain type) := by
  refine ⟨_, rfl, fun e h => ?_⟩
  split at h
  · obtain h | h := List.mem_append.1 h
    · split at h
      · cases h
      · cases List.mem_singleton.1 h
        exact .inl rfl
    · obtain ⟨f, hf, h⟩ := List.mem_flatMap.1 h
      exact .inr ⟨f, (List.mem_filter.1 hf).1, cases_accessors h⟩
  · cases h

theorem offers_of_mem {decl : Declaration Value} (h : .ok e ∈ p.exports decl) : decl.Offers e := by
  cases decl with
  | struct t =>
    obtain ⟨n, hn, h⟩ := exists_of_named h
    split at h
    · cases h
    · obtain ⟨rest, hrest, hcases⟩ := p.exists_structExports (Spelling.baseName n) t
      rw [hrest] at h
      obtain h | h := List.mem_cons.1 h
      · cases h
        exact .destructor hn
      · obtain rfl | ⟨f, hf, type, htype, rfl | rfl⟩ := hcases e h
        · exact .constructor hn
        · exact .getter hn hf htype
        · exact .setter hn hf htype
  | impl i =>
    obtain ⟨n, hn, h⟩ := exists_of_named h
    split at h
    · cases h
    · obtain ⟨f, hf, h⟩ := List.mem_map.1 h
      obtain ⟨g, hg, rfl⟩ := Except.exists_of_map_eq_ok h
      exact .method hn (Document.eq_map_of_functionText hg ▸ (List.mem_filter.1 hf).1)
  | func f =>
    simp only [exports] at h
    split at h
    · obtain ⟨n, _, h⟩ := exists_of_named h
      split at h
      · cases h
      · obtain ⟨g, hg, rfl⟩ := Except.exists_of_map_eq_ok (List.mem_singleton.1 h).symm
        rw [Document.eq_map_of_functionText hg]
        exact .function
    · cases h

end Plan

theorem Declaration.Offers.comesFrom {decl : Declaration Value} {e : Export} (h : decl.Offers e) : e.ComesFrom decl := by
  cases h with
  | destructor hn | constructor hn | getter hn | setter hn =>
    exact ⟨fun r hr => ⟨_, congrArg some hn, (Option.some.inj hr).symm⟩, .inl rfl⟩
  | @method i n g hn hg =>
    exact ⟨fun r hr => ⟨n, congrArg some hn, (Option.some.inj hr).symm⟩, .inr ⟨_, hg, g, Document.functionText_map g, rfl⟩⟩
  | @function g => exact ⟨nofun, .inr ⟨_, List.mem_singleton_self _, g, Document.functionText_map g, rfl⟩⟩

namespace Settings
variable {s : Settings} {d : Document Value} {given : Option String} {m : Module}

def converterFor (s : Settings) (m : Module) : Converter := converter (s.moduleFor m.modulePrefix) m.modulePrefix

theorem modulePrefix_converter (ms : ModuleSettings) (modulePrefix : String) :
    (converter ms modulePrefix).modulePrefix = modulePrefix := by
  unfold converter
  suffices h : ∀ (es : List (String × Handler)) (c : Converter),
      (es.foldl (fun c e => c.register e.1 e.2) c).modulePrefix = c.modulePrefix from h _ _
  intro es
  induction es with
  | nil => exact fun c => rfl
  | cons e es ih => exact fun c => ih (c.register e.1 e.2)

/-- A module is generated if its prefix is text, its methods are indexed, and each declaration offers exports only. -/
theorem generate_eq_ok : s.generate d given = .ok m ↔ ∃ (p : Plan) (es : List Export),
    d.joinedPrefix given = .ok m.modulePrefix ∧ s.plan d m.modulePrefix = .ok p ∧
    d.decls.flatMap p.exports = es.map .ok ∧
    m = ⟨d.moduleName, m.modulePrefix, es.map (Export.wrapper (s.converterFor m))⟩ := by
  constructor
  · intro h
    obtain ⟨joined, hjoined, h⟩ := Except.exists_of_bind_eq_ok h
    obtain ⟨es, he, h⟩ := Except.exists_of_bind_eq_ok h
    obtain ⟨p, hp, he⟩ := Except.exists_of_bind_eq_ok he
    cases h
    exact ⟨p, es, hjoined, hp, Except.mapM_id_eq_ok.1 he, rfl⟩
  · rintro ⟨p, es, hjoined, hp, he, hm⟩
    have hexports : s.exports d m.modulePrefix = .ok es := by
      rw [exports, hp]
      exact Except.mapM_id_eq_ok.2 he
    rw [generate, hjoined]
    show (s.exports d m.modulePrefix >>= fun es => _) = _
    rw [hexports]
    exact congrArg Except.ok hm.symm

/-- A generated module holds the wrappers of the exports of its document. -/
theorem exports_of_generate (h : s.generate d given = .ok m) :
    ∃ es, s.exports d m.modulePrefix = .ok es ∧ m.wrappers = es.map (Export.wrapper (s.converterFor m)) := by
  obtain ⟨p, es, _, hp, he, hm⟩ := generate_eq_ok.1 h
  refine ⟨es, ?_, congrArg Module.wrappers hm⟩
  rw [exports, hp]
  exact Except.mapM_id_eq_ok.2 he

/-- Every export comes from a declaration of the document. -/
theorem comesFrom_of_exports {joined : String} {es : List Export} (h : s.exports d joined = .ok es) {e : Export}
    (he : e ∈ es) : ∃ decl ∈ d.decls, e.ComesFrom decl := by
  obtain ⟨p, _, h⟩ := Except.exists_of_bind_eq_ok h
  obtain ⟨decl, hd, hm⟩ := List.mem_flatMap.1 (Except.ok_mem_of_mapM_id h he)
  exact ⟨decl, hd, (Plan.offers_of_mem hm).comesFrom⟩

end Settings
end RingBridge
