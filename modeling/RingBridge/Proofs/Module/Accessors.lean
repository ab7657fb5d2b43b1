import RingBridge.Proofs.Module.Operations
/-!
Which accessors and constructors there are. They give way to methods alone: to a method of any impl of the struct, be it
public or private, before or after the struct, and whatever path and arguments the impl spells the struct with. This is
said of the document itself, and the index of methods, made in a pass of its own, is shown to agree.
-/
namespace RingBridge

namespace Document
variable {d : Document Value} {struct : String}

def Claims (d : Document Value) (struct : String) (name : Value) : Prop :=
  ∃ i ∈ d.impls, Spelling.baseName i.name.plain = struct ∧ ∃ f ∈ i.methods, f.name.key? = name.key?

instance {name : Value} : Decidable (d.Claims struct name) :=
  inferInstanceAs (Decidable (∃ i ∈ d.impls, Spelling.baseName i.name.plain = struct ∧
    ∃ f ∈ i.methods, f.name.key? = name.key?))

def unclaimed (d : Document Value) (struct : String) (names : List Value) (e : Export) : List Export :=
  if ∃ name ∈ names, d.Claims struct name then [] else [e]

end Document

/-- A getter is claimed by a method that is called as the field is, with `get_` before or without, and a setter by one
    with `set_` before. -/
def Field.accessors (d : Document Value) (struct : String) (f : Field Value) : List Export :=
  d.unclaimed struct [f.name, .text ("get_" ++ f.name.plain)] (.getter struct f.name.plain f.type.plain)
    ++ d.unclaimed struct [.text ("set_" ++ f.name.plain)] (.setter struct f.name.plain f.type.plain)

/-- The operations of a struct that are no methods. A private struct has its destructor only. -/
def Struct.operations (d : Document Value) (t : Struct Value) : List Export :=
  let struct := Spelling.baseName t.name.plain
  .destructor struct ::
    if t.isPublic.isTrue then
      d.unclaimed struct [.text "new"] (.constructor struct) ++ t.publicFields.flatMap (Field.accessors d struct)
    else []

def Declaration.operations (d : Document Value) : Declaration Value → List Export
  | struct t => t.operations d
  | impl i => (i.methods.filter fun f => f.isPublic.isTrue).map fun f =>
    .method (Spelling.baseName i.name.plain) (f.map Value.plain)
  | func f => if f.isPublic.isTrue then [.function (f.map Value.plain)] else []

theorem Function.map_plain_text (g : Function String) : (g.map Value.text).map Value.plain = g := by
  simp [Function.map, Param.map, Function.comp_def, Value.plain]

/-- Functions that are exported as texts are their own texts. -/
theorem Export.eq_map_of_functionText {fs : List (Function Value)} {offer : Function String → Export} {es : List Export}
    (h : fs.map (fun f => (Document.functionText f).map offer) = es.map .ok) :
    es = fs.map fun f => offer (f.map Value.plain) := by
  induction fs generalizing es with
  | nil => exact List.map_eq_nil_iff.1 h.symm
  | cons f fs ih =>
    obtain ⟨e, es, rfl, he, hes⟩ := List.map_eq_cons_iff.1 h.symm
    obtain ⟨g, hg, rfl⟩ := Except.exists_of_map_eq_ok he.symm
    rw [List.map_cons, ← ih hes.symm, Document.eq_map_of_functionText hg, Function.map_plain_text]

namespace Plan
variable {p : Plan} {d : Document Value} {struct : String} {es : List Export}

/-- One export that is offered unless a method claims it. -/
theorem eq_unclaimed {found : Bool} {o : Offer} {e : Export} {names : List Value}
    (h : (if found then [] else [o]) = es.map .ok) (hfound : found = true ↔ ∃ name ∈ names, d.Claims struct name)
    (ho : ∀ e', o = .ok e' → e' = e) : es = d.unclaimed struct names e := by
  rw [Document.unclaimed]
  cases found with
  | true => rw [if_pos (hfound.1 rfl), List.map_eq_nil_iff.1 h.symm]
  | false =>
    obtain ⟨e', rfl, he⟩ := List.map_eq_singleton_iff.1 h.symm
    rw [if_neg fun hclaims => Bool.false_ne_true (hfound.2 hclaims), ho e' he.symm]

variable (hindex : MethodIndex.ofDocument d = .ok p.index)
include hindex

/-- The index has the names that methods claim. -/
theorem has_iff_claims {k : Key} {name : Value} (hk : name.key? = some k) :
    p.index.has struct k = true ↔ d.Claims (Spelling.baseName struct) name := by
  rw [MethodIndex.has_ofDocument hindex]
  constructor
  · rintro ⟨i, hi, n, hn, hbase, f, hf, hname⟩
    refine ⟨i, Document.mem_impls.2 hi, ?_, f, hf, hname.trans hk.symm⟩
    rw [hn]
    exact hbase
  · rintro ⟨i, hi, hbase, f, hf, hname⟩
    -- A method is indexed, so the name of its impl is text.
    obtain ⟨x, hx⟩ := MethodIndex.exists_ofDocument_iff.1 ⟨_, hindex⟩ _
      (Document.mem_methodNames.2 ⟨i, hi, f, hf, rfl⟩)
    obtain ⟨n, hn, -, -⟩ := MethodIndex.pair?_eq_some.1 hx
    have hn : i.name = .text n := hn
    rw [hn] at hbase
    exact ⟨i, Document.mem_impls.1 hi, n, hn, hbase, f, hf, hname.trans hk⟩

theorem hasText_iff_claims {name : String} :
    p.index.hasText struct name = true ↔ d.Claims (Spelling.baseName struct) (.text name) :=
  has_iff_claims hindex rfl

theorem eq_accessors {f : Field Value} (h : p.accessors (Spelling.baseName struct) f = es.map .ok) :
    es = f.accessors d (Spelling.baseName struct) := by
  unfold accessors at h
  split at h
  · next key hkey =>
    have hkey := Document.key_of_nameKey hkey
    obtain ⟨gets, sets, rfl, hgets, hsets⟩ := List.map_eq_append_iff.1 h.symm
    have hgetter : gets = d.unclaimed (Spelling.baseName struct) [f.name, .text ("get_" ++ f.name.plain)]
        (.getter (Spelling.baseName struct) f.name.plain f.type.plain) := by
      refine eq_unclaimed hgets.symm ?_ fun e he => ?_
      · rw [Bool.or_eq_true, has_iff_claims hindex hkey, hasText_iff_claims hindex, Spelling.baseName_baseName]
        simp
      · obtain ⟨type, htype, rfl⟩ := Except.exists_of_map_eq_ok he
        rw [Document.text_of_typeText htype]
        rfl
    have hsetter : sets = d.unclaimed (Spelling.baseName struct) [.text ("set_" ++ f.name.plain)]
        (.setter (Spelling.baseName struct) f.name.plain f.type.plain) := by
      refine eq_unclaimed hsets.symm ?_ fun e he => ?_
      · rw [hasText_iff_claims hindex, Spelling.baseName_baseName]
        simp
      · obtain ⟨type, htype, he⟩ := Except.exists_of_bind_eq_ok he
        obtain ⟨x, hx, he⟩ := Except.exists_of_bind_eq_ok he
        cases he
        rw [Document.text_of_typeText htype, Document.text_of_paramText hx]
        rfl
    rw [hgetter, hsetter, Field.accessors]
  · obtain ⟨e, _, he⟩ := List.map_eq_singleton_iff.1 h.symm
    cases he

theorem eq_structOperations {t : Struct Value} {n : String} (hn : t.name = .text n)
    (h : p.structExports (Spelling.baseName n) t = es.map .ok) : es = t.operations d := by
  have hplain : t.name.plain = n := by
    rw [hn]
    rfl
  obtain ⟨e, rest, rfl, he, hrest⟩ := List.map_eq_cons_iff.1 h.symm
  cases he
  rw [Struct.operations, hplain]
  refine congrArg _ ?_
  split at hrest
  · next hpublic =>
    obtain ⟨news, accessors, rfl, hnews, haccessors⟩ := List.map_eq_append_iff.1 hrest
    obtain ⟨group, heach, rfl⟩ := Except.exists_groups haccessors.symm
    have hconstructor : news = d.unclaimed (Spelling.baseName n) [.text "new"] (.constructor (Spelling.baseName n)) := by
      refine eq_unclaimed hnews.symm ?_ fun e he => (Except.ok.inj he).symm
      rw [MethodIndex.hasNew, hasText_iff_claims hindex, Spelling.baseName_baseName]
      simp
    have hfields : t.publicFields.flatMap group = t.publicFields.flatMap (Field.accessors d (Spelling.baseName n)) := by
      rw [List.flatMap_def, List.flatMap_def]
      exact congrArg _ (List.map_congr_left fun f hf => eq_accessors hindex (heach f hf))
    rw [if_pos hpublic, hconstructor, hfields]
  · next hprivate => rw [if_neg hprivate, List.map_eq_nil_iff.1 hrest]

/-- Where no names are left out, the exports of a declaration are its operations in the document. -/
theorem eq_operations (hignored : p.ignored = []) {decl : Declaration Value} (h : p.exports decl = es.map .ok) :
    es = decl.operations d := by
  have hignores : ∀ name, p.ignores name = false := by simp [ignores, hignored]
  cases decl with
  | struct t =>
    obtain ⟨n, hn, h⟩ := named_eq_map h
    rw [hignores, if_neg Bool.false_ne_true] at h
    exact eq_structOperations hindex hn h
  | impl i =>
    obtain ⟨n, hn, h⟩ := named_eq_map h
    rw [hignores, if_neg Bool.false_ne_true, methods] at h
    have hselects : p.selectsMethod (Spelling.baseName n) = fun f => f.isPublic.isTrue := by
      funext f
      rw [selectsMethod, hignores, Bool.not_false, Bool.and_true]
    have hplain : i.name.plain = n := by
      rw [hn]
      rfl
    rw [hselects] at h
    rw [Declaration.operations, hplain]
    exact Export.eq_map_of_functionText h
  | func f =>
    rw [Declaration.operations]
    rw [exports] at h
    split at h
    · next hpublic =>
      obtain ⟨n, hn, h⟩ := named_eq_map h
      rw [hignores, if_neg Bool.false_ne_true] at h
      rw [if_pos hpublic]
      have hone : [f].map (fun f => (Document.functionText f).map .function) = es.map .ok := h
      exact Export.eq_map_of_functionText hone
    · next hprivate => rw [if_neg hprivate, List.map_eq_nil_iff.1 h.symm]

end Plan

namespace Settings
variable {s : Settings} {d : Document Value} {given : Option String}

/-- Where no names are left out, every declaration is registered with its operations, in order. A struct that is private
    has its destructor only; any other has its destructor, a default constructor unless a method called `new` claims it,
    and for each public field, in order, the getter and the setter that no method claims. -/
theorem generate_operations {joined : String} (hjoined : d.joinedPrefix given = .ok joined) (hall : s.ignored = [])
    (hmodule : (s.moduleFor joined).ignored = []) :
    (∀ e : Document String, d = e.map .text → ∃ m, s.generate d given = .ok m) ∧
    ∀ m, s.generate d given = .ok m →
      m.registrations = (d.decls.flatMap (Declaration.operations d)).map
        (fun e => (e.wrapper (s.converterFor m)).registration) ∧
      m.exportedNames = (d.decls.flatMap (Declaration.operations d)).map (Export.name joined) := by
  refine ⟨fun e he => ?_, fun m h => ?_⟩
  · subst he
    obtain ⟨m, hm, -⟩ := s.exists_generate e hjoined
    exact ⟨m, hm⟩
  have hprefix : m.modulePrefix = joined := by
    obtain ⟨_, _, hgiven, -⟩ := generate_eq_ok.1 h
    exact Except.ok.inj (hgiven.symm.trans hjoined)
  obtain ⟨p, group, hignored, hindex, heach, hwrappers⟩ := exists_group_of_generate h
  have hnone : p.ignored = [] := by
    rw [hignored, leftOut, hall, hprefix, hmodule]
    rfl
  have hoperations : d.decls.flatMap group = d.decls.flatMap (Declaration.operations d) := by
    rw [List.flatMap_def, List.flatMap_def]
    exact congrArg _ (List.map_congr_left fun decl hd => Plan.eq_operations hindex hnone (heach decl hd))
  have hregistrations : m.registrations = (d.decls.flatMap (Declaration.operations d)).map
      fun e => (e.wrapper (s.converterFor m)).registration := by
    rw [Module.registrations, hwrappers, hoperations, List.map_map]
    rfl
  refine ⟨hregistrations, ?_⟩
  rw [Module.exportedNames, hregistrations, List.map_map]
  refine List.map_congr_left fun e _ => ?_
  show ((e.wrapperAs _ _).registration).name = _
  rw [(Export.registration_name ..).1]
  rw [converterFor, modulePrefix_converter, hprefix]

def meterDocument : Document String where
  decls := [
    .impl ⟨"meters::Meter<f64>", [{ name := "get_level", isPublic := .boolean false }]⟩,
    .struct { name := "Meter", fields := [⟨"level", "f64", .boolean true⟩, ⟨"raw", "i32", .boolean false⟩,
      ⟨"unit", "String", .boolean true⟩] },
    .impl ⟨"Meter<T>", [{ name := "new", isPublic := .boolean false },
      { name := "unit", result := some "String", receiver := .byRef }]⟩]

/-- Private methods claim the constructor and one getter, and a public one the other. -/
theorem generate_operations_meter : ∃ m, (meterDocument.map Value.text).joinedPrefix none = .ok "" ∧
    ({} : Settings).ignored = [] ∧ (({} : Settings).moduleFor "").ignored = [] ∧
    generate {} (meterDocument.map Value.text) none = .ok m ∧
    m.exportedNames = ["meter_delete", "meter_set_level", "meter_set_unit", "meter_unit"] := by
  obtain ⟨htotal, hnames⟩ := @generate_operations {} (meterDocument.map Value.text) none "" rfl rfl rfl
  obtain ⟨m, hm⟩ := htotal meterDocument rfl
  refine ⟨m, rfl, rfl, rfl, hm, (hnames m hm).2.trans ?_⟩
  decide +kernel

end Settings
end RingBridge
