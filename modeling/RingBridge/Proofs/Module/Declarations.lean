import RingBridge.Proofs.Shape.Names
import RingBridge.Proofs.Wrapper.Calls
/-!
What exports take from their declarations: names and types. The exports of a document stand in the order of its
declarations.
-/
namespace RingBridge

def Function.names {ν : Type} (f : Function ν) : List ν := f.name :: f.params.map Param.name

def Function.types {ν : Type} (f : Function ν) : List ν := f.params.map Param.type ++ f.result.toList

namespace Declaration

def names {ν : Type} : Declaration ν → List ν
  | struct t => t.name :: t.fields.map Field.name
  | impl i => i.name :: i.methods.flatMap Function.names
  | func f => f.names

def types {ν : Type} : Declaration ν → List ν
  | struct t => t.fields.map Field.type
  | impl i => i.methods.flatMap Function.types
  | func f => f.types

def namedTypes (type : Value) : List String := (Shape.ofSpelling type.plain).names

/-- The named types in the fields, parameters and results of a declaration. The struct of an impl is one of them, and
    stands for `Self`. -/
def opaques : Declaration Value → List String
  | struct t => t.fields.flatMap fun f => namedTypes f.type
  | impl i => Spelling.baseName i.name.plain ::
      ((i.methods.flatMap Function.types).flatMap namedTypes).filter fun x => x ≠ "Self"
  | func f => f.types.flatMap namedTypes

/-- Every named type stands in a type of the declaration, or is what its `Self` stands for. -/
theorem mem_opaques_cases {decl : Declaration Value} {x : String} (h : x ∈ decl.opaques) :
    (∃ v ∈ decl.names, x = Spelling.baseName v.plain) ∨ ∃ type ∈ decl.types, x ∈ namedTypes type := by
  cases decl with
  | struct t =>
    obtain ⟨f, hf, hx⟩ := List.mem_flatMap.1 h
    exact .inr ⟨f.type, List.mem_map_of_mem hf, hx⟩
  | impl i =>
    obtain rfl | h := List.mem_cons.1 h
    · exact .inl ⟨i.name, List.mem_cons_self .., rfl⟩
    · exact .inr (List.mem_flatMap.1 (List.mem_filter.1 h).1)
  | func f => exact .inr (List.mem_flatMap.1 h)

end Declaration

namespace Declaration.Offers
variable {decl : Declaration Value} {e : Export}

theorem names_function (g : Function String) : (g.map Value.text).names = g.names.map Value.text := by
  simp [Function.names, Function.map, Param.map, Function.comp_def]

theorem types_function (g : Function String) : (g.map Value.text).types = g.types.map Value.text := by
  cases h : g.result <;> simp [Function.types, Function.map, Param.map, Function.comp_def, h]

/-- Every name in an export is a name of the declaration, or the base name of one. -/
theorem mem_names (h : decl.Offers e) {x : String} (hx : x ∈ e.names) :
    ∃ v ∈ decl.names, x = v.plain ∨ x = Spelling.baseName v.plain := by
  have hfunction : ∀ g : Function String, x ∈ g.names → ∃ v ∈ (g.map Value.text).names, x = v.plain := by
    intro g hx
    rw [names_function]
    exact ⟨.text x, List.mem_map_of_mem hx, rfl⟩
  cases h with
  | @destructor t n hn | @constructor t n hn =>
    exact ⟨t.name, List.mem_cons_self .., .inr (by rw [List.mem_singleton.1 hx, hn]; rfl)⟩
  | @getter t n type f hn hf ht | @setter t n type f hn hf ht =>
    obtain hx | hx := List.mem_cons.1 hx
    · exact ⟨t.name, List.mem_cons_self .., .inr (by rw [hx, hn]; rfl)⟩
    · exact ⟨f.name, List.mem_cons_of_mem _ (List.mem_map_of_mem hf), .inl (List.mem_singleton.1 hx)⟩
  | @method i n g hn hg =>
    obtain hx | hx := List.mem_cons.1 hx
    · exact ⟨i.name, List.mem_cons_self .., .inr (by rw [hx, hn]; rfl)⟩
    · obtain ⟨v, hv, hx⟩ := hfunction g hx
      exact ⟨v, List.mem_cons_of_mem _ (List.mem_flatMap.2 ⟨_, hg, hv⟩), .inl hx⟩
  | @function g =>
    obtain ⟨v, hv, hx⟩ := hfunction g hx
    exact ⟨v, hv, .inl hx⟩

/-- The types in a declaration, as texts. -/
theorem mem_types_function {g : Function String} {type : String} (h : type ∈ g.types) :
    .text type ∈ (g.map Value.text).types := types_function g ▸ List.mem_map_of_mem h

/-- Every named type in an export is one of the declaration. -/
theorem mem_opaques (h : decl.Offers e) {s : Shape} (hs : s ∈ e.shapes) {x : String} (hx : x ∈ s.names) :
    x ∈ decl.opaques := by
  cases h with
  | destructor hn | constructor hn => cases hs
  | @getter t n type f hn hf ht | @setter t n type f hn hf ht =>
    rw [List.mem_singleton.1 hs] at hx
    exact List.mem_flatMap.2 ⟨f, hf, by rw [namedTypes, ht]; exact hx⟩
  | @method i n g hn hg =>
    have hself : Spelling.baseName n ∈ (Declaration.impl i).opaques := by
      rw [opaques, hn]
      exact List.mem_cons_self ..
    have hresolved : ∀ type ∈ g.types, x ∈ ((Shape.ofSpelling type).resolveSelf (some (Spelling.baseName n))).names →
        x ∈ (Declaration.impl i).opaques := by
      intro type htype hx
      obtain ⟨hx, hne⟩ | howner := Shape.mem_names_resolveSelf _ hx
      · have hmem : x ∈ (i.methods.flatMap Function.types).flatMap namedTypes :=
          List.mem_flatMap.2 ⟨.text type, List.mem_flatMap.2 ⟨_, hg, mem_types_function htype⟩, hx⟩
        exact List.mem_cons_of_mem _ (List.mem_filter.2 ⟨hmem, by simpa using hne⟩)
      · exact Option.some.inj howner ▸ hself
    obtain hs | hs := List.mem_append.1 hs
    · obtain ⟨a, ha, rfl⟩ := List.mem_map.1 hs
      exact hresolved a.type (List.mem_append_left _ (List.mem_map_of_mem ha)) hx
    · have hs : Export.methodResult (Spelling.baseName n) g = some s := Option.mem_toList.1 hs
      unfold Export.methodResult at hs
      split at hs
      · next type htype =>
        cases hs
        exact hresolved type (List.mem_append_right _ (by rw [htype]; exact List.mem_singleton_self _)) hx
      · split at hs
        · cases hs
          rw [List.mem_singleton.1 hx]
          exact hself
        · cases hs
  | @function g =>
    have htype : ∀ type ∈ g.types, x ∈ (Shape.ofSpelling type).names → x ∈ (Declaration.func (g.map .text)).opaques :=
      fun type htype hx => List.mem_flatMap.2 ⟨.text type, mem_types_function htype, hx⟩
    obtain hs | hs := List.mem_append.1 hs
    · obtain ⟨a, ha, rfl⟩ := List.mem_map.1 hs
      exact htype a.type (List.mem_append_left _ (List.mem_map_of_mem ha)) hx
    · obtain ⟨type, hresult, rfl⟩ := Option.map_eq_some_iff.1 (Option.mem_toList.1 hs)
      exact htype type (List.mem_append_right _ (by rw [hresult]; exact List.mem_singleton_self _)) hx

/-- A function in text offers itself alone. -/
theorem eq_function {f : Function String} {e : Export} (h : (Declaration.func (f.map Value.text)).Offers e) :
    e = .function f := by
  generalize hdecl : Declaration.func (f.map Value.text) = decl at h
  cases h with
  | @function g =>
    have hg := Document.functionText_map g
    rw [← Declaration.func.inj hdecl, Document.functionText_map f] at hg
    rw [Except.ok.inj hg]
  | _ => cases hdecl

end Declaration.Offers

/-- The exports of a document, cut into those of each declaration. -/
theorem Plan.exists_parts {p : Plan} {decls : List (Declaration Value)} {es : List Export}
    (h : decls.flatMap p.exports = es.map .ok) : ∃ parts : List (List Export),
      decls.map p.exports = parts.map (List.map .ok) ∧ es = parts.flatten := by
  induction decls generalizing es with
  | nil => exact ⟨[], rfl, List.map_eq_nil_iff.1 h.symm⟩
  | cons decl decls ih =>
    obtain ⟨part, rest, rfl, hpart, hrest⟩ := List.map_eq_append_iff.1 h.symm
    obtain ⟨parts, hparts, rfl⟩ := ih hrest.symm
    exact ⟨part :: parts, by rw [List.map_cons, List.map_cons, hparts, hpart], rfl⟩

namespace Settings
variable {s : Settings} {d : Document Value} {given : Option String} {m : Module}

/-- A generated module holds the exports of one declaration after the other. -/
theorem parts_of_generate (h : s.generate d given = .ok m) : ∃ p, ∃ parts : List (List Export),
    s.plan d m.modulePrefix = .ok p ∧ d.decls.map p.exports = parts.map (List.map .ok) ∧
    m.wrappers = parts.flatten.map (Export.wrapper (s.converterFor m)) := by
  obtain ⟨es, hes, hwrappers⟩ := exports_of_generate h
  obtain ⟨p, hp, hes⟩ := Except.exists_of_bind_eq_ok hes
  obtain ⟨parts, hparts, rfl⟩ := p.exists_parts (Except.mapM_id_eq_ok.1 hes)
  exact ⟨p, parts, hp, hparts, hwrappers⟩

/-- Each wrapper is that of an export which a declaration offers. -/
theorem offers_of_generate (h : s.generate d given = .ok m) {w : Wrapper} (hw : w ∈ m.wrappers) :
    ∃ decl ∈ d.decls, ∃ e, decl.Offers e ∧ w = e.wrapper (s.converterFor m) := by
  obtain ⟨es, hes, hwrappers⟩ := exports_of_generate h
  obtain ⟨p, _, hes⟩ := Except.exists_of_bind_eq_ok hes
  rw [hwrappers] at hw
  obtain ⟨e, he, rfl⟩ := List.mem_map.1 hw
  obtain ⟨decl, hd, hm⟩ := List.mem_flatMap.1 (Except.ok_mem_of_mapM_id hes he)
  exact ⟨decl, hd, e, Plan.offers_of_mem hm, rfl⟩

end Settings

end RingBridge
