import Mathlib.Data.List.TakeWhile
import RingBridge.Proofs.Module.Operations
import RingBridge.Proofs.Source.Named
import RingBridge.Proofs.Text.Words
/-!
Wrappers as identifiers. The name of a wrapper joins the prefix of its module, its owner in lower case and its operation.
It is no identifier where one of these parts is none: a raw name brings its mark, an impl for a type that is no name brings
what the type is made of, and the dotted capital `İ` brings a mark when it is put in lower case.
-/
namespace RingBridge
open Source Spelling Text

def IsMarkedText (x : String) : Prop := ∀ c ∈ x.toList, isWord c = true ∨ c = '#'

theorem IsMarkedText.append {x y : String} (hx : IsMarkedText x) (hy : IsMarkedText y) : IsMarkedText (x ++ y) := by
  rw [IsMarkedText, String.toList_append]
  exact List.forall_mem_append.2 ⟨hx, hy⟩

theorem IsMarkedText.of_isWordText {x : String} (h : IsWordText x) : IsMarkedText x := fun c hc => .inl (h c hc)

/-- Without the mark, only word characters are left. -/
theorem IsMarkedText.isWordText_iff {x : String} (h : IsMarkedText x) : IsWordText x ↔ '#' ∉ x.toList :=
  ⟨fun hx hm => absurd (hx _ hm) (by decide), fun hx c hc => (h c hc).resolve_right fun e => hx (e ▸ hc)⟩

theorem isMarkedText_of_isIdentifier {x : String} (h : IsIdentifier x) : IsMarkedText x := by
  intro c hc
  obtain ⟨i, hi | hi⟩ := h
  · exact .inl (i.isWord_chars c (hi ▸ hc))
  · rw [hi] at hc
    obtain rfl | hc := List.mem_cons.1 hc
    · exact .inl (by decide)
    · exact (List.mem_cons.1 hc).symm.imp_left (i.isWord_chars c)

/-- An identifier has neither a path nor generic arguments. -/
theorem baseName_of_isIdentifier {x : String} (h : IsIdentifier x) : baseName x = x := by
  have hcolon : ':' ∉ x.toList := fun hm => absurd (isMarkedText_of_isIdentifier h _ hm) (by decide)
  have hangle : '<' ∉ x.toList := fun hm => absurd (isMarkedText_of_isIdentifier h _ hm) (by decide)
  have hpath : afterSegment? x.toList = none := by
    refine Option.eq_none_iff_forall_ne_some.2 fun r hr => ?_
    obtain ⟨i, hi⟩ := exists_of_afterSegment? hr
    exact hcolon (by simp [hi])
  have hplain : ∀ c ∈ x.toList, (c != '<') = true := fun c hc => bne_iff_ne.2 fun e => hangle (e ▸ hc)
  rw [baseName_plain hpath, List.takeWhile_eq_self_iff.2 hplain, String.ofList_toList]

namespace Export

theorem isWordText_name {e : Export} (h : ∀ o ∈ e.owner?, ∃ n, o = baseName n) {modulePrefix : String} :
    IsWordText (e.name modulePrefix) ↔
      IsWordText modulePrefix ∧ IsWordText e.op ∧ ∀ o ∈ e.owner?, IsWordText (Name.lowerText o) := by
  have hexported : ∀ parts, IsWordText (Name.exported modulePrefix parts) ↔
      IsWordText modulePrefix ∧ ∀ x ∈ parts, IsWordText x := fun parts => by
    rw [Name.exported, isWordText_append, isWordText_joining, isWordText_intercalate (by decide)]
  cases howner : e.owner? with
  | none =>
    cases e with
    | function f =>
      rw [name, hexported, List.forall_mem_singleton]
      exact and_congr_right' (and_iff_left (by simp)).symm
    | _ => cases howner
  | some o =>
    obtain ⟨n, rfl⟩ := h o howner
    rw [name_of_owner howner, hexported, List.forall_mem_cons, List.forall_mem_singleton]
    simp only [Option.mem_some_iff, forall_eq']
    exact and_congr_right' and_comm

end Export

namespace Declaration.Offers
variable {decl : Declaration String} {e : Export}

/-- What an export of a named declaration is called is made of word characters and the mark of raw names. -/
theorem isMarkedText_op (h : (decl.map Value.text).Offers e) (hnamed : IsNamed decl) : IsMarkedText e.op := by
  generalize hdecl : decl.map Value.text = mapped at h
  cases h with
  | destructor hn => exact .of_isWordText (x := "delete") (by decide)
  | constructor hn => exact .of_isWordText (x := "new") (by decide)
  | @getter t n type f hn hf ht | @setter t n type f hn hf ht =>
    cases decl with
    | struct t =>
      cases hdecl
      obtain ⟨g, hg, rfl⟩ := List.mem_map.1 hf
      exact .append (.of_isWordText (by decide)) (isMarkedText_of_isIdentifier (hnamed.2 g hg))
    | _ => cases hdecl
  | @method i n g hn hg =>
    cases decl with
    | impl i =>
      cases hdecl
      obtain ⟨f, hf, hmap⟩ := List.mem_map.1 hg
      rw [Export.op, ← Value.text.inj (congrArg Function.name hmap)]
      exact isMarkedText_of_isIdentifier (hnamed f hf)
    | _ => cases hdecl
  | @function g =>
    cases decl with
    | func f =>
      rw [Export.op, ← Value.text.inj (congrArg Function.name (Declaration.func.inj hdecl))]
      exact isMarkedText_of_isIdentifier hnamed
    | _ => cases hdecl

/-- The exports of a struct are owned by its name as it is written. -/
theorem owner_eq_name {t : Struct String} (h : ((Declaration.struct t).map Value.text).Offers e)
    (hnamed : IsNamed (.struct t)) : e.owner? = some t.name := by
  rw [h.owner_eq]
  exact congrArg some (baseName_of_isIdentifier hnamed.1)

end Declaration.Offers

namespace Settings

/-- Every wrapper of a module from source is that of an export of a named declaration. Its name is made of word characters
    if and only if the prefix and the owner are, the export has no raw name, and the owner no dotted capital. The
    exports of a struct are owned by its name as it is written. -/
theorem generate_identifiers (s : Settings) {text moduleName : String} {d : Document String}
    (hread : (readSource text moduleName).document = .ok d) {given : Option String} {m : Module}
    (h : s.generate (d.map .text) given = .ok m) {w : Wrapper} (hw : w ∈ m.wrappers) :
    ∃ decl ∈ d.decls, IsNamed decl ∧ ∃ e, (decl.map Value.text).Offers e ∧ w = e.wrapper (s.converterFor m) ∧
      (∀ t, decl = .struct t → e.owner? = some t.name) ∧
      (IsWordText w.registration.wrapper ↔
        IsWordText m.modulePrefix ∧ '#' ∉ e.op.toList ∧ ∀ o ∈ e.owner?, IsWordText o ∧ 'İ' ∉ o.toList) := by
  obtain ⟨mapped, hmapped, e, he, rfl⟩ := offers_of_generate h hw
  obtain ⟨decl, hdecl, rfl⟩ := List.mem_map.1 hmapped
  have hnamed := isNamed_of_readSource hread decl hdecl
  have howner : ∀ o ∈ e.owner?, ∃ n, o = baseName n := by
    rw [he.owner_eq]
    intro o ho
    obtain ⟨v, -, rfl⟩ := Option.map_eq_some_iff.1 ho
    exact ⟨v.plain, rfl⟩
  refine ⟨decl, hdecl, hnamed, e, he, rfl, ?_, ?_⟩
  · rintro t rfl
    exact he.owner_eq_name hnamed
  · rw [Export.wrapper, (Export.registration_name ..).2, Name.wrapper, isWordText_append, Export.isWordText_name howner,
      (he.isMarkedText_op hnamed).isWordText_iff, converterFor, modulePrefix_converter]
    simp only [isWordText_lowerText]
    exact and_iff_right (by decide)

theorem generate_identifiers_point : ∃ (d : Document String) (m : Module) (w : Wrapper),
    (readSource "pub struct Point \x7b pub x: i32 \x7d").document = .ok d ∧
    ({} : Settings).generate (d.map .text) (some "geo") = .ok m ∧ w ∈ m.wrappers ∧
    w.registration.wrapper = "ring_geo_point_get_x" ∧ ∃ decl ∈ d.decls, IsNamed decl ∧
      ∃ e, (decl.map Value.text).Offers e ∧ w = e.wrapper (({} : Settings).converterFor m) ∧
      (∀ t, decl = .struct t → e.owner? = some t.name) ∧
      (IsWordText w.registration.wrapper ↔
        IsWordText m.modulePrefix ∧ '#' ∉ e.op.toList ∧ ∀ o ∈ e.owner?, IsWordText o ∧ 'İ' ∉ o.toList) := by
  have hread : (readSource "pub struct Point \x7b pub x: i32 \x7d").document =
      .ok ⟨.text "", .text "", [.struct ⟨"Point", [⟨"x", "i32", .boolean true⟩], .boolean true, .text ""⟩], .text ""⟩ := by
    with_unfolding_all rfl
  refine ⟨_, _, _, hread, rfl, List.mem_of_getElem? (i := 2) rfl, by decide +kernel, ?_⟩
  exact @generate_identifiers {} _ _ _ hread (some "geo") _ rfl _ (List.mem_of_getElem? (i := 2) rfl)

/-- A raw name brings its mark into the name of the wrapper. -/
theorem generate_raw_identifier : ∃ (d : Document String) (m : Module),
    (readSource "pub fn r#match() \x7b \x7d").document = .ok d ∧ ({} : Settings).generate (d.map .text) none = .ok m ∧
    IsWordText m.modulePrefix ∧ ∃ w ∈ m.wrappers, w.registration.wrapper = "ring_r#match" ∧
      ¬ IsWordText w.registration.wrapper := by
  have hread : (readSource "pub fn r#match() \x7b \x7d").document =
      .ok ⟨.text "", .text "", [.func ⟨"r#match", [], none, .boolean true, .absent, .text ""⟩], .text ""⟩ := by
    with_unfolding_all rfl
  exact ⟨_, _, hread, rfl, by decide, _, List.mem_of_getElem? (i := 0) rfl, by decide +kernel, by decide +kernel⟩

end Settings
end RingBridge
