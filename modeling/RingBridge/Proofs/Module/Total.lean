import RingBridge.Proofs.Module.Declarations
import RingBridge.Proofs.Module.Index
/-!
Documents of text: no name and no type is missing, so their modules are always generated.
-/
namespace RingBridge

namespace MethodIndex

theorem exists_ofDocument (e : Document String) : ∃ m, ofDocument (e.map .text) = .ok m := by
  refine exists_ofDocument_iff.2 fun x hx => ?_
  obtain ⟨i, hi, f, hf, rfl⟩ := Document.mem_methodNames.1 hx
  obtain ⟨decl, _, hdecl⟩ := List.mem_map.1 (Document.mem_impls.1 hi)
  cases decl with
  | impl j =>
    cases hdecl
    obtain ⟨g, _, rfl⟩ := List.mem_map.1 hf
    exact ⟨_, rfl⟩
  | struct t | func f => cases hdecl

end MethodIndex

/-- Every offer of a declaration of text is an export. -/
theorem Plan.exports_map_text (p : Plan) (decl : Declaration String) :
    ∀ o ∈ p.exports (decl.map .text), ∃ e, o = .ok e := by
  cases decl with
  | struct t =>
    have haccessors : ∀ f ∈ (t.map Value.text).fields, ∀ o ∈ p.accessors (Spelling.baseName t.name) f, ∃ e, o = .ok e := by
      intro f hf o ho
      obtain ⟨f, _, rfl⟩ := List.mem_map.1 hf
      obtain ho | ho := List.mem_append.1 (show o ∈ p.getter _ _ _ ++ p.setter _ _ from ho)
      · unfold getter at ho
        split at ho
        · cases ho
        · exact ⟨_, List.mem_singleton.1 ho⟩
      · unfold setter at ho
        split at ho
        · cases ho
        · exact ⟨_, List.mem_singleton.1 ho⟩
    intro o ho
    have ho : o ∈ if p.ignores t.name then [] else p.structExports (Spelling.baseName t.name) (t.map .text) := ho
    split at ho
    · cases ho
    · obtain ho | ho := List.mem_cons.1 ho
      · exact ⟨_, ho⟩
      · split at ho
        · obtain ho | ho := List.mem_append.1 ho
          · split at ho
            · cases ho
            · exact ⟨_, List.mem_singleton.1 ho⟩
          · obtain ⟨f, hf, ho⟩ := List.mem_flatMap.1 ho
            exact haccessors f (List.mem_filter.1 hf).1 o ho
        · cases ho
  | impl i =>
    intro o ho
    have ho : o ∈ if p.ignores (Spelling.baseName i.name) then [] else
        p.methods (Spelling.baseName i.name) (i.map .text) := ho
    split at ho
    · cases ho
    · obtain ⟨f, hf, rfl⟩ := List.mem_map.1 ho
      obtain ⟨g, _, rfl⟩ := List.mem_map.1 (List.mem_filter.1 hf).1
      exact ⟨.method _ g, by rw [Document.functionText_map]; rfl⟩
  | func f =>
    intro o ho
    have ho : o ∈ if f.isPublic.isTrue then if p.ignores f.name then [] else
        [(Document.functionText (f.map .text)).map Export.function] else [] := ho
    split at ho
    · split at ho
      · cases ho
      · rw [Document.functionText_map] at ho
        exact ⟨_, List.mem_singleton.1 ho⟩
    · cases ho

/-- The module of a document of text is always generated. -/
theorem Settings.exists_generate (s : Settings) (e : Document String) {given : Option String} {joined : String}
    (h : (e.map .text).joinedPrefix given = .ok joined) :
    ∃ m, s.generate (e.map .text) given = .ok m ∧ m.modulePrefix = joined := by
  obtain ⟨index, hindex⟩ := MethodIndex.exists_ofDocument e
  let p : Plan := ⟨s.ignored ++ (s.moduleFor joined).ignored, index⟩
  have hplan : s.plan (e.map .text) joined = .ok p := by
    rw [plan, hindex]
    rfl
  obtain ⟨es, hes⟩ : ∃ es : List Export, (e.map Value.text).decls.flatMap p.exports = es.map .ok := by
    have hoffers : ∀ o ∈ (e.map Value.text).decls.flatMap p.exports, ∃ x, o = Except.ok x := by
      intro o ho
      obtain ⟨decl, hd, ho⟩ := List.mem_flatMap.1 ho
      obtain ⟨decl, _, rfl⟩ := List.mem_map.1 hd
      exact p.exports_map_text decl o ho
    exact Except.exists_map_ok hoffers
  exact ⟨⟨e.moduleName, joined, es.map (Export.wrapper (converter (s.moduleFor joined) joined))⟩,
    generate_eq_ok.2 ⟨p, es, h, hplan, hes, rfl⟩, rfl⟩

end RingBridge
