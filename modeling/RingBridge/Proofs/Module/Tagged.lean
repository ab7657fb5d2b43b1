import RingBridge.Proofs.Answer.Typed
import RingBridge.Proofs.Module.Guarded
import RingBridge.Proofs.Shape.Grammar
/-!
Tags and types: what is handed out under the tag of a struct is a box of that struct, and what was read under it is
used as that struct. Different structs may share a constant, though, since the constant keeps no path, no generic
arguments and no case.
-/
namespace RingBridge
open Code Wrapper

theorem Use.Fits.agrees {u : Use} {τ : Store} (h : u.Fits τ) : u.Agrees τ := by
  cases u with
  | follow ptr s =>
    cases s with
    | none => cases h
    | some s =>
      intro g r hg hr
      cases h with
      | inl h =>
        rw [h] at hg
        cases hg
        cases hr
      | inr h =>
        rw [h] at hg
        cases hg
        cases hr
        rfl
  | _ => cases h

theorem Binding.Follows.agrees {q : String × String} {τ : Store} (h : Binding.Follows τ q) :
    Use.Agrees (.follow q.1 (some q.2)) τ := by
  intro g r hg hr
  cases h with
  | inl h =>
    rw [h] at hg
    cases hg
    cases hr
    rfl
  | inr h =>
    obtain ⟨t, ht⟩ := h
    rw [ht] at hg
    cases hg
    cases hr

variable {c : Converter}

namespace Wrapper.Operation

theorem sound (hc : c.IsBare) {o : Operation} (ho : o.IsRegular) (hparams : HasDistinctParams o.params)
    (hnodup : (wrapper c o).answer.binders.Nodup) :
    Along Use.Agrees o.declared (wrapper c o).body Store.empty fun _ _ => True := by
  have hspares : o.parameters.Pairwise fun p p' => ∀ q ∈ p.pointers, p'.Spares Binding.Follows q :=
    (pairwise_name_ne hparams).imp fun hne _ hq => Binding.Parameter.spares_follows hne hq
  apply along hc o (fun _ _ h => h.agrees) (fun _ _ => trivial) (fun _ _ h => h) hspares
  intro τ hptrs _
  apply Answer.ofCall_sound
  · intro u ρ hm
    obtain ⟨rfl, ⟨q, hq, rfl⟩ | ⟨_, rfl⟩⟩ := uses_call ho hm
    · exact (hptrs q hq).agrees
    · trivial
  · rw [answer_eq hc] at hnodup
    exact hnodup

end Wrapper.Operation

namespace Export

/-- Every use in a wrapper agrees with the tags, if its parameters can be told apart and no temporary of its answer is
    bound twice. -/
theorem sound (hc : c.IsBare) (name : String) (e : Export) (hparams : Operation.HasDistinctParams e.params)
    (hnodup : (e.wrapperAs c name).answer.binders.Nodup) :
    Along Use.Agrees e.declared (e.wrapperAs c name).body Store.empty fun _ _ => True := by
  apply along_of_calls
  · intro struct τ hptr g r hg hr
    rw [hptr] at hg
    cases hg
    cases hr
    rfl
  · exact fun struct _ => ⟨struct, _, rfl⟩
  · intro o ho
    rw [ho.wrapper] at hnodup
    exact ho.declared ▸ Operation.sound hc ho.regular (ho.distinct hparams) hnodup

end Export

/-- No two parameters have one name, the blank name apart. -/
def Function.HasDistinctParams (f : Function Value) : Prop :=
  f.params.Pairwise fun a b => a.name = b.name → a.name = .text "_"

theorem Function.HasDistinctParams.text {f : Function Value} (hf : f.HasDistinctParams) {g : Function String}
    (h : Document.functionText f = .ok g) : Operation.HasDistinctParams g.params := by
  obtain ⟨names, types, hnames, hparams⟩ := Document.params_functionText h
  have hvalues : (f.params.map Param.name).Pairwise fun a b => a = b → a = .text "_" := List.pairwise_map.2 hf
  rw [hnames, List.pairwise_map, List.pairwise_iff_getElem] at hvalues
  rw [Operation.HasDistinctParams, hparams, List.pairwise_iff_getElem]
  intro i j hi hj hij he
  rw [List.length_zipWith] at hi hj
  simp only [List.getElem_zipWith] at he ⊢
  exact Value.text.inj (hvalues i j (by omega) (by omega) hij (congrArg Value.text he))

namespace Settings
variable {s : Settings} {d : Document Value} {given : Option String} {m : Module}

theorem tag_plain {s b : String} (h : Spelling.afterSegment? s.toList = none)
    (hb : Text.onText Text.upper (String.ofList (s.toList.takeWhile (· != '<'))) ++ "_TYPE" = b) : Name.tag s = b := by
  rw [Name.tag, Spelling.baseName_plain h, hb]

/-- In a module without handlers, what a wrapper hands out under a tag is a box of the tagged struct, and what it
    reads under a tag it uses as the tagged struct. So what is handed out under a constant is used as a struct of that
    constant, and as the same one where the constants of the module tell its structs apart. -/
theorem generate_tagged (h : s.generate d given = .ok m)
    (hbare : (s.moduleFor m.modulePrefix).handlers.entries = [])
    (hparams : ∀ decl ∈ d.decls, ∀ f ∈ decl.functions, f.HasDistinctParams)
    (htemporaries : ∀ w ∈ m.wrappers, w.answer.binders.Nodup) :
    ∃ es, s.exports d m.modulePrefix = .ok es ∧ m.wrappers = es.map (Export.wrapper (s.converterFor m)) ∧
      (∀ e ∈ es, ∀ u τ, (e.wrapper (s.converterFor m)).body.Reaches e.declared Store.empty u τ → u.Agrees τ) ∧
      ∀ const a b, Export.Passes (s.converterFor m) es const a b → Name.tag a = const ∧ Name.tag b = const ∧
        ((∀ x ∈ m.wrappers.flatMap Wrapper.structs, ∀ y ∈ m.wrappers.flatMap Wrapper.structs,
          Name.tag x = Name.tag y → x = y) → a = b) := by
  obtain ⟨es, hes, hwrappers⟩ := exports_of_generate h
  have hagrees : ∀ e ∈ es, ∀ u τ, (e.wrapper (s.converterFor m)).body.Reaches e.declared Store.empty u τ →
      u.Agrees τ := by
    intro e he u τ hu
    have hdistinct : Operation.HasDistinctParams e.params := by
      obtain ⟨decl, hd, hfrom⟩ := comesFrom_of_exports hes he
      obtain hp | ⟨f, hf, g, hg, hp⟩ := hfrom.params
      · rw [hp]
        exact .nil
      · rw [hp]
        exact (hparams decl hd f hf).text hg
    have hnodup := htemporaries _ (hwrappers ▸ List.mem_map_of_mem he)
    exact (Export.sound (Converter.isBare_converter hbare _) _ e hdistinct hnodup).uses hu
  refine ⟨es, hes, hwrappers, hagrees, ?_⟩
  intro const a b ⟨e, he, e', he', ha, hb⟩
  obtain ⟨hta, hsa⟩ := ha.tag_eq (hagrees e he)
  obtain ⟨htb, hsb⟩ := hb.tag_eq (hagrees e' he')
  have hmem : ∀ e ∈ es, ∀ x ∈ (e.wrapper (s.converterFor m)).structs, x ∈ m.wrappers.flatMap Wrapper.structs :=
    fun e he x hx => List.mem_flatMap.2 ⟨_, hwrappers ▸ List.mem_map_of_mem he, hx⟩
  exact ⟨hta, htb, fun htags => htags a (hmem e he a hsa) b (hmem e' he' b hsb) (hta.trans htb.symm)⟩

def originDocument : Document Value where
  decls := [.struct { name := .text "Point" }, .func { name := .text "origin", result := some (.text "Point") },
    .func { name := .text "norm", params := [⟨.text "a", .text "&Point"⟩] }]

def originExports : List Export :=
  [.destructor (Spelling.baseName "Point"), .constructor (Spelling.baseName "Point"),
    .function { name := "origin", result := some "Point" },
    .function { name := "norm", params := [⟨"a", "&Point"⟩] }]

theorem ofSpelling_point : Shape.ofSpelling "Point" = .named "Point" "Point" :=
  TypeExpr.ofSpelling_spelling (.named [] ⟨⟨'P', ['o', 'i', 'n', 't'], by decide, by decide⟩, by decide, by decide⟩ [] [])

theorem ofSpelling_point_reference : Shape.ofSpelling "&Point" = .reference (.named "Point" "Point") false "&Point" :=
  TypeExpr.ofSpelling_spelling (.reference none false (.named [] ⟨⟨'P', ['o', 'i', 'n', 't'], by decide, by decide⟩,
    by decide, by decide⟩ [] []))

/-- The wrappers bind at most one temporary each, and tag only one struct. -/
theorem originExports_wrappers {w : Wrapper} (hw : w ∈ originExports.map (Export.wrapper {})) :
    w.answer.binders.Nodup ∧ ∀ x ∈ w.structs, x = "Point" := by
  simp only [originExports, List.map_cons, List.map_nil, List.mem_cons, List.not_mem_nil, or_false] at hw
  obtain rfl | rfl | rfl | rfl := hw
  · have hstructs : ((Export.destructor (Spelling.baseName "Point")).wrapper {}).structs =
        [Spelling.baseName "Point"] := rfl
    rw [hstructs, baseName_point]
    exact ⟨List.pairwise_singleton _ "ptr", fun x hx => List.mem_singleton.1 hx⟩
  · have hstructs : ((Export.constructor (Spelling.baseName "Point")).wrapper {}).structs =
        [Spelling.baseName "Point"] := rfl
    rw [hstructs, baseName_point]
    exact ⟨List.nodup_nil, fun x hx => List.mem_singleton.1 hx⟩
  · have hanswer : ((Export.function { name := "origin", result := some "Point" }).wrapper {}).answer =
        (Answer.ofCall (some (Shape.ofSpelling "Point")) (.function "origin" []) {}).1 := rfl
    have hstructs : ((Export.function { name := "origin", result := some "Point" }).wrapper {}).structs =
        (Answer.ofCall (some (Shape.ofSpelling "Point")) (.function "origin" []) {}).1.structs := rfl
    rw [hanswer, hstructs, ofSpelling_point]
    exact ⟨List.pairwise_singleton _ "__result", fun x hx => List.mem_singleton.1 hx⟩
  · have hstructs : ((Export.function { name := "norm", params := [⟨"a", "&Point"⟩] }).wrapper {}).structs =
        [Binding.ofShape (localName "a" 1) 1 (.ofSpelling "&Point")].flatMap Binding.structs ++ [] ++
          [(Binding.ofShape (localName "a" 1) 1 (.ofSpelling "&Point")).arg].flatMap Expr.structs := rfl
    rw [hstructs, ofSpelling_point_reference]
    exact ⟨List.nodup_nil, fun x hx => List.mem_singleton.1 hx⟩

/-- Here what the function returns is what the destructor frees. -/
theorem generate_tagged_points : ∃ m es, generate {} originDocument none = .ok m ∧
    exports {} originDocument m.modulePrefix = .ok es ∧
    Export.Passes (converterFor {} m) es "POINT_TYPE" "Point" "Point" ∧
    (∀ e ∈ es, ∀ u τ, (e.wrapper (converterFor {} m)).body.Reaches e.declared Store.empty u τ → u.Agrees τ) ∧
    ∀ const a b, Export.Passes (converterFor {} m) es const a b → a = b := by
  have htag : Name.tag "Point" = "POINT_TYPE" := tag_plain (by decide) (by decide)
  have hm : generate {} originDocument none = .ok ⟨.text "", "", originExports.map (Export.wrapper {})⟩ := rfl
  have hc : (converterFor {} ⟨.text "", "", originExports.map (Export.wrapper {})⟩).IsBare := rfl
  have hparams : ∀ decl ∈ originDocument.decls, ∀ f ∈ decl.functions, f.HasDistinctParams := by
    simp [originDocument, Declaration.functions, Function.HasDistinctParams]
  obtain ⟨es, hes, _, hagrees, hpasses⟩ := generate_tagged hm rfl hparams fun w hw => (originExports_wrappers hw).1
  have hexports : es = originExports := (Except.ok.inj hes).symm
  have hstructs : ∀ x ∈ (originExports.map (Export.wrapper {})).flatMap Wrapper.structs, x = "Point" := by
    intro x hx
    obtain ⟨w, hw, hx⟩ := List.mem_flatMap.1 hx
    exact (originExports_wrappers hw).2 x hx
  refine ⟨_, es, hm, hes, ?_, hagrees, fun const a b hab => ?_⟩
  · rw [hexports, ← htag]
    refine ⟨.function { name := "origin", result := some "Point" }, by simp [originExports],
      .destructor (Spelling.baseName "Point"), by simp [originExports], ?_, ?_⟩
    · rw [Export.declared, Option.map_some, ofSpelling_point]
      exact Export.hands_function hc "origin" ofSpelling_point
    · rw [baseName_point]
      exact Export.takes_destructor ..
  · obtain ⟨_, _, h⟩ := hpasses const a b hab
    exact h fun x hx y hy _ => (hstructs x hx).trans (hstructs y hy).symm

def clashDocument : Document Value where
  decls := [.struct { name := .text "Foo" }, .struct { name := .text "FOO" }, .struct { name := .text "Bar" },
    .func { name := .text "make", result := some (.text "Wrapper<i32>") },
    .func { name := .text "take", params := [⟨.text "w", .text "&Wrapper<u8>"⟩] },
    .func { name := .text "both", params := [⟨.text "a", .text "&Foo"⟩, ⟨.text "a", .text "&Bar"⟩] }]

def clashExports : List Export :=
  [.destructor (Spelling.baseName "Foo"), .constructor (Spelling.baseName "Foo"),
    .destructor (Spelling.baseName "FOO"), .constructor (Spelling.baseName "FOO"),
    .destructor (Spelling.baseName "Bar"), .constructor (Spelling.baseName "Bar"),
    .function { name := "make", result := some "Wrapper<i32>" },
    .function { name := "take", params := [⟨"w", "&Wrapper<u8>"⟩] },
    .function { name := "both", params := [⟨"a", "&Foo"⟩, ⟨"a", "&Bar"⟩] }]

theorem ofSpelling_foo_reference : Shape.ofSpelling "&Foo" = .reference (.named "Foo" "Foo") false "&Foo" :=
  TypeExpr.ofSpelling_spelling (.reference none false (.named [] ⟨⟨'F', ['o', 'o'], by decide, by decide⟩,
    by decide, by decide⟩ [] []))

theorem ofSpelling_bar_reference : Shape.ofSpelling "&Bar" = .reference (.named "Bar" "Bar") false "&Bar" :=
  TypeExpr.ofSpelling_spelling (.reference none false (.named [] ⟨⟨'B', ['a', 'r'], by decide, by decide⟩,
    by decide, by decide⟩ [] []))

theorem ofSpelling_wrapper : Shape.ofSpelling "Wrapper<i32>" = .named "Wrapper<i32>" "Wrapper<i32>" :=
  TypeExpr.ofSpelling_spelling (.named [] ⟨⟨'W', ['r', 'a', 'p', 'p', 'e', 'r'], by decide, by decide⟩,
    by decide, by decide⟩ [] [.number .i32])

theorem ofSpelling_wrapper_reference :
    Shape.ofSpelling "&Wrapper<u8>" = .reference (.named "Wrapper<u8>" "Wrapper<u8>") false "&Wrapper<u8>" :=
  TypeExpr.ofSpelling_spelling (.reference none false (.named [] ⟨⟨'W', ['r', 'a', 'p', 'p', 'e', 'r'], by decide,
    by decide⟩, by decide, by decide⟩ [] [.number .u8]))

/-- One constant for two structs, for two instances of a generic type, and for what two parameters of one name refer
    to. -/
theorem generate_clashing : ∃ m, generate {} clashDocument none = .ok m ∧
    exports {} clashDocument m.modulePrefix = .ok clashExports ∧
    m.wrappers = clashExports.map (Export.wrapper (converterFor {} m)) ∧
    Export.Passes (converterFor {} m) clashExports "FOO_TYPE" "Foo" "FOO" ∧
    Export.Passes (converterFor {} m) clashExports "WRAPPER_TYPE" "Wrapper<i32>" "Wrapper<u8>" ∧
    Export.Passes (converterFor {} m) clashExports "BAR_TYPE" "Bar" "Foo" := by
  have hbase : ∀ n ∈ ["Foo", "FOO", "Bar"], Spelling.baseName n = n := by
    intro n hn
    simp only [List.mem_cons, List.not_mem_nil, or_false] at hn
    obtain rfl | rfl | rfl := hn <;> exact (Spelling.baseName_plain (by decide)).trans (by decide)
  have hFoo : Name.tag "Foo" = "FOO_TYPE" := tag_plain (by decide) (by decide)
  have hFOO : Name.tag "FOO" = "FOO_TYPE" := tag_plain (by decide) (by decide)
  have hBar : Name.tag "Bar" = "BAR_TYPE" := tag_plain (by decide) (by decide)
  have hWrapper : Name.tag "Wrapper<i32>" = "WRAPPER_TYPE" := tag_plain (by decide) (by decide)
  have hWrapper' : Name.tag "Wrapper<u8>" = "WRAPPER_TYPE" := tag_plain (by decide) (by decide)
  have hc : (converterFor {} ⟨.text "", "", clashExports.map (Export.wrapper {})⟩).IsBare := rfl
  refine ⟨⟨.text "", "", clashExports.map (Export.wrapper {})⟩, rfl, rfl, rfl, ?_, ?_, ?_⟩
  · refine ⟨.constructor (Spelling.baseName "Foo"), by simp [clashExports], .destructor (Spelling.baseName "FOO"),
      by simp [clashExports], ?_, ?_⟩
    · rw [hbase "Foo" (by simp), ← hFoo]
      exact Export.hands_constructor ..
    · rw [hbase "FOO" (by simp), ← hFOO]
      exact Export.takes_destructor ..
  · refine ⟨.function { name := "make", result := some "Wrapper<i32>" }, by simp [clashExports],
      .function { name := "take", params := [⟨"w", "&Wrapper<u8>"⟩] }, by simp [clashExports], ?_, ?_⟩
    · rw [Export.declared, Option.map_some, ofSpelling_wrapper, ← hWrapper]
      exact Export.hands_function hc "make" ofSpelling_wrapper
    · rw [← hWrapper']
      exact Export.takes_function hc "take" ofSpelling_wrapper_reference
  · refine ⟨.constructor (Spelling.baseName "Bar"), by simp [clashExports],
      .function { name := "both", params := [⟨"a", "&Foo"⟩, ⟨"a", "&Bar"⟩] }, by simp [clashExports], ?_, ?_⟩
    · rw [hbase "Bar" (by simp), ← hBar]
      exact Export.hands_constructor ..
    · rw [← hBar]
      exact Export.takes_function_twice hc "both" (fun _ => rfl) ofSpelling_foo_reference ofSpelling_bar_reference

end Settings
end RingBridge
