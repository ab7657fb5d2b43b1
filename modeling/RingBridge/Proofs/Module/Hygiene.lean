import RingBridge.Proofs.Binding.Bound
import RingBridge.Proofs.Module.Declarations
import RingBridge.Proofs.Module.Tagged
import RingBridge.Proofs.Wrapper.Limits
/-!
What the names in a call mean. The arguments of a call mention variables that the code of their own parameters has bound;
they keep that meaning unless the code of a later parameter binds a variable of this name, or the function itself is
hidden by a variable.
-/
namespace RingBridge
open Code Wrapper

def Code.call? : Code → Option Call
  | line (.bindCall _ call) | line (.perform call) => some call
  | seq a _ => a.call?
  | _ => none

/-- Each variable in the call is bound by the code of its own parameter, and by no code after it; and neither the function
    nor the receiver is hidden by a variable of a parameter. -/
structure Wrapper.IsHygienic (w : Wrapper) : Prop where
  own : ∀ b ∈ w.bindings, ∀ x ∈ b.arg.vars, x ∈ b.bound
  last : w.bindings.Pairwise fun a b => ∀ x ∈ a.arg.vars, x ∉ b.bound
  callee : ∀ f args, w.answer.call? = some (.function f args) → ∀ b ∈ w.bindings, f ∉ b.bound
  receiver : w.receiver ≠ none → ∀ b ∈ w.bindings, "obj" ∉ b.bound

namespace Binding.Parameter

def passed (p : Parameter) : String := p.shape.passed p.name

def Binds (p : Parameter) (x : String) : Prop := x = p.passed ∨ x ∈ p.shape.helpers p.name

def LeftBy (p q : Parameter) : Prop := ¬ q.Binds p.passed

theorem vars_binding (p : Parameter) : p.binding.arg.vars = [p.passed] := vars_arg ..

theorem mem_bound_binding {p : Parameter} {x : String} : x ∈ p.binding.bound ↔ p.Binds x := mem_bound_ofShape ..

/-- What is bound is the name of the parameter, or a temporary. -/
theorem Binds.eq_name_or {p : Parameter} {x : String} (h : p.Binds x) : x = p.name ∨ Name.IsTemporary x := by
  obtain rfl | hx := h
  · obtain h | h | h := passed_cases p.name p.shape
    · exact .inl h
    · exact .inr ((show p.passed = _ from h) ▸ isTemporary_pointerName p.name)
    · exact .inr ((show p.passed = _ from h) ▸ isTemporary_sliceName p.name)
  · obtain rfl | ⟨_, _, _, _, rfl⟩ := helpers_cases p.name p.shape hx
    · exact .inr (isTemporary_pointerName p.name)
    · exact .inr ⟨_, rfl⟩

end Binding.Parameter

namespace Wrapper

theorem isLocal_localName (name : String) (i : Nat) : Binding.IsLocal (localName name i) := by
  unfold localName
  split
  · exact .inl ⟨i, rfl⟩
  · next h =>
    refine .inr fun hp => h ?_
    rw [List.isPrefixOf_iff_prefix.2 hp, Bool.or_true, Bool.true_or]

theorem startsPtr_of_localName {name : String} {i : Nat} (h : Binding.StartsPtr (localName name i)) :
    Binding.StartsPtr name := by
  unfold localName at h
  split at h
  · rw [Binding.StartsPtr, Binding.toList_stem, String.toList_append] at h
    obtain ⟨r, hr⟩ := h
    have hhead : some 'p' = some 'a' := congrArg List.head? hr
    exact absurd hhead (by decide)
  · exact h

namespace Operation
variable {o : Operation} {c : Converter}

theorem offset_of_struct {struct : String} (h : o.struct = some struct) :
    o.offset = if o.takesReceiver && !struct.isEmpty then 1 else 0 := by
  rw [offset, receiver, h]
  cases o.takesReceiver <;> cases hs : struct.isEmpty <;> simp [hs]

theorem call?_answerCode (o : Operation) : o.answerCode.call? = some (o.call o.args) := by
  unfold answerCode Answer.ofCall
  split <;> rfl

theorem isHygienic_iff (hc : c.IsBare) : (wrapper c o).IsHygienic ↔ o.parameters.Pairwise Binding.Parameter.LeftBy ∧
    ∀ f args, o.call o.args = .function f args → ∀ p ∈ o.parameters, ¬ p.Binds f := by
  have hb : (wrapper c o).bindings = o.parameters.map Binding.Parameter.binding := bindings_eq hc o
  have hcall : (wrapper c o).answer.call? = some (o.call o.args) := by rw [answer_eq hc, call?_answerCode]
  have hleft : ∀ p q : Binding.Parameter, (∀ x ∈ p.binding.arg.vars, x ∉ q.binding.bound) ↔ p.LeftBy q := by
    intro p q
    rw [p.vars_binding, List.forall_mem_singleton, Binding.Parameter.mem_bound_binding, Binding.Parameter.LeftBy]
  constructor
  · intro h
    refine ⟨?_, fun f args hf p hp hbinds => ?_⟩
    · have hpairs := h.last
      rw [hb, List.pairwise_map] at hpairs
      exact hpairs.imp (hleft _ _).1
    · exact h.callee f args (hcall.trans (congrArg some hf)) p.binding (hb ▸ List.mem_map_of_mem hp)
        (Binding.Parameter.mem_bound_binding.2 hbinds)
  · rintro ⟨hpairs, hcallee⟩
    have hbindings : ∀ {P : Binding → Prop}, (∀ p ∈ o.parameters, P p.binding) → ∀ b ∈ (wrapper c o).bindings, P b := by
      intro P hP b hm
      rw [hb] at hm
      obtain ⟨p, hp, rfl⟩ := List.mem_map.1 hm
      exact hP p hp
    refine ⟨hbindings fun p _ x hx => ?_, ?_, fun f args hf => hbindings fun p hp hbound => ?_,
      fun _ => hbindings fun p hp hbound => ?_⟩
    · rw [p.vars_binding, List.mem_singleton] at hx
      exact Binding.Parameter.mem_bound_binding.2 (.inl hx)
    · rw [hb, List.pairwise_map]
      exact hpairs.imp (hleft _ _).2
    · exact hcallee f args (Option.some.inj (hcall.symm.trans hf)) p hp (Binding.Parameter.mem_bound_binding.1 hbound)
    · obtain hobj | hobj := (Binding.Parameter.mem_bound_binding.1 hbound).eq_name_or
      · exact name_ne_obj o hp hobj.symm
      · exact obj_not_isTemporary hobj

/-- Parameters with different names leave each other's variables alone if none of the names begins with `ptr`. -/
theorem pairwise_leftBy (hparams : HasDistinctParams o.params) (hptr : ∀ a ∈ o.params, ¬ Binding.StartsPtr a.name) :
    o.parameters.Pairwise Binding.Parameter.LeftBy := by
  have hname : ∀ p ∈ o.parameters, Binding.IsLocal p.name ∧ ¬ Binding.StartsPtr p.name := by
    intro p hp
    obtain ⟨a, i, ha, _, _, _, hn⟩ := idx_of_mem_parameters hp
    rw [hn]
    exact ⟨isLocal_localName .., fun h => hptr a ha (startsPtr_of_localName h)⟩
  refine (pairwise_name_ne hparams).imp_of_mem fun {p q} hp hq hne => ?_
  obtain ⟨hlp, hpp⟩ := hname p hp
  obtain ⟨hlq, hpq⟩ := hname q hq
  exact fun h => Binding.passed_ne hlp hlq hne hpp hpq p.shape q.shape h rfl

end Operation
end Wrapper

def Binding.placed (offset : Nat) (params : List (Param String)) (shapes : List Shape) : List Binding.Parameter :=
  (params.zip shapes).zipIdx.map fun ((p, s), i) => ⟨localName p.name (i + 1 + offset), i + 1 + offset, s⟩

namespace Export

def call? (args : List Expr) : Export → Option Call
  | destructor _ | constructor _ => none
  | getter _ field _ => some (.getField field)
  | setter _ field _ => some (.setField field (args.headD .none))
  | method struct f => some
      (if f.receiver.isPresent then .method (f.receiver = .byValue) f.name args else .associated struct f.name args)
  | function f => some (.function f.name args)

def offset : Export → Nat
  | getter struct _ _ | setter struct _ _ => if struct.isEmpty then 0 else 1
  | method struct f => if f.receiver.isPresent && !struct.isEmpty then 1 else 0
  | destructor _ | constructor _ | function _ => 0

def parameters (e : Export) : List Binding.Parameter :=
  match e with
  | destructor _ | constructor _ | getter _ _ _ => []
  | setter _ field type => Binding.placed e.offset [⟨field, type⟩] [.ofSpelling type]
  | method struct f =>
    Binding.placed e.offset f.params (f.params.map fun a => (Shape.ofSpelling a.type).resolveSelf (some struct))
  | function f => Binding.placed e.offset f.params (f.params.map fun a => .ofSpelling a.type)

/-- No variable is passed on that the code of a later parameter binds again, and no parameter binds the function. -/
structure KeepsApart (e : Export) : Prop where
  params : e.parameters.Pairwise Binding.Parameter.LeftBy
  callee : ∀ f, e = function f → ∀ p ∈ e.parameters, ¬ p.Binds f.name

/-- No parameter has a name that begins with `ptr`, and a function is not called as a parameter or a temporary. -/
structure HasPlainNames (e : Export) : Prop where
  params : ∀ a ∈ e.params, ¬ Binding.StartsPtr a.name
  callee : ∀ f, e = function f → f.name ∉ f.params.map Param.name ∧ ¬ "__".toList <+: f.name.toList

variable {c : Converter}

theorem cases_parameters (c : Converter) (name : String) (e : Export) :
    (∃ struct, e = destructor struct) ∨ (∃ struct, e = constructor struct) ∨ ∃ o : Operation,
      e.wrapperAs c name = o.wrapper c ∧ o.parameters = e.parameters ∧ (∀ args, e.call? args = some (o.call args)) ∧
      (o.params = e.params ∨ ∃ p, o.params = [p]) := by
  cases e with
  | destructor struct => exact .inl ⟨struct, rfl⟩
  | constructor struct => exact .inr (.inl ⟨struct, rfl⟩)
  | getter struct field type => exact .inr (.inr ⟨_, rfl, rfl, fun _ => rfl, .inl rfl⟩)
  | setter struct field type =>
    refine .inr (.inr ⟨_, rfl, ?_, fun _ => rfl, .inr ⟨_, rfl⟩⟩)
    refine congrArg (Binding.placed · _ _) ((Operation.offset_of_struct rfl).trans ?_)
    cases h : struct.isEmpty <;> simp [offset, h]
  | method struct f =>
    refine .inr (.inr ⟨_, rfl, ?_, fun args => ?_, .inl rfl⟩)
    · exact congrArg (Binding.placed · _ _) (Operation.offset_of_struct rfl)
    · cases hr : f.receiver.isPresent <;> simp [call?, hr]
  | function f => exact .inr (.inr ⟨_, rfl, rfl, fun _ => rfl, .inl rfl⟩)

theorem call?_answer (hc : c.IsBare) (name : String) (e : Export) :
    (e.wrapperAs c name).answer.call? = e.call? ((e.wrapperAs c name).bindings.map Binding.arg) := by
  obtain ⟨struct, rfl⟩ | ⟨struct, rfl⟩ | ⟨o, ho, _, hcall, _⟩ := cases_parameters c name e
  · rfl
  · rfl
  · have hb : (o.wrapper c).bindings = o.parameters.map Binding.Parameter.binding := Operation.bindings_eq hc o
    rw [ho, hcall, Operation.answer_eq hc, Operation.call?_answerCode, hb, List.map_map]
    rfl

theorem eq_function_of_call? {e : Export} {args args' : List Expr} {name : String}
    (h : e.call? args = some (.function name args')) : ∃ f, e = function f ∧ f.name = name := by
  cases e with
  | function f =>
    cases h
    exact ⟨f, rfl, rfl⟩
  | method struct f =>
    rw [call?] at h
    split at h <;> cases h
  | _ => cases h

theorem isHygienic_iff (hc : c.IsBare) (name : String) (e : Export) :
    (e.wrapperAs c name).IsHygienic ↔ e.KeepsApart := by
  obtain ⟨struct, rfl⟩ | ⟨struct, rfl⟩ | ⟨o, ho, hparameters, hcall, _⟩ := cases_parameters c name e
  · exact iff_of_true ⟨List.forall_mem_singleton.2 nofun, List.pairwise_singleton .., nofun, fun h => absurd rfl h⟩
      ⟨.nil, nofun⟩
  · exact iff_of_true ⟨nofun, .nil, nofun, fun _ => nofun⟩ ⟨.nil, nofun⟩
  · rw [ho, Operation.isHygienic_iff hc, hparameters]
    refine ⟨fun ⟨hpairs, hcallee⟩ => ⟨hpairs, fun f he => ?_⟩, fun ⟨hpairs, hcallee⟩ => ⟨hpairs, fun f args hf => ?_⟩⟩
    · have hf : some (Call.function f.name o.args) = some (o.call o.args) := by rw [← hcall, he]; rfl
      exact hcallee f.name o.args (Option.some.inj hf).symm
    · obtain ⟨g, he, rfl⟩ := eq_function_of_call? ((hcall o.args).trans (congrArg some hf))
      exact hcallee g he

theorem exists_param_of_mem_placed {offset : Nat} {params : List (Param String)} {shapes : List Shape}
    {p : Binding.Parameter} (h : p ∈ Binding.placed offset params shapes) :
    ∃ a ∈ params, ∃ i : Nat, p.name = localName a.name i := by
  obtain ⟨⟨⟨a, s⟩, i⟩, hm, rfl⟩ := List.mem_map.1 h
  exact ⟨a, (List.of_mem_zip (List.fst_mem_of_mem_zipIdx hm)).1, i + 1 + offset, rfl⟩

theorem HasPlainNames.keepsApart {e : Export} (h : e.HasPlainNames) (hparams : Operation.HasDistinctParams e.params) :
    e.KeepsApart where
  params := by
    obtain ⟨struct, rfl⟩ | ⟨struct, rfl⟩ | ⟨o, _, hparameters, _, hp | ⟨a, hp⟩⟩ := cases_parameters {} "" e
    · exact .nil
    · exact .nil
    · rw [← hp] at hparams
      exact hparameters ▸ Operation.pairwise_leftBy hparams (hp ▸ h.params)
    · rw [← hparameters, Operation.parameters, hp]
      cases o.shapes with
      | nil => exact .nil
      | cons s shapes => exact List.pairwise_singleton ..
  callee := by
    rintro f rfl p hp hbinds
    obtain ⟨hnames, htemporary⟩ := h.callee f rfl
    have hprefix : ∀ {r : String}, f.name ≠ "__" ++ r := by
      rintro r hr
      refine htemporary ?_
      rw [hr, String.toList_append]
      exact List.prefix_append _ _
    obtain ⟨a, ha, i, hname⟩ := exists_param_of_mem_placed hp
    obtain hn | ⟨r, hr⟩ := hbinds.eq_name_or
    · rw [hname] at hn
      unfold localName at hn
      split at hn
      · exact hprefix (r := "arg" ++ toString i) (hn.trans (by rw [← String.append_assoc]; rfl))
      · exact hnames (hn ▸ List.mem_map_of_mem ha)
    · exact hprefix hr

end Export

namespace Settings
variable {s : Settings} {d : Document Value} {given : Option String} {m : Module}

/-- Without handlers and without two parameters of one name, every wrapper calls what it is for with the arguments of
    its parameters. The names in this call keep their meaning exactly if no parameter binds a variable again that is passed
    on for one before it, nor the function; and so they do if no parameter has a name that begins with `ptr`, and no
    function the name of a parameter or a temporary. -/
theorem generate_hygienic (h : s.generate d given = .ok m)
    (hbare : (s.moduleFor m.modulePrefix).handlers.entries = [])
    (hparams : ∀ decl ∈ d.decls, ∀ f ∈ decl.functions, f.HasDistinctParams) :
    ∀ w ∈ m.wrappers, ∃ decl ∈ d.decls, ∃ e, decl.Offers e ∧ w = e.wrapper (s.converterFor m) ∧
      w.answer.call? = e.call? (w.bindings.map Binding.arg) ∧
      (w.IsHygienic ↔ e.KeepsApart) ∧ (e.HasPlainNames → w.IsHygienic) := by
  intro w hw
  obtain ⟨decl, hd, e, he, rfl⟩ := offers_of_generate h hw
  have hc : (s.converterFor m).IsBare := Converter.isBare_converter hbare _
  have hdistinct : Operation.HasDistinctParams e.params := by
    obtain hp | ⟨f, hf, g, hg, hp⟩ := he.comesFrom.params
    · rw [hp]
      exact .nil
    · rw [hp]
      exact (hparams decl hd f hf).text hg
  have hiff := Export.isHygienic_iff hc (e.name (s.converterFor m).modulePrefix) e
  exact ⟨decl, hd, e, he, rfl, Export.call?_answer hc _ e, hiff, fun hplain => hiff.2 (hplain.keepsApart hdistinct)⟩

def mergeFunction (items into : String) : Function String :=
  { name := "merge", params := [⟨items, "&[i32]"⟩, ⟨into, "&Counter"⟩] }

theorem generate_hygienic_merge : ∃ m,
    generate {} { decls := [.func ((mergeFunction "items" "counter").map .text)] } none = .ok m ∧
    ∀ w ∈ m.wrappers, w.IsHygienic := by
  have hm : generate {} { decls := [.func ((mergeFunction "items" "counter").map .text)] } none =
    .ok ⟨.text "", "", [(Export.function (mergeFunction "items" "counter")).wrapper {}]⟩ := rfl
  have hdistinct : ((mergeFunction "items" "counter").map Value.text).HasDistinctParams :=
    List.pairwise_pair.2 fun h => absurd (Value.text.inj h) (by decide)
  refine ⟨_, hm, fun w hw => ?_⟩
  obtain ⟨decl, hd, e, he, -, -, -, hplain⟩ := generate_hygienic hm rfl
    (List.forall_mem_singleton.2 (List.forall_mem_singleton.2 hdistinct)) w hw
  obtain rfl := List.mem_singleton.1 hd
  obtain rfl := he.eq_function
  refine hplain ⟨by decide, fun f hf => ?_⟩
  cases hf
  exact ⟨by decide, by decide⟩

def countFunction : Function String := { name := "count", params := [⟨"count", "i32"⟩] }

/-- The parameter hides the function, and the items of the slice and the pointer to the struct are one variable. -/
theorem generate_hides : ∃ m, generate {} { decls := [.func (countFunction.map .text),
      .func ((mergeFunction "ptr_x" "x_vec").map .text)] } none = .ok m ∧
    ∀ w ∈ m.wrappers, ¬ w.IsHygienic := by
  have hm : generate {} { decls := [.func (countFunction.map .text),
      .func ((mergeFunction "ptr_x" "x_vec").map .text)] } none =
    .ok ⟨.text "", "", [(Export.function countFunction).wrapper {},
      (Export.function (mergeFunction "ptr_x" "x_vec")).wrapper {}]⟩ := rfl
  have hnumber : Shape.ofSpelling "i32" = .number .i32 := TypeExpr.ofSpelling_spelling (.number .i32)
  have hitems : Shape.ofSpelling "&[i32]" = .slice (.number .i32) false "&[i32]" :=
    TypeExpr.ofSpelling_spelling (.slice none false (.number .i32))
  have hcounter : Shape.ofSpelling "&Counter" = .reference (.named "Counter" "Counter") false "&Counter" :=
    TypeExpr.ofSpelling_spelling (.reference none false
      (.named [] ⟨⟨'C', ['o', 'u', 'n', 't', 'e', 'r'], by decide, by decide⟩, by decide, by decide⟩ [] []))
  have hhidden : ∀ e : Export, ¬ e.KeepsApart → ¬ (e.wrapper {}).IsHygienic := fun e he h =>
    he ((Export.isHygienic_iff (show Converter.IsBare {} from rfl) _ e).1 h)
  refine ⟨_, hm, List.forall_mem_cons.2 ⟨hhidden _ fun h => ?_, List.forall_mem_singleton.2 (hhidden _ fun h => ?_)⟩⟩
  · have hp : (Export.function countFunction).parameters = [⟨"count", 1, .ofSpelling "i32"⟩] := rfl
    refine h.callee _ rfl _ (hp ▸ List.mem_singleton_self _) (.inl ?_)
    rw [Binding.Parameter.passed, hnumber]
    rfl
  · have hpairs := h.params
    have hp : (Export.function (mergeFunction "ptr_x" "x_vec")).parameters =
        [⟨"ptr_x", 1, .ofSpelling "&[i32]"⟩, ⟨"x_vec", 2, .ofSpelling "&Counter"⟩] := rfl
    rw [hp, hitems, hcounter] at hpairs
    exact List.pairwise_pair.1 hpairs (.inl rfl)

end Settings
end RingBridge
