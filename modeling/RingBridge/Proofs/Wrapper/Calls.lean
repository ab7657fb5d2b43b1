import RingBridge.Proofs.Module.Exports
import RingBridge.Proofs.Wrapper.Locals
import RingBridge.Proofs.Wrapper.Places
/-!
The kinds of wrappers: one frees a struct, one builds its default value, and all others are operations with a call.
-/
namespace RingBridge
open Code Wrapper

def Call.names : Call → List String
  | function x _ | method _ x _ | getField x | setField x _ => [x]
  | associated s x _ => [s, x]
  | verbatim _ => []

theorem Wrapper.Operation.struct_of_receiver {o : Operation} {s : String} (h : o.receiver = some s) : o.struct = some s := by
  unfold receiver at h
  split at h
  · exact (Option.filter_eq_some_iff.1 h).1
  · cases h

namespace Export
variable {c : Converter} {name : String}

def names : Export → List String
  | destructor s | constructor s => [s]
  | getter s x _ | setter s x _ => [s, x]
  | method s f => s :: f.name :: f.params.map Param.name
  | function f => f.name :: f.params.map Param.name

def shapes : Export → List Shape
  | destructor _ | constructor _ => []
  | getter _ _ type | setter _ _ type => [.ofSpelling type]
  | method s f => (f.params.map fun a => (Shape.ofSpelling a.type).resolveSelf (some s)) ++ (methodResult s f).toList
  | function f => (f.params.map fun a => .ofSpelling a.type) ++ (f.result.map Shape.ofSpelling).toList

structure IsCall (c : Converter) (name : String) (e : Export) (o : Operation) : Prop where
  wrapper : e.wrapperAs c name = o.wrapper c
  declared : o.declared = e.declared
  regular : o.IsRegular
  member : e.owner? ≠ some "" → ∀ args, (o.call args).isMember = true → o.receiver ≠ none
  params : o.params = e.params ∨ ∃ p, o.params = [p]

theorem IsCall.distinct {e : Export} {o : Operation} (h : e.IsCall c name o)
    (hparams : Operation.HasDistinctParams e.params) : Operation.HasDistinctParams o.params := by
  obtain hp | ⟨p, hp⟩ := h.params
  · rw [hp]
    exact hparams
  · rw [hp]
    exact List.pairwise_singleton ..

structure IsOperation (c : Converter) (name : String) (e : Export) (o : Operation) : Prop extends e.IsCall c name o where
  lengths : o.shapes.length = o.params.length
  paramNames : ∀ p ∈ o.params, p.name ∈ e.names
  callNames : ∀ args, ∀ x ∈ (o.call args).names, x ∈ e.names
  receiver : ∀ s, o.receiver = some s → e.owner? = some s
  paramShapes : ∀ s ∈ o.shapes, s ∈ e.shapes

theorem declared_mem_shapes {e : Export} {s : Shape} (h : e.declared = some s) : s ∈ e.shapes := by
  cases e with
  | destructor _ | constructor _ | setter _ _ _ => cases h
  | getter struct field type => exact List.mem_singleton.2 (Option.some.inj h).symm
  | method struct f =>
    have h : methodResult struct f = some s := h
    exact List.mem_append_right _ (by rw [h]; exact List.mem_singleton_self s)
  | function f =>
    have h : f.result.map Shape.ofSpelling = some s := h
    exact List.mem_append_right _ (by rw [h]; exact List.mem_singleton_self s)

theorem filter_owner_ne_none {struct : String} (h : some struct ≠ some "") :
    (some struct).filter (fun s => !s.isEmpty) ≠ none := by
  simpa using h

theorem isOperation_getter (c : Converter) (name struct field type : String) :
    ∃ o, IsOperation c name (getter struct field type) o := by
  refine ⟨_, ⟨rfl, rfl, ⟨fun _ => rfl, nofun⟩, fun h _ _ => filter_owner_ne_none h, .inl rfl⟩, rfl, nofun, ?_, ?_,
    nofun⟩
  · exact fun _ x hx => List.mem_cons_of_mem _ hx
  · exact fun s hs => Operation.struct_of_receiver hs

theorem isOperation_setter (c : Converter) (name struct field type : String) :
    ∃ o, IsOperation c name (setter struct field type) o := by
  refine ⟨_, ⟨rfl, rfl, ⟨fun _ => rfl, fun args e he => ?_⟩, fun h _ _ => filter_owner_ne_none h, .inr ⟨_, rfl⟩⟩, rfl,
    ?_, ?_, ?_, ?_⟩
  · rw [List.mem_singleton.1 he]
    cases args with
    | nil => exact .inr rfl
    | cons a as => exact .inl (List.mem_cons_self ..)
  · exact List.forall_mem_singleton.2 (List.mem_cons_of_mem _ (List.mem_singleton_self _))
  · exact fun _ x hx => List.mem_cons_of_mem _ hx
  · exact fun s hs => Operation.struct_of_receiver hs
  · exact fun _ hs => hs

theorem isOperation_method (c : Converter) (name struct : String) (f : Function String) :
    ∃ o, IsOperation c name (method struct f) o := by
  refine ⟨_, ⟨rfl, ?_, ⟨fun _ => ?_, fun _ _ he => .inl ?_⟩, fun h _ hm => ?_, .inl rfl⟩, ?_, ?_, fun _ x hx => ?_,
    fun s hs => Operation.struct_of_receiver hs, ?_⟩
  · cases h : f.result <;> simp [Operation.declared, declared, methodResult, Converter.shapeOf, h]
  · cases hr : f.receiver.isPresent <;> rfl
  · cases hr : f.receiver.isPresent <;> simpa [hr, Call.args] using he
  · cases hr : f.receiver.isPresent with
    | true => simpa [Operation.receiver, hr] using filter_owner_ne_none h
    | false => simp [hr, Call.isMember] at hm
  · exact List.length_map _
  · exact fun p hp => List.mem_cons_of_mem _ (List.mem_cons_of_mem _ (List.mem_map_of_mem hp))
  · have hnames : x = struct ∨ x = f.name := by
      cases hr : f.receiver.isPresent with
      | true => exact .inr (by simpa [hr, Call.names] using hx)
      | false => simpa [hr, Call.names] using hx
    exact List.mem_cons.2 (hnames.imp_right fun h => List.mem_cons.2 (.inl h))
  · exact fun s hs => List.mem_append_left _ hs

theorem isOperation_function (c : Converter) (name : String) (f : Function String) :
    ∃ o, IsOperation c name (function f) o := by
  refine ⟨_, ⟨rfl, ?_, ⟨fun _ => rfl, fun _ _ he => .inl he⟩, fun _ => nofun, .inl rfl⟩, ?_, ?_, ?_, nofun, ?_⟩
  · cases h : f.result <;> simp [Operation.declared, declared, Converter.shapeOf, h]
  · exact List.length_map _
  · exact fun p hp => List.mem_cons_of_mem _ (List.mem_map_of_mem hp)
  · exact fun _ x hx => List.mem_cons.2 (.inl (List.mem_singleton.1 hx))
  · exact fun s hs => List.mem_append_left _ hs

/-- An export frees a struct, builds its default value, or is an operation. -/
theorem cases_operation (c : Converter) (name : String) (e : Export) :
    (∃ struct, e = destructor struct) ∨ (∃ struct, e = constructor struct) ∨ ∃ o, e.IsOperation c name o := by
  cases e with
  | destructor struct => exact .inl ⟨struct, rfl⟩
  | constructor struct => exact .inr (.inl ⟨struct, rfl⟩)
  | getter struct field type => exact .inr (.inr (isOperation_getter c name struct field type))
  | setter struct field type => exact .inr (.inr (isOperation_setter c name struct field type))
  | method struct f => exact .inr (.inr (isOperation_method c name struct f))
  | function f => exact .inr (.inr (isOperation_function c name f))

variable {result : Option Shape} {P : Use → Store → Prop}

/-- A destructor comes to one use, of the pointer that it has tested. -/
theorem destructor_along (c : Converter) (name struct : String)
    (h : ∀ τ : Store, τ "ptr" = some (.tested struct) → P (.follow "ptr" (some struct)) τ) :
    Along P result ((destructor struct).wrapperAs c name).body Store.empty fun _ _ => True := by
  apply Along.seq
  apply Along.seq
  apply Along.idle rfl rfl
  apply Along.idle rfl rfl
  apply Along.seq
  apply Along.skip
  apply Along.seq
  apply Along.skip
  apply Along.seq
  apply Along.bind
  · intro u τ hm
    cases hm
  · intro g hg
    rw [List.mem_singleton.1 hg]
    apply Along.when _ trivial
    apply Along.seq
    apply Along.line
    · intro u τ hm
      obtain ⟨rfl, rfl⟩ := Prod.mk.inj (List.mem_singleton.1 hm)
      exact h _ (by simp [Store.learn])
    · intro τ g _
      exact Along.idle rfl rfl trivial

/-- A constructor hands out the default value of its struct. -/
theorem constructor_along (c : Converter) (name struct : String)
    (h : ∀ τ, P (.hand (.box (.defaultOf struct)) struct) τ) :
    Along P result ((constructor struct).wrapperAs c name).body Store.empty fun _ _ => True := by
  apply Along.seq
  apply Along.idle rfl rfl
  apply Along.seq
  apply Along.skip
  apply Along.seq
  apply Along.skip
  apply Along.line _ fun _ _ _ => trivial
  intro u τ hm
  obtain ⟨rfl, _⟩ := Prod.mk.inj (List.mem_singleton.1 hm)
  exact h τ

/-- What holds along destructors, constructors and operations with a call holds along every wrapper. -/
theorem along_of_calls (c : Converter) (name : String) (e : Export)
    (hfree : ∀ struct τ, τ "ptr" = some (.tested struct) → P (.follow "ptr" (some struct)) τ)
    (hdefault : ∀ struct τ, P (.hand (.box (.defaultOf struct)) struct) τ)
    (hcall : ∀ o, e.IsCall c name o → Along P result (o.wrapper c).body Store.empty fun _ _ => True) :
    Along P result (e.wrapperAs c name).body Store.empty fun _ _ => True := by
  obtain ⟨struct, rfl⟩ | ⟨struct, rfl⟩ | ⟨o, ho⟩ := cases_operation c name e
  · exact destructor_along c name struct (hfree struct)
  · exact constructor_along c name struct (hdefault struct)
  · rw [ho.wrapper]
    exact hcall o ho.toIsCall

end Export
end RingBridge
