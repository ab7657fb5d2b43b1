import RingBridge.Proofs.Module.Hygiene
import RingBridge.Proofs.Module.Ignored
/-!
One more handler. A handler is registered for the normal form of a spelling, and a type is looked up by its own, as a
whole. So a handler for a new form takes the parameters and results of that form, however they are spaced, and changes
no wrapper without them, not even one with types that contain its own.
-/
namespace RingBridge
open Spelling Wrapper

namespace Export

def inputs : Export → List (Param String)
  | destructor _ | constructor _ | getter _ _ _ => []
  | setter _ field type => [⟨field, type⟩]
  | method _ f | function f => f.params

def output? : Export → Option String
  | destructor _ | constructor _ | setter _ _ _ => none
  | getter _ _ type => some type
  | method _ f | function f => f.result

def types (e : Export) : List String := e.inputs.map Param.type ++ e.output?.toList

/-- The wrapper of an export does not depend on types, or it is that of an operation with the export's own. -/
theorem exists_operation (e : Export) (name : String) :
    (e.inputs = [] ∧ e.output? = none ∧ ∀ c c', e.wrapperAs c' name = e.wrapperAs c name) ∨
    ∃ o : Operation, (∀ c, e.wrapperAs c name = o.wrapper c) ∧ o.params = e.inputs ∧ o.result = e.output? ∧
      o.shapes.length = o.params.length ∧ ∀ args, e.call? args = some (o.call args) := by
  cases e with
  | destructor struct | constructor struct => exact .inl ⟨rfl, rfl, fun _ _ => rfl⟩
  | getter struct field type => exact .inr ⟨_, fun _ => rfl, rfl, rfl, rfl, fun _ => rfl⟩
  | setter struct field type => exact .inr ⟨_, fun _ => rfl, rfl, rfl, rfl, fun _ => rfl⟩
  | method struct f =>
    refine .inr ⟨_, fun _ => rfl, rfl, rfl, List.length_map _, fun args => ?_⟩
    cases hr : f.receiver.isPresent <;> simp [call?, hr]
  | function f => exact .inr ⟨_, fun _ => rfl, rfl, rfl, List.length_map _, fun _ => rfl⟩

end Export

namespace Converter
variable {c c' : Converter} {type : String} {result : Option String}

theorem resultHandler?_congr (h : ∀ type ∈ result, c'.handler? type = c.handler? type) :
    c'.resultHandler? result = c.resultHandler? result := by
  cases result with
  | none => rfl
  | some type => rw [resultHandler?, resultHandler?, h type rfl]

theorem bind_congr (hnames : c'.modulePrefix = c.modulePrefix) (h : c'.handler? type = c.handler? type) (name : String)
    (idx : Int) (shape : Option Shape) : c'.bind type name idx shape = c.bind type name idx shape := by
  rw [bind, bind, h, hnames]

theorem answer_congr (hnames : c'.modulePrefix = c.modulePrefix) (h : ∀ type ∈ result, c'.handler? type = c.handler? type)
    (call : Call) (shape : Option Shape) (n : NameScope) : c'.answer result call shape n = c.answer result call shape n := by
  rw [answer, answer, resultHandler?_congr h, hnames]

theorem kindText_congr (h : ∀ type ∈ result, c'.handler? type = c.handler? type) (shape : Option Shape) :
    c'.kindText result shape = c.kindText result shape := by
  rw [kindText, kindText, resultHandler?_congr h]

/-- An operation is wrapped alike by two converters that have the same handlers for its types. -/
theorem wrapper_congr (hnames : c'.modulePrefix = c.modulePrefix) {o : Operation}
    (hparams : ∀ p ∈ o.params, c'.handler? p.type = c.handler? p.type)
    (hresult : ∀ type ∈ o.result, c'.handler? type = c.handler? type) : o.wrapper c' = o.wrapper c := by
  have hbindings : Operation.bindings c' o.offset (o.params.zip o.shapes) =
      Operation.bindings c o.offset (o.params.zip o.shapes) := by
    refine List.map_congr_left fun x hx => ?_
    obtain ⟨⟨p, s⟩, i⟩ := x
    have hp : p ∈ o.params := (List.of_mem_zip (List.fst_mem_of_mem_zipIdx hx)).1
    exact bind_congr hnames (hparams p hp) ..
  have hregistration : o.registration c' = o.registration c := by
    have hkinds : (o.registration c').params = (o.registration c).params := by
      refine congrArg (Operation.selfParam o.receiver ++ ·) (List.map_congr_left fun x hx => ?_)
      have hp : x.1 ∈ o.params := (List.of_mem_zip hx).1
      exact congrArg _ (kindText_congr (fun type htype => Option.some.inj htype ▸ hparams _ hp) _)
    rw [Operation.registration, Operation.registration, Registration.mk.injEq]
    exact ⟨rfl, rfl, hkinds, kindText_congr hresult _, rfl, rfl⟩
  rw [Operation.wrapper, Operation.wrapper, hbindings, hregistration, answer_congr hnames hresult]

theorem handler?_register_of_ne {T : String} {h : Handler} (hne : normalize type.toList ≠ normalize T.toList) :
    (c.register T h).handler? type = c.handler? type := Table.find?_put_of_ne hne

theorem handler?_register_self {T : String} {h : Handler} (heq : normalize type.toList = normalize T.toList) :
    (c.register T h).handler? type = some h := by
  rw [handler?, heq]
  exact Table.find?_put_self ..

theorem resultHandler?_eq_some {h : Handler} (hhandler : c.handler? type = some h) (hne : normalize type.toList ≠ []) :
    c.resultHandler? (some type) = some (type, h) := by
  have hempty : type.isEmpty = false := by
    refine Bool.eq_false_iff.2 fun hempty => hne ?_
    rw [String.isEmpty_iff.1 hempty]
    rfl
  rw [resultHandler?, hempty, if_neg Bool.false_ne_true, hhandler]
  rfl

end Converter

namespace Wrapper

def offset (w : Wrapper) : Nat := if w.receiver.isSome then 1 else 0

/-- A handler has the parameters and the result of an export whose types are of one form: it binds these parameters,
    in the places that they have anyway, it answers the value of the call, and both are registered as what it says. -/
structure LeavesTo (w : Wrapper) (h : Handler) (form : List Char) (modulePrefix : String) (e : Export) : Prop where
  input : ∀ (i : Nat) (p : Param String), e.inputs[i]? = some p → normalize p.type.toList = form →
    w.bindings[i]? = some
      (h.bind ⟨(i + 1 + w.offset : Nat), localName p.name (i + 1 + w.offset : Nat), p.type, modulePrefix⟩) ∧
    w.registration.params[w.offset + i]? = some (p.name, h.kind)
  output : ∀ type, e.output? = some type → normalize type.toList = form →
    w.registration.result = h.kind ∧ ∃ call, e.call? (w.bindings.map Binding.arg) = some call ∧
      w.answer = .seq (.line (.bindCall "__result" call)) (.fragment (h.answer ⟨0, "__result", type, modulePrefix⟩))

/-- A wrapper that converts nothing leaves nothing to a handler. -/
theorem LeavesTo.of_no_types {w : Wrapper} {h : Handler} {form : List Char} {modulePrefix : String} {e : Export}
    (hinputs : e.inputs = []) (houtput : e.output? = none) : w.LeavesTo h form modulePrefix e where
  input := by
    rw [hinputs]
    nofun
  output := by
    rw [houtput]
    nofun

namespace Operation
variable {c : Converter} {o : Operation} {h : Handler} {type : String}

theorem length_selfParam (o : Operation) : (selfParam o.receiver).length = o.offset := by
  rw [offset]
  cases o.receiver <;> rfl

/-- An operation leaves to the handler of a type the parameters and the result that have it. -/
theorem wrapper_leavesTo {form : List Char} (hform : form ≠ [])
    (hhandler : ∀ type : String, normalize type.toList = form → c.handler? type = some h)
    (hlengths : o.shapes.length = o.params.length) {e : Export} (hinputs : o.params = e.inputs)
    (houtput : o.result = e.output?) (hcall : ∀ args, e.call? args = some (o.call args)) :
    (o.wrapper c).LeavesTo h form c.modulePrefix e where
  input := by
    intro i p hp hform'
    rw [← hinputs] at hp
    obtain ⟨hi, rfl⟩ := List.getElem?_eq_some_iff.1 hp
    have hzip : (o.params.zip o.shapes)[i]? = some (o.params[i], o.shapes[i]) := by
      rw [List.getElem?_zip_eq_some]
      exact ⟨hp, List.getElem?_eq_getElem _⟩
    have hfound := hhandler _ hform'
    constructor
    · show ((o.params.zip o.shapes).zipIdx.map _)[i]? = _
      rw [List.getElem?_map, List.getElem?_zipIdx, hzip]
      show some (c.bind _ _ _ _) = _
      rw [Converter.bind, hfound, Nat.zero_add]
      rfl
    · show (selfParam o.receiver ++ (o.params.zip o.shapes).map _)[(o.wrapper c).offset + i]? = _
      have hoffset : (o.wrapper c).offset = (selfParam o.receiver).length := o.length_selfParam.symm
      rw [hoffset, List.getElem?_append_right (Nat.le_add_right ..), Nat.add_sub_cancel_left, List.getElem?_map, hzip]
      show some (_, c.kindText _ _) = _
      rw [Converter.kindText, Converter.resultHandler?_eq_some hfound (hform' ▸ hform)]
  output := by
    intro type htype hform'
    rw [← houtput] at htype
    have hresult : c.resultHandler? o.result = some (type, h) := by
      rw [htype]
      exact Converter.resultHandler?_eq_some (hhandler _ hform') (hform' ▸ hform)
    refine ⟨?_, _, hcall _, ?_⟩
    · show c.kindText o.result _ = _
      rw [Converter.kindText, hresult]
    · show (c.answer o.result _ _).1 = _
      rw [Converter.answer, hresult]
      rfl

end Operation
end Wrapper

theorem Document.joining_of_joinedPrefix {d : Document Value} {given : Option String} {joined : String}
    (h : d.joinedPrefix given = .ok joined) : Name.joining joined = joined := by
  unfold joinedPrefix at h
  split at h
  · exact Except.ok.inj h ▸ Name.joining_joining _
  · split at h
    · exact Except.ok.inj h ▸ Name.joining_joining _
    · split at h
      · cases h
      · exact Except.ok.inj h ▸ rfl

namespace Settings
variable {s : Settings} {d : Document Value} {given : Option String} {m : Module} {stem T joined : String} {h : Handler}

theorem moduleFor_handle (s : Settings) (stem T : String) (h : Handler) : (s.handle stem T h).moduleFor stem =
    { s.moduleFor stem with handlers := (s.moduleFor stem).handlers.put T h } := by
  rw [moduleFor, handle, setModule, Table.find?_put_self]
  rfl

theorem moduleFor_handle_of_ne (hne : Name.joining joined ≠ Name.joining stem) :
    (s.handle stem T h).moduleFor joined = s.moduleFor joined := by
  rw [moduleFor, handle, setModule, Table.find?_put_of_ne hne]
  rfl

theorem generate_eq_error {error : TextError} : s.generate d given = .error error ↔
    d.joinedPrefix given = .error error ∨
      ∃ joined, d.joinedPrefix given = .ok joined ∧ s.exports d joined = .error error := by
  rw [generate, Except.bind_eq_error_iff]
  simp only [Except.bind_eq_error_iff, pure, Except.pure, reduceCtorEq, and_false, exists_false, or_false]

/-- What is exported does not depend on handlers. -/
theorem exports_handle (s : Settings) (d : Document Value) (stem T joined : String) (h : Handler) :
    (s.handle stem T h).exports d joined = s.exports d joined := by
  have hignored : ((s.handle stem T h).moduleFor joined).ignored = (s.moduleFor joined).ignored := by
    by_cases heq : Name.joining joined = Name.joining stem
    · rw [← moduleFor_joining, heq, moduleFor_joining, moduleFor_handle, ← s.moduleFor_joining joined, heq,
        moduleFor_joining]
    · rw [moduleFor_handle_of_ne heq]
  rw [exports, exports, plan, plan, hignored]
  rfl

/-- A handler for a new spelling is the last to be registered. -/
theorem converter_put (ms : ModuleSettings) (modulePrefix : String) (hnew : T ∉ ms.handlers.keys) :
    converter { ms with handlers := ms.handlers.put T h } modulePrefix = (converter ms modulePrefix).register T h := by
  rw [converter, Table.entries_put_of_notMem hnew, List.foldl_append]
  rfl

theorem converterFor_handle (hnew : T ∉ (s.moduleFor stem).handlers.keys) (hstem : Name.joining stem = m.modulePrefix) :
    (s.handle stem T h).converterFor m = (s.converterFor m).register T h := by
  have hmodule : ∀ s : Settings, s.moduleFor m.modulePrefix = s.moduleFor stem := by
    intro s
    rw [← hstem, moduleFor_joining]
  rw [converterFor, converterFor, hmodule, hmodule, moduleFor_handle, converter_put _ _ hnew]

/-- What a handler for a new form does to the wrapper of an export, in a module with any prefix. -/
theorem wrapper_handle (hform : normalize T.toList ≠ []) (hnew : T ∉ (s.moduleFor stem).handlers.keys)
    (hjoined : Name.joining m.modulePrefix = m.modulePrefix) (e : Export) :
    ((∀ type ∈ e.types, normalize type.toList ≠ normalize T.toList) →
      e.wrapper ((s.handle stem T h).converterFor m) = e.wrapper (s.converterFor m)) ∧
    (Name.joining stem = m.modulePrefix →
      (e.wrapper ((s.handle stem T h).converterFor m)).LeavesTo h (normalize T.toList) m.modulePrefix e) := by
  have hnames : ∀ s : Settings, (s.converterFor m).modulePrefix = m.modulePrefix :=
    fun s => modulePrefix_converter _ _
  rw [Export.wrapper, Export.wrapper, hnames, hnames]
  constructor
  · intro htypes
    have hhandler : ∀ type ∈ e.types,
        ((s.handle stem T h).converterFor m).handler? type = (s.converterFor m).handler? type := by
      intro type htype
      by_cases hstem : Name.joining stem = m.modulePrefix
      · rw [converterFor_handle hnew hstem, Converter.handler?_register_of_ne (htypes type htype)]
      · rw [converterFor, moduleFor_handle_of_ne (hjoined.trans_ne (Ne.symm hstem)), converterFor]
    obtain ⟨-, -, hconstant⟩ | ⟨o, ho, hinputs, houtput, -, -⟩ := e.exists_operation (e.name m.modulePrefix)
    · exact hconstant _ _
    · rw [ho, ho]
      refine Converter.wrapper_congr ((hnames _).trans (hnames _).symm) (fun p hp => ?_) fun type htype => ?_
      · exact hhandler _ (List.mem_append_left _ (List.mem_map_of_mem (hinputs ▸ hp)))
      · exact hhandler _ (List.mem_append_right _ (Option.mem_toList.2 (houtput ▸ htype)))
  · intro hstem
    obtain ⟨hinputs, houtput, -⟩ | ⟨o, ho, hinputs, houtput, hlengths, hcall⟩ :=
      e.exists_operation (e.name m.modulePrefix)
    · exact .of_no_types hinputs houtput
    · rw [ho]
      have hhandler : ∀ type : String, normalize type.toList = normalize T.toList →
          ((s.handle stem T h).converterFor m).handler? type = some h := by
        intro type htype
        rw [converterFor_handle hnew hstem, Converter.handler?_register_self htype]
      have hleaves := Operation.wrapper_leavesTo hform hhandler hlengths hinputs houtput hcall
      rwa [hnames] at hleaves

/-- A handler is registered for a form that no other has been registered for. A document then leads to the same error as
    without it, or to the same exports. The wrapper of an export, and with it what is registered and the text, is the
    same if none of its types has this form. In a module under the prefix of the handler, it is the handler that has
    all parameters and results of this form. -/
theorem generate_handle (hform : normalize T.toList ≠ [])
    (hnew : ∀ U ∈ (s.moduleFor stem).handlers.keys, normalize U.toList ≠ normalize T.toList) :
    (∀ error, s.generate d given = .error error → (s.handle stem T h).generate d given = .error error) ∧
    ∀ m, s.generate d given = .ok m → ∃ es, s.exports d m.modulePrefix = .ok es ∧
      m.wrappers = es.map (Export.wrapper (s.converterFor m)) ∧
      (s.handle stem T h).generate d given =
        .ok { m with wrappers := es.map (Export.wrapper ((s.handle stem T h).converterFor m)) } ∧
      ∀ e ∈ es,
        ((∀ type ∈ e.types, normalize type.toList ≠ normalize T.toList) →
          e.wrapper ((s.handle stem T h).converterFor m) = e.wrapper (s.converterFor m)) ∧
        (Name.joining stem = m.modulePrefix →
          (e.wrapper ((s.handle stem T h).converterFor m)).LeavesTo h (normalize T.toList) m.modulePrefix e) := by
  refine ⟨fun error herror => ?_, fun m hm => ?_⟩
  · obtain herror | ⟨joined, hjoined, herror⟩ := generate_eq_error.1 herror
    · exact generate_eq_error.2 (.inl herror)
    · exact generate_eq_error.2 (.inr ⟨joined, hjoined, (exports_handle ..).trans herror⟩)
  · have hspelling : T ∉ (s.moduleFor stem).handlers.keys := fun hT => hnew T hT rfl
    obtain ⟨joined, hjoined, h'⟩ := Except.exists_of_bind_eq_ok hm
    obtain ⟨es, hes, h'⟩ := Except.exists_of_bind_eq_ok h'
    cases h'
    refine ⟨es, hes, rfl, ?_, fun e _ => wrapper_handle hform hspelling (Document.joining_of_joinedPrefix hjoined) e⟩
    rw [generate, hjoined]
    show ((s.handle stem T h).exports d joined >>= fun es => _) = _
    rw [exports_handle, hes]
    rfl

def paletteDocument : Document String where
  decls := [
    .func { name := "blend", params := [⟨"share", "f64"⟩, ⟨"tints", "Vec < Color >"⟩], result := some "Vec<Color>" },
    .func { name := "spread", params := [⟨"rows", "Vec<Vec<Color>>"⟩] }]

def paletteHandler : Handler where
  bind site := { checks := [.check .list site.idx], arg := .var site.var }
  answer _ := .skip
  kind := "palette"

/-- Single colors have a handler already. The one for lists of colors has the second argument and the result of the first
    function, and nothing of the second one. -/
theorem generate_handle_palette : ∃ m w w' last, normalize " Vec<Color > ".toList ≠ [] ∧
    (∀ U ∈ (((({} : Settings).handle "paint" "Color" paletteHandler).moduleFor "paint_").handlers.keys),
      normalize U.toList ≠ normalize " Vec<Color > ".toList) ∧
    generate (({} : Settings).handle "paint" "Color" paletteHandler) (paletteDocument.map .text) (some "paint") = .ok m ∧
    m.wrappers = [w, last] ∧
    ((({} : Settings).handle "paint" "Color" paletteHandler).handle "paint_" " Vec<Color > " paletteHandler).generate
      (paletteDocument.map .text) (some "paint") = .ok { m with wrappers := [w', last] } ∧
    w'.bindings[1]? = some (paletteHandler.bind ⟨2, "tints", "Vec < Color >", "paint_"⟩) ∧
    w'.registration.result = "palette" := by
  let s : Settings := ({} : Settings).handle "paint" "Color" paletteHandler
  have hform : normalize " Vec<Color > ".toList ≠ [] := by decide +kernel
  have hnew : ∀ U ∈ (s.moduleFor "paint_").handlers.keys, normalize U.toList ≠ normalize " Vec<Color > ".toList := by
    decide +kernel
  obtain ⟨-, hmodules⟩ := @generate_handle s (paletteDocument.map .text) (some "paint") "paint_" " Vec<Color > "
    paletteHandler hform hnew
  obtain ⟨m, hm, hnames⟩ := @exists_generate s paletteDocument (some "paint") "paint_" rfl
  obtain ⟨es, hes, hwrappers, hgenerate, heach⟩ := hmodules m hm
  rw [hnames] at hes heach
  have hes : es = paletteDocument.funcs.map .function := Except.ok.inj (hes.symm.trans rfl)
  subst hes
  obtain ⟨-, hblend⟩ := heach _ (.head _)
  obtain ⟨hspread, -⟩ := heach _ (.tail _ (.head _))
  refine ⟨m, _, _, _, hform, hnew, hm, hwrappers, hgenerate.trans ?_, ((hblend rfl).input 1 _ rfl ?_).1,
    ((hblend rfl).output _ rfl ?_).1⟩
  · rw [← hspread (by decide +kernel)]
    rfl
  · decide +kernel
  · decide +kernel

end Settings
end RingBridge
