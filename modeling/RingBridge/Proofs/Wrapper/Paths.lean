import RingBridge.Module
import RingBridge.Proofs.Binding.Arguments
/-!
Control paths of whole wrappers without handlers: the checks, the receiver, the parameters one after the other, and
then the answer.
-/
namespace RingBridge
open Code

namespace Converter

def IsBare (c : Converter) : Prop := c.handlers.entries = []

variable {c : Converter}

theorem IsBare.handler? (h : c.IsBare) (type : String) : c.handler? type = none := by
  rw [Converter.handler?, Table.find?, show c.handlers.entries = [] from h]
  rfl

theorem IsBare.bind_eq (h : c.IsBare) (type name : String) (idx : Int) (s : Shape) :
    c.bind type name idx (some s) = .ofShape name idx s := by
  rw [bind, h.handler?]
  rfl

theorem IsBare.resultHandler? (h : c.IsBare) (type : Option String) : c.resultHandler? type = none := by
  cases type with
  | none => rfl
  | some t => simp [Converter.resultHandler?, h.handler?]

theorem IsBare.answer_eq (h : c.IsBare) (type : Option String) (call : Call) (s : Option Shape) (n : NameScope) :
    c.answer type call s n = Answer.ofCall (shapeOf type s) call n := by
  rw [answer, h.resultHandler?]

theorem IsBare.kindText_eq (h : c.IsBare) (type : Option String) (s : Option Shape) :
    c.kindText type s = Shape.kindText? (shapeOf type s) := by
  rw [kindText, h.resultHandler?]

theorem isBare_converter {m : ModuleSettings} (h : m.handlers.entries = []) (modulePrefix : String) :
    (Settings.converter m modulePrefix).IsBare := by
  rw [IsBare, Settings.converter, h]
  rfl

end Converter

namespace Binding
variable {result : Option Shape}

structure Parameter where
  name : String
  idx : Int
  shape : Shape

namespace Parameter

def binding (p : Parameter) : Binding := ofShape p.name p.idx p.shape

def pointers (p : Parameter) : List (String × String) := Binding.pointers p.name p.shape

def Spares (R : Store → String × String → Prop) (p : Parameter) (q : String × String) : Prop :=
  ∀ σ τ, Store.Settles [p.name] p.pointers σ τ → R σ q → R τ q

end Parameter

/-- The parameters in front have left the pointers `qs`; each parameter adds its own. -/
theorem gets_along {R : Store → String × String → Prop} (hown : ∀ τ q, Follows τ q → R τ q) (ps : List Parameter) :
    ∀ qs σ, (∀ q ∈ qs, R σ q) → (∀ p ∈ ps, ∀ q ∈ qs, p.Spares R q) →
      ps.Pairwise (fun p p' => ∀ q ∈ p.pointers, p'.Spares R q) →
      Along Use.Fits result (ofList (((ps.map Parameter.binding).flatMap Binding.gets).map fragment)) σ
        fun τ _ => Store.Settles (ps.map Parameter.name) (ps.flatMap Parameter.pointers) σ τ ∧
          ∀ q ∈ qs ++ ps.flatMap Parameter.pointers, R τ q := by
  induction ps with
  | nil =>
    intro qs σ hqs _ _
    exact Along.skip ⟨.refl, by simpa using hqs⟩
  | cons p ps ih =>
    intro qs σ hqs hspares hpairs
    obtain ⟨hhead, htail⟩ := List.pairwise_cons.1 hpairs
    rw [List.map_cons, List.flatMap_cons, List.map_append]
    apply Along.ofList_append
    apply (ofShape_binds p.name p.idx p.shape σ).weaken
    intro ρ _ hρ
    have hqs' : ∀ q ∈ qs ++ p.pointers, R ρ q := by
      intro q hq
      cases List.mem_append.1 hq with
      | inl hq => exact hspares p (List.mem_cons_self ..) q hq σ ρ hρ.settles (hqs q hq)
      | inr hq => exact hown ρ q (hρ.follows q hq)
    have hspares' : ∀ p' ∈ ps, ∀ q ∈ qs ++ p.pointers, p'.Spares R q := by
      intro p' hp' q hq
      cases List.mem_append.1 hq with
      | inl hq => exact hspares p' (List.mem_cons_of_mem p hp') q hq
      | inr hq => exact hhead p' hp' q hq
    apply (ih _ ρ hqs' hspares' htail).weaken
    intro τ _ ⟨hs, hR⟩
    refine ⟨hρ.settles.trans hs, ?_⟩
    rwa [List.append_assoc] at hR

theorem isCheck_checks (name : String) (idx : Int) : (s : Shape) → ∀ st ∈ (ofShape name idx s).checks, ∃ k, st = .check k idx
  | .number _ | .boolean | .text _ | .unit | .result _ _ | .tuple _ _ | .mapping _ _ _ | .unknown _ | .named _ _
  | .vector _ _ | .slice _ _ _ => fun _ hm => ⟨_, List.mem_singleton.1 hm⟩
  | .option _ _ => fun _ hm => by cases hm
  | .boxed t _ => isCheck_checks name idx t
  | .reference t m _ => by
    have ih := isCheck_checks name idx t
    cases t with
    | named s _ => exact fun _ hm => ⟨_, List.mem_singleton.1 hm⟩
    | _ => exact ih

end Binding

namespace Call

def args : Call → List Expr
  | function _ args | associated _ _ args | method _ _ args => args
  | setField _ value => [value]
  | verbatim _ | getField _ => []

def isMember : Call → Bool
  | method _ _ _ | getField _ | setField _ _ => true
  | _ => false

def isKnown : Call → Bool
  | verbatim _ => false
  | _ => true

/-- A call uses what its arguments use, and the receiver if it is a member. -/
theorem mem_uses {call : Call} (hk : call.isKnown = true) {u : Use} {σ τ : Store} (h : (u, τ) ∈ call.uses σ) :
    (∃ e ∈ call.args, (u, τ) ∈ e.uses σ) ∨ (call.isMember = true ∧ u = .object ∧ τ = σ) := by
  cases call with
  | verbatim code => cases hk
  | function name args => exact .inl (List.mem_flatMap.1 h)
  | associated struct name args => exact .inl (List.mem_flatMap.1 h)
  | method byValue name args =>
    cases List.mem_append.1 h with
    | inl h => exact .inl (List.mem_flatMap.1 h)
    | inr h => exact .inr ⟨rfl, Prod.mk.inj (List.mem_singleton.1 h)⟩
  | getField name => exact .inr ⟨rfl, Prod.mk.inj (List.mem_singleton.1 h)⟩
  | setField name value =>
    cases List.mem_append.1 h with
    | inl h => exact .inl ⟨value, List.mem_singleton_self _, h⟩
    | inr h => exact .inr ⟨rfl, Prod.mk.inj (List.mem_singleton.1 h)⟩

end Call

namespace Wrapper

theorem isReserved_obj : isReserved "obj" = true := by decide

/-- No parameter takes the name of the receiver. -/
theorem localName_ne_obj (name : String) (idx : Int) : localName name idx ≠ "obj" := by
  unfold localName
  split
  · intro h
    have h : ("__arg" ++ toString idx).toList = "obj".toList := congrArg String.toList h
    simp at h
  · next hn =>
    intro h
    subst h
    exact hn (by simp [isReserved_obj])

theorem obj_not_isTemporary : ¬ Name.IsTemporary "obj" := by
  intro ⟨r, hr⟩
  have := congrArg String.toList hr
  simp at this

def received : Option String → Store
  | some s => Store.empty.set "obj" (.tested s)
  | none => Store.empty

namespace Operation
variable {result : Option Shape}

def parameters (o : Operation) : List Binding.Parameter :=
  (o.params.zip o.shapes).zipIdx.map fun ((p, s), i) => ⟨localName p.name (i + 1 + o.offset), i + 1 + o.offset, s⟩

theorem bindings_eq {c : Converter} (h : c.IsBare) (o : Operation) :
    bindings c o.offset (o.params.zip o.shapes) = o.parameters.map Binding.Parameter.binding := by
  rw [bindings, parameters, List.map_map]
  apply List.map_congr_left
  intro ⟨⟨p, s⟩, i⟩ _
  exact h.bind_eq ..

/-- The call of an operation passes on arguments it is given, or nothing. -/
structure IsRegular (o : Operation) : Prop where
  known : ∀ args, (o.call args).isKnown = true
  args : ∀ args, ∀ e ∈ (o.call args).args, e ∈ args ∨ e = .none

theorem name_ne_obj (o : Operation) {p : Binding.Parameter} (hp : p ∈ o.parameters) : p.name ≠ "obj" := by
  obtain ⟨⟨⟨q, s⟩, i⟩, _, rfl⟩ := List.mem_map.1 hp
  exact localName_ne_obj q.name _

def declared (o : Operation) : Option Shape := Converter.shapeOf o.result (Converter.shapeOf o.result o.resultShape)

def args (o : Operation) : List Expr := o.parameters.map fun p => p.binding.arg

def checks (o : Operation) : List Stmt :=
  receiverChecks o.receiver ++ (o.parameters.map Binding.Parameter.binding).flatMap Binding.checks

def gets (o : Operation) : Code :=
  ofList (((o.parameters.map Binding.Parameter.binding).flatMap Binding.gets).map fragment)

def answerCode (o : Operation) : Code := (Answer.ofCall o.declared (o.call o.args) {}).1

theorem answer_eq {c : Converter} (hc : c.IsBare) (o : Operation) : (wrapper c o).answer = o.answerCode := by
  simp only [wrapper, bindings_eq hc, List.map_map]
  rw [hc.answer_eq]
  rfl

theorem body_eq {c : Converter} (hc : c.IsBare) (o : Operation) : (wrapper c o).body =
    .seq (Code.lines (.checkCount (o.params.length + o.offset) :: o.checks))
      (.seq (receive o.receiver) (.seq o.gets o.answerCode)) := by
  have hb : (wrapper c o).bindings = o.parameters.map Binding.Parameter.binding := bindings_eq hc o
  rw [body, hb, answer_eq hc]
  rfl

/-- The call follows pointers of the parameters, and uses the receiver if it is a member. -/
theorem uses_call {o : Operation} (ho : o.IsRegular) {u : Use} {σ τ : Store} (h : (u, τ) ∈ (o.call o.args).uses σ) :
    τ = σ ∧ ((∃ q ∈ o.parameters.flatMap Binding.Parameter.pointers, u = .follow q.1 (some q.2)) ∨
      ((o.call o.args).isMember = true ∧ u = .object)) := by
  obtain ⟨e, he, hm⟩ | ⟨hmember, rfl, rfl⟩ := Call.mem_uses (ho.known _) h
  · cases ho.args _ e he with
    | inl he =>
      obtain ⟨p, hp, rfl⟩ := List.mem_map.1 he
      obtain ⟨rfl, q, hq, rfl⟩ := Binding.ofShape_arg_uses p.name p.idx σ p.shape hm
      exact ⟨rfl, .inl ⟨q, List.mem_flatMap.2 ⟨p, hp, hq⟩, rfl⟩⟩
    | inr he =>
      rw [he] at hm
      cases hm
  · exact ⟨rfl, .inr ⟨hmember, rfl⟩⟩

theorem mem_checks {o : Operation} {n : Nat} {st : Stmt} (h : st ∈ Stmt.checkCount n :: o.checks) :
    (∃ k, st = .checkCount k) ∨ ∃ k i, st = .check k i := by
  cases List.mem_cons.1 h with
  | inl h => exact .inl ⟨_, h⟩
  | inr h =>
    cases List.mem_append.1 h with
    | inl h =>
      cases hr : o.receiver with
      | none =>
        rw [hr] at h
        cases h
      | some s =>
        rw [hr] at h
        exact .inr ⟨_, _, List.mem_singleton.1 h⟩
    | inr h =>
      obtain ⟨b, hb, h⟩ := List.mem_flatMap.1 h
      obtain ⟨p, _, rfl⟩ := List.mem_map.1 hb
      obtain ⟨k, hk⟩ := Binding.isCheck_checks p.name p.idx p.shape st h
      exact .inr ⟨k, p.idx, hk⟩

theorem checks_along {P : Use → Store → Prop} {Q : Store → Prop} (o : Operation) (n : Nat) {σ : Store} (h : Q σ) :
    Along P result (Code.lines (.checkCount n :: o.checks)) σ fun τ _ => Q τ := by
  apply Along.lines _ _ h
  · intro st hst
    obtain ⟨k, rfl⟩ | ⟨k, i, rfl⟩ := mem_checks hst <;> rfl
  · intro st hst
    obtain ⟨k, rfl⟩ | ⟨k, i, rfl⟩ := mem_checks hst <;> rfl

/-- What holds along a wrapper: it is shown for the parameters by `R`, and then for the answer. -/
theorem along {c : Converter} (hc : c.IsBare) (o : Operation) {P : Use → Store → Prop}
    {R : Store → String × String → Prop} (hfits : ∀ u τ, u.Fits τ → P u τ) (hreceive : ∀ s τ, P (.receive s) τ)
    (hown : ∀ τ q, Binding.Follows τ q → R τ q)
    (hpairs : o.parameters.Pairwise fun p p' => ∀ q ∈ p.pointers, p'.Spares R q)
    (hanswer : ∀ τ, (∀ q ∈ o.parameters.flatMap Binding.Parameter.pointers, R τ q) →
      τ "obj" = received o.receiver "obj" → Along P result o.answerCode τ fun _ _ => True) :
    Along P result (wrapper c o).body Store.empty fun _ _ => True := by
  have hrest : Along P result (.seq o.gets o.answerCode) (received o.receiver) fun _ _ => True := by
    apply Along.seq
    apply ((Binding.gets_along hown o.parameters [] (received o.receiver) nofun (fun _ _ => nofun) hpairs).mono hfits
      fun τ _ h => h).weaken
    intro τ _ ⟨hs, hR⟩
    apply hanswer τ hR
    apply hs.kept _ _ obj_not_isTemporary
    intro hm
    obtain ⟨p, hp, hn⟩ := List.mem_map.1 hm
    exact name_ne_obj o hp hn
  rw [body_eq hc]
  apply Along.seq
  apply checks_along
  cases h : o.receiver with
  | none =>
    rw [h] at hrest
    exact Along.seq (Along.skip hrest)
  | some s =>
    rw [h] at hrest
    exact Along.seq (Along.receive (hreceive s _) hrest)

end Operation
end Wrapper
end RingBridge
