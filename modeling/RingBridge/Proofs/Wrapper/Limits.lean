import RingBridge.Proofs.Answer.Limits
import RingBridge.Proofs.Wrapper.Calls
/-!
The parts of a wrapper: the checks, and the rest after them. The rest uses no argument beyond those that are counted,
and every argument is checked there or tested here.
-/
namespace RingBridge
open Code Wrapper

variable {L : Limits}

def Access.IsUse (n : Nat) : Access → Prop
  | read i | test i => 1 ≤ i ∧ i ≤ n
  | clear => 1 ≤ n
  | count _ | check _ | unknown => False

theorem Call.within_of_names {call : Call} (hk : call.isKnown = true) (hnames : ∀ x ∈ call.names, L.Allows x)
    (hargs : ∀ e ∈ call.args, e.Within L) : call.Within L := by
  cases call with
  | verbatim c => cases hk
  | function x args | method v x args => exact ⟨hnames x (List.mem_singleton_self x), hargs⟩
  | setField x e => exact ⟨hnames x (List.mem_singleton_self x), hargs e (List.mem_singleton_self e)⟩
  | getField x => exact hnames x (List.mem_singleton_self x)
  | associated s x args => exact ⟨hnames s (List.mem_cons_self ..), hnames x (by simp [names]), hargs⟩

namespace Wrapper

def argumentChecks (w : Wrapper) : List Stmt := receiverChecks w.receiver ++ w.bindings.flatMap Binding.checks

def rest (w : Wrapper) : Code :=
  .seq (receive w.receiver) (.seq (.ofList ((w.bindings.flatMap Binding.gets).map .fragment)) w.answer)

theorem body_eq_seq (w : Wrapper) : w.body = .seq (Code.lines (.checkCount w.count :: w.argumentChecks)) w.rest := rfl

theorem allows_localName {x : String} (h : L.Allows x) (i : Nat) : L.Allows (localName x i) := by
  unfold localName
  split
  · exact Limits.allows_append.2 ⟨Limits.allows_of_word (x := "__arg") (by decide), Limits.allows_toString i⟩
  · exact h

namespace Operation
variable {o : Operation} {c : Converter}

theorem idx_of_mem_parameters {p : Binding.Parameter} (hp : p ∈ o.parameters) :
    ∃ q i, q ∈ o.params ∧ p.shape ∈ o.shapes ∧ i < o.params.length ∧ p.idx = ((i + 1 + o.offset : Nat) : Int) ∧
      p.name = localName q.name ((i + 1 + o.offset : Nat) : Int) := by
  obtain ⟨⟨⟨q, s⟩, i⟩, hm, rfl⟩ := List.mem_map.1 hp
  obtain ⟨hi, hqs⟩ := List.mem_zipIdx' hm
  have hi : i < (o.params.zip o.shapes).length := hi
  have hmem : (q, s) ∈ o.params.zip o.shapes := hqs ▸ List.getElem_mem hi
  rw [List.length_zip] at hi
  exact ⟨q, i, (List.of_mem_zip hmem).1, (List.of_mem_zip hmem).2, by omega, by simp, by simp⟩

theorem exists_parameter (hlengths : o.shapes.length = o.params.length) {i : Nat} (hi : i < o.params.length) :
    ∃ p ∈ o.parameters, p.idx = ((i + 1 + o.offset : Nat) : Int) := by
  have hlen : i < o.parameters.length := by
    simp only [parameters, List.length_map, List.length_zipIdx, List.length_zip]
    omega
  exact ⟨_, List.getElem_mem hlen, by simp [parameters]⟩

theorem offset_of_receiver {s : String} (h : o.receiver = some s) : o.offset = 1 := by
  rw [offset, h]
  rfl

theorem exists_of_mem_checks (hc : c.IsBare) {st : Stmt} (h : st ∈ (wrapper c o).argumentChecks) :
    ∃ k, ∃ i : Nat, st = .check k i ∧ 1 ≤ i ∧ i ≤ (wrapper c o).count := by
  have hb : (wrapper c o).bindings = o.parameters.map Binding.Parameter.binding := bindings_eq hc o
  have hcount : (wrapper c o).count = o.params.length + o.offset := rfl
  have hreceiver : (wrapper c o).receiver = o.receiver := rfl
  rw [hcount]
  rw [argumentChecks, hb, hreceiver] at h
  obtain h | h := List.mem_append.1 h
  · cases hr : o.receiver with
    | none =>
      rw [hr] at h
      cases h
    | some s =>
      rw [hr] at h
      have hoffset := offset_of_receiver hr
      exact ⟨.pointer, 1, List.mem_singleton.1 h, Nat.le_refl 1, by omega⟩
  · obtain ⟨b, hb, h⟩ := List.mem_flatMap.1 h
    obtain ⟨p, hp, rfl⟩ := List.mem_map.1 hb
    obtain ⟨k, rfl⟩ := Binding.isCheck_checks p.name p.idx p.shape st h
    obtain ⟨_, i, _, _, hi, hidx, _⟩ := idx_of_mem_parameters hp
    exact ⟨k, i + 1 + o.offset, by rw [hidx], by omega, by omega⟩

/-- Each argument is checked, or tested in the rest. -/
theorem exists_check_or_test (hc : c.IsBare) (hlengths : o.shapes.length = o.params.length) {i : Nat} (h1 : 1 ≤ i)
    (hi : i ≤ (wrapper c o).count) : (∃ k, .check k i ∈ (wrapper c o).argumentChecks) ∨
      ∃ k, .test (.isKind k (.argument i)) ∈ (wrapper c o).rest.atoms := by
  have hb : (wrapper c o).bindings = o.parameters.map Binding.Parameter.binding := bindings_eq hc o
  have hcount : (wrapper c o).count = o.params.length + o.offset := rfl
  have hreceiver : (wrapper c o).receiver = o.receiver := rfl
  rw [hcount] at hi
  by_cases hself : i ≤ o.offset
  · cases hr : o.receiver with
    | none =>
      rw [offset, hr] at hself
      exact absurd hself (by simp; omega)
    | some s =>
      rw [offset_of_receiver hr] at hself
      obtain rfl : i = 1 := by omega
      refine .inl ⟨.pointer, ?_⟩
      rw [argumentChecks, hreceiver, hr]
      exact List.mem_append_left _ (List.mem_singleton_self _)
  · obtain ⟨p, hp, hidx⟩ := exists_parameter hlengths (i := i - 1 - o.offset) (by omega)
    have hidx : p.idx = i := hidx.trans (by omega)
    have hbinding : p.binding ∈ (wrapper c o).bindings := hb ▸ List.mem_map_of_mem hp
    obtain ⟨k, hk⟩ | ⟨g, hg, k, hk⟩ := Binding.exists_check_or_test p.name p.idx p.shape
    · rw [hidx] at hk
      exact .inl ⟨k, List.mem_append_right _ (List.mem_flatMap.2 ⟨_, hbinding, hidx ▸ hk⟩)⟩
    · rw [hidx] at hk
      refine .inr ⟨k, List.mem_append_right _ (List.mem_append_left _ ?_)⟩
      rw [atoms_ofList]
      refine List.mem_flatMap.2 ⟨.fragment g, List.mem_map_of_mem (List.mem_flatMap.2 ⟨_, hbinding, hg⟩), hk⟩

/-- A wrapper asks for no tag but those in its body. -/
theorem structs_subset (hc : c.IsBare) : (wrapper c o).structs ⊆ (wrapper c o).body.structs := by
  have hb : (wrapper c o).bindings = o.parameters.map Binding.Parameter.binding := bindings_eq hc o
  -- Arguments and checks ask for no tag, so what a binding asks for stands in the code that reads it.
  have harg : ∀ p : Binding.Parameter, p.binding.arg.structs = [] := by
    intro p
    have hwithin : p.binding.arg.Within (.on (fun _ => False) fun _ => False) :=
      Binding.arg_within p.idx (Limits.allows_on _) p.shape fun x _ => ⟨trivial, Limits.allows_on x⟩
    have hatoms := hwithin.atoms
    apply List.eq_nil_iff_forall_not_mem.2
    intro s hs
    obtain ⟨a, ha, hs⟩ := (Expr.mem_structs fun a ha hu => (hatoms a ha).access _ hu).1 hs
    exact (hatoms a ha).tagged s hs
  have hchecks : ∀ p : Binding.Parameter, p.binding.checks.flatMap Stmt.structs = [] := by
    intro p
    apply List.flatMap_eq_nil_iff.2
    intro st hst
    obtain ⟨k, rfl⟩ := Binding.isCheck_checks p.name p.idx p.shape st hst
    rfl
  intro s hs
  rw [body_eq_seq, Code.structs, rest, Code.structs, Code.structs, structs_ofList]
  refine List.mem_append_right _ ?_
  obtain hs | hs := List.mem_append.1 hs
  · obtain hs | hs := List.mem_append.1 hs
    · rw [hb] at hs ⊢
      obtain ⟨b, hb, hs⟩ := List.mem_flatMap.1 hs
      obtain ⟨p, hp, rfl⟩ := List.mem_map.1 hb
      rw [Binding.structs, hchecks, harg, List.nil_append, List.append_nil] at hs
      obtain ⟨g, hg, hs⟩ := List.mem_flatMap.1 hs
      refine List.mem_append_right _ (List.mem_append_left _ (List.mem_flatMap.2 ⟨.fragment g, ?_, hs⟩))
      exact List.mem_map_of_mem (List.mem_flatMap.2 ⟨_, hb, hg⟩)
    · exact List.mem_append_left _ hs
  · exact List.mem_append_right _ (List.mem_append_right _ hs)

/-- The rest stays within limits if its arguments, names and shapes do. -/
theorem rest_within (hc : c.IsBare) (ho : o.IsRegular)
    (huses : ∀ a : Access, a.IsUse (wrapper c o).count → L.accesses a)
    (hreceiver : ∀ s, o.receiver = some s → L.tags s ∧ L.Allows s) (hparams : ∀ p ∈ o.params, L.Allows p.name)
    (hcall : ∀ args, ∀ x ∈ (o.call args).names, L.Allows x) (hshapes : ∀ s ∈ o.shapes, s.Within L)
    (hdeclared : ∀ s, o.declared = some s → s.Within L) : (wrapper c o).rest.Within L := by
  have hb : (wrapper c o).bindings = o.parameters.map Binding.Parameter.binding := bindings_eq hc o
  have hcount : (wrapper c o).count = o.params.length + o.offset := rfl
  have hname : ∀ p ∈ o.parameters, L.Allows p.name := by
    intro p hp
    obtain ⟨q, i, hq, _, _, _, hn⟩ := idx_of_mem_parameters hp
    exact hn ▸ allows_localName (hparams q hq) _
  have hshape : ∀ p ∈ o.parameters, p.shape.Within L := by
    intro p hp
    obtain ⟨_, _, _, hs, _⟩ := idx_of_mem_parameters hp
    exact hshapes _ hs
  refine ⟨?_, ?_, ?_⟩
  · show (receive o.receiver).Within L
    cases hr : o.receiver with
    | none => trivial
    | some s =>
      have hoffset := offset_of_receiver hr
      have hread : L.accesses (.read 1) := huses _ ⟨Int.le_refl 1, by omega⟩
      exact ⟨Limits.allows_of_word (by decide), hread, hreceiver s hr⟩
  · rw [within_ofList, hb]
    intro d hd
    obtain ⟨g, hg, rfl⟩ := List.mem_map.1 hd
    obtain ⟨b, hb, hg⟩ := List.mem_flatMap.1 hg
    obtain ⟨p, hp, rfl⟩ := List.mem_map.1 hb
    obtain ⟨_, i, _, _, hi, hidx, _⟩ := idx_of_mem_parameters hp
    have hread : L.accesses (.read p.idx) := huses _ ⟨by omega, by omega⟩
    have htest : L.accesses (.test p.idx) := huses _ ⟨by omega, by omega⟩
    exact Binding.gets_within (hname p hp) hread htest p.shape (hshape p hp) g hg
  · rw [answer_eq hc]
    apply Answer.ofCall_within fun s hs => hdeclared s hs
    apply Call.within_of_names (ho.known _) (hcall _)
    intro e he
    cases ho.args _ e he with
    | inl he =>
      obtain ⟨p, hp, rfl⟩ := List.mem_map.1 he
      exact Binding.arg_within p.idx (hname p hp) p.shape fun x hx => (hshape p hp x hx).2
    | inr he =>
      rw [he]
      trivial

end Operation
end Wrapper

namespace Export
variable {c : Converter}

structure Within (L : Limits) (e : Export) : Prop where
  freed : ∀ s, e = destructor s → L.frees s
  names : ∀ x ∈ e.names, L.Allows x
  owner : ∀ s, e.owner? = some s → L.tags s
  shapes : ∀ s ∈ e.shapes, s.Within L

theorem within_on (accesses : Access → Prop) (e : Export) : e.Within (.on accesses fun _ => True) where
  freed _ _ := trivial
  names x _ := Limits.allows_on x
  owner _ _ := trivial
  shapes _ _ x _ := ⟨trivial, trivial, Limits.allows_on x⟩

theorem owner_mem_names {e : Export} {s : String} (h : e.owner? = some s) : s ∈ e.names := by
  cases e with
  | function f => cases h
  | _ => exact List.mem_cons.2 (.inl (Option.some.inj h).symm)

theorem exists_of_mem_checks (hc : c.IsBare) {name : String} {e : Export} {st : Stmt}
    (h : st ∈ (e.wrapperAs c name).argumentChecks) :
    ∃ k, ∃ i : Nat, st = .check k i ∧ 1 ≤ i ∧ i ≤ (e.wrapperAs c name).count := by
  obtain ⟨struct, rfl⟩ | ⟨struct, rfl⟩ | ⟨o, ho⟩ := cases_operation c name e
  · exact ⟨.pointer, 1, List.mem_singleton.1 h, Nat.le_refl 1, Nat.le_refl 1⟩
  · cases h
  · rw [ho.wrapper] at h ⊢
    exact Operation.exists_of_mem_checks hc h

theorem exists_check_or_test (hc : c.IsBare) (name : String) (e : Export) {i : Nat} (h1 : 1 ≤ i)
    (hi : i ≤ (e.wrapperAs c name).count) : (∃ k, .check k i ∈ (e.wrapperAs c name).argumentChecks) ∨
      ∃ k, .test (.isKind k (.argument i)) ∈ (e.wrapperAs c name).rest.atoms := by
  obtain ⟨struct, rfl⟩ | ⟨struct, rfl⟩ | ⟨o, ho⟩ := cases_operation c name e
  · obtain rfl : i = 1 := Nat.le_antisymm hi h1
    exact .inl ⟨.pointer, List.mem_singleton_self _⟩
  · exact absurd (Nat.le_trans h1 hi) (Nat.not_succ_le_zero 0)
  · rw [ho.wrapper] at hi ⊢
    exact Operation.exists_check_or_test hc ho.lengths h1 hi

theorem rest_within (hc : c.IsBare) (name : String) {e : Export} (he : e.Within L)
    (huses : ∀ a : Access, a.IsUse (e.wrapperAs c name).count → L.accesses a) :
    (e.wrapperAs c name).rest.Within L := by
  obtain ⟨struct, rfl⟩ | ⟨struct, rfl⟩ | ⟨o, ho⟩ := cases_operation c name e
  · have hptr : L.Allows "ptr" := Limits.allows_of_word (by decide)
    have hread : L.accesses (.read 1) := huses _ ⟨Int.le_refl 1, Int.le_refl 1⟩
    have hclear : L.accesses .clear := huses _ (Nat.le_refl 1)
    have hstruct := he.names struct (List.mem_singleton_self struct)
    exact ⟨trivial, trivial, ⟨hptr, hread, he.owner struct rfl, hstruct⟩, hptr,
      ⟨he.freed struct rfl, hptr, hstruct⟩, hclear⟩
  · have hstruct := he.names struct (List.mem_singleton_self struct)
    exact ⟨trivial, trivial, hstruct, he.owner struct rfl, hstruct⟩
  · rw [ho.wrapper] at huses ⊢
    apply Operation.rest_within hc ho.regular huses
    · exact fun s hs => ⟨he.owner s (ho.receiver s hs), he.names s (owner_mem_names (ho.receiver s hs))⟩
    · exact fun p hp => he.names _ (ho.paramNames p hp)
    · exact fun args x hx => he.names x (ho.callNames args x hx)
    · exact fun s hs => he.shapes s (ho.paramShapes s hs)
    · exact fun s hs => he.shapes s (declared_mem_shapes (ho.declared ▸ hs))

/-- A whole wrapper body stays within limits, where nothing but unknown code is held against its accesses. -/
theorem body_within (hc : c.IsBare) (name : String) {e : Export} (he : e.Within L)
    (hknown : ∀ a, a ≠ Access.unknown → L.accesses a) : (e.wrapperAs c name).body.Within L := by
  refine ⟨?_, rest_within hc name he fun a ha => hknown a fun hu => by rw [hu] at ha; exact ha⟩
  refine within_ofList.2 (List.forall_mem_cons.2 ⟨hknown _ nofun, fun l hl => ?_⟩)
  obtain ⟨st, hst, rfl⟩ := List.mem_map.1 hl
  obtain ⟨k, i, rfl, _⟩ := exists_of_mem_checks hc hst
  exact hknown _ nofun

/-- The tags that a wrapper asks for are those that its body passes on. -/
theorem mem_structs (hc : c.IsBare) (name : String) (e : Export) {s : String} : s ∈ (e.wrapperAs c name).structs ↔
    ∃ a ∈ (e.wrapperAs c name).body.atoms, a.tagged? = some s := by
  have hknown : ∀ a ∈ (e.wrapperAs c name).body.atoms, a.IsKnown := by
    have he := e.within_on fun a => a ≠ Access.unknown
    exact fun a ha hu => ((body_within hc name he fun _ h => h).atoms a ha).access _ hu rfl
  rw [← Code.mem_structs hknown]
  refine ⟨fun hs => ?_, fun hs => structs_body_subset _ hs⟩
  obtain ⟨struct, rfl⟩ | ⟨struct, rfl⟩ | ⟨o, ho⟩ := cases_operation c name e
  · exact hs
  · exact hs
  · rw [ho.wrapper] at hs ⊢
    exact Operation.structs_subset hc hs

end Export
end RingBridge
