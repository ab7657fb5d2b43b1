import RingBridge.Proofs.Answer.Typed
import RingBridge.Proofs.Wrapper.Paths
/-!
The places of a wrapper where a pointer is handed out under a tag, and where one that was read under a tag is used.
-/
namespace RingBridge
open Code Wrapper

namespace Code

theorem structs_ofList (cs : List Code) : (ofList cs).structs = cs.flatMap structs := by
  induction cs with
  | nil => rfl
  | cons c cs ih =>
    cases cs with
    | nil => simp [ofList]
    | cons d ds => exact congrArg (c.structs ++ ·) ih

end Code

namespace Wrapper

/-- A wrapper asks for the tags of all structs in its body. -/
theorem structs_body_subset (w : Wrapper) : w.body.structs ⊆ w.structs := by
  have hchecks : (receiverChecks w.receiver).flatMap Stmt.structs = [] := by
    cases w.receiver <;> rfl
  intro x hx
  simp only [body, Code.structs, Code.lines, structs_ofList, List.flatMap_map, List.flatMap_append, List.cons_append,
    List.flatMap_cons, hchecks, List.mem_append] at hx
  simp only [structs, List.mem_append]
  have hbinding : ∀ b ∈ w.bindings, x ∈ b.structs → x ∈ w.bindings.flatMap Binding.structs :=
    fun b hb hx => List.mem_flatMap.2 ⟨b, hb, hx⟩
  obtain h | h | h | h := hx
  · obtain h | h | h := h
    · cases h
    · cases h
    · obtain ⟨st, hst, h⟩ := List.mem_flatMap.1 h
      obtain ⟨b, hb, hst⟩ := List.mem_flatMap.1 hst
      exact .inl (.inl (hbinding b hb
        (List.mem_append_left _ (List.mem_append_left _ (List.mem_flatMap.2 ⟨st, hst, h⟩)))))
  · exact .inl (.inr h)
  · obtain ⟨d, hd, h⟩ := List.mem_flatMap.1 h
    obtain ⟨b, hb, hd⟩ := List.mem_flatMap.1 hd
    exact .inl (.inl (hbinding b hb
      (List.mem_append_left _ (List.mem_append_right _ (List.mem_flatMap.2 ⟨d, hd, h⟩)))))
  · exact .inr h

variable (w : Wrapper) (result : Option Shape) (const struct : String)

/-- Some path hands out a box of a struct under a constant, the call of the wrapper returning `result`. -/
def Hands : Prop := ∃ b s τ sp sp', w.body.Reaches result Store.empty (.hand b s) τ ∧ Name.tag s = const ∧
  b.held τ = [.value (some (.boxed (.named struct sp) sp'))]

/-- Some path uses a pointer as a struct that was read under a constant, or receives one. -/
def Takes : Prop :=
  (∃ ptr s τ h, w.body.Reaches result Store.empty (.follow ptr (some struct)) τ ∧ τ ptr = some h ∧
    h.source = some s ∧ Name.tag s = const) ∨
  ∃ τ, w.body.Reaches result Store.empty (.receive struct) τ ∧ Name.tag struct = const

variable {w result const struct}

/-- Where all uses agree, a box handed out under a constant is of a struct that the wrapper tags with it. -/
theorem Hands.tag_eq (h : w.Hands result const struct)
    (ha : ∀ u τ, w.body.Reaches result Store.empty u τ → u.Agrees τ) : Name.tag struct = const ∧ struct ∈ w.structs := by
  obtain ⟨b, s, τ, sp, sp', hr, hs, hheld⟩ := h
  obtain ⟨_, _, hagrees⟩ := ha _ _ hr
  rw [hheld] at hagrees
  cases hagrees
  exact ⟨hs, (hr.within w.structs_body_subset .empty).tagged struct rfl⟩

theorem Takes.tag_eq (h : w.Takes result const struct)
    (ha : ∀ u τ, w.body.Reaches result Store.empty u τ → u.Agrees τ) : Name.tag struct = const ∧ struct ∈ w.structs := by
  obtain ⟨ptr, s, τ, g, hr, hg, hsource, hs⟩ | ⟨τ, hr, hs⟩ := h
  · cases ha _ _ hr g s hg hsource
    exact ⟨hs, (hr.within w.structs_body_subset .empty).sources ptr g struct hg hsource⟩
  · exact ⟨hs, (hr.within w.structs_body_subset .empty).tagged struct rfl⟩

end Wrapper

/-- A wrapper without receiver comes to what its answer comes to. -/
theorem Wrapper.Operation.reaches_answer {c : Converter} (hc : c.IsBare) {o : Operation} (hr : o.receiver = none)
    {result : Option Shape} {ρ τ : Store} {g : Held} {u : Use} (hgets : Falls result o.gets Store.empty ρ g)
    (h : Reaches result o.answerCode ρ u τ) : (wrapper c o).body.Reaches result Store.empty u τ := by
  have hchecks : ∀ st ∈ Stmt.checkCount (o.params.length + o.offset) :: o.checks,
      st.outcomes result Store.empty = [(Store.empty, .unit)] := by
    intro st hst
    obtain ⟨k, rfl⟩ | ⟨k, i, rfl⟩ := mem_checks hst <;> rfl
  rw [body_eq hc, hr]
  exact .second (falls_lines hchecks) (.second .skip (.second hgets h))

theorem Binding.falls_guardedPointer {result : Option Shape} (ptr struct : String) (idx : Int) (σ : Store) :
    Falls result (guardedPointer ptr idx struct) σ (σ.set ptr (.tested struct)) .unit := by
  have hread : Falls result (.line (.bind false ptr (.handle idx struct))) σ (σ.set ptr (.untested struct)) .unit :=
    .line (List.mem_singleton_self _)
  have hguard : Falls result (.when (.isNull ptr) (reject struct)) (σ.set ptr (.untested struct))
      ((σ.set ptr (.untested struct)).pass ptr) .unit := .whenNo
  rw [Store.pass_set] at hguard
  exact .seq hread hguard

namespace Export
variable {c : Converter}

def declared : Export → Option Shape
  | getter _ _ type => some (.ofSpelling type)
  | method struct f => methodResult struct f
  | function f => f.result.map .ofSpelling
  | destructor _ | constructor _ | setter _ _ _ => none

/-- Among some exports, what one hands out as `a` under a constant is taken as `b` under it by another. -/
def Passes (c : Converter) (es : List Export) (const a b : String) : Prop :=
  ∃ e ∈ es, ∃ e' ∈ es, (e.wrapper c).Hands e.declared const a ∧ (e'.wrapper c).Takes e'.declared const b

theorem hands_constructor (c : Converter) (struct : String) :
    ((Export.constructor struct).wrapper c).Hands none (Name.tag struct) struct :=
  ⟨_, _, _, _, _, .second (.line (List.mem_singleton_self _)) (.second .skip (.second .skip
    (.line (List.mem_singleton_self _)))), rfl, rfl⟩

/-- A destructor frees the pointer that it has read. -/
theorem reaches_free (c : Converter) (struct : String) : ∃ τ : Store, τ "ptr" = some (.tested struct) ∧
    ((Export.destructor struct).wrapper c).body.Reaches none Store.empty (.follow "ptr" (some struct)) τ := by
  have hchecks : Falls none (.seq (.line (.checkCount 1)) (.line (.check .pointer 1))) Store.empty Store.empty .unit :=
    .seq (.line (List.mem_singleton_self _)) (.line (List.mem_singleton_self _))
  have hread : Falls none (.line (.bind false "ptr" (.handle 1 struct))) Store.empty
      (Store.empty.set "ptr" (.untested struct)) .unit := .line (List.mem_singleton_self _)
  refine ⟨_, ?_, .second hchecks (.second .skip (.second .skip (.second hread
    (.when (.first (.line (List.mem_singleton_self _)))))))⟩
  simp [Store.learn]

theorem takes_destructor (c : Converter) (struct : String) :
    ((Export.destructor struct).wrapper c).Takes none (Name.tag struct) struct := by
  obtain ⟨τ, hptr, h⟩ := reaches_free c struct
  exact .inl ⟨"ptr", struct, τ, .tested struct, h, hptr, rfl, rfl⟩

/-- A function that returns a named type hands it out. -/
theorem hands_function (hc : c.IsBare) (name : String) {type s sp : String} (ht : Shape.ofSpelling type = .named s sp) :
    ((Export.function { name, result := some type }).wrapper c).Hands (some (.named s sp)) (Name.tag s) s := by
  refine ⟨.box (.var "__result"), s, Store.empty.set "__result" (.value (some (.named s sp))), sp, _, ?_, rfl, rfl⟩
  have hdeclared : Converter.shapeOf (some type) (Converter.shapeOf (some type) none) = some (.named s sp) := by
    rw [Converter.shapeOf, Converter.shapeOf, Option.map_some, ht]
    rfl
  apply Operation.reaches_answer hc rfl .skip
  rw [Operation.answerCode, Operation.declared, hdeclared]
  exact .second (.line (List.mem_singleton_self _)) (.line (List.mem_singleton_self _))

/-- A function over a reference to a named type takes it. -/
theorem takes_function (hc : c.IsBare) (name : String) {x type s sp sp' : String} {m : Bool}
    (ht : Shape.ofSpelling type = .reference (.named s sp) m sp') :
    ((Export.function { name, params := [⟨x, type⟩] }).wrapper c).Takes none (Name.tag s) s := by
  refine .inl ⟨Binding.pointerName (localName x 1), s,
    Store.empty.set (Binding.pointerName (localName x 1)) (.tested s), .tested s, ?_, Store.set_self .., rfl, rfl⟩
  apply Operation.reaches_answer hc rfl
  · show Falls none (ofList (((Binding.ofShape (localName x 1) 1 (Shape.ofSpelling type)).gets ++ []).map fragment)) _ _ _
    rw [ht]
    exact .fragment (Binding.falls_guardedPointer ..)
  · show Reaches none (.line (.perform (.function name
      [(Binding.ofShape (localName x 1) 1 (Shape.ofSpelling type)).arg]))) _ _ _
    rw [ht]
    exact .line (List.mem_singleton_self _)

/-- Of two references of one name, the second is bound for both. -/
theorem takes_function_twice (hc : c.IsBare) (name : String) {x type type' s s' sp sp' sp₁ sp₁' : String} {m m' : Bool}
    (hx : ∀ idx, localName x idx = x) (ht : Shape.ofSpelling type = .reference (.named s sp) m sp₁)
    (ht' : Shape.ofSpelling type' = .reference (.named s' sp') m' sp₁') :
    ((Export.function { name, params := [⟨x, type⟩, ⟨x, type'⟩] }).wrapper c).Takes none (Name.tag s') s := by
  refine .inl ⟨Binding.pointerName x, s', (Store.empty.set (Binding.pointerName x) (.tested s)).set
    (Binding.pointerName x) (.tested s'), .tested s', ?_, Store.set_self .., rfl, rfl⟩
  apply Operation.reaches_answer hc rfl
  · show Falls none (ofList (((Binding.ofShape (localName x 1) 1 (Shape.ofSpelling type)).gets ++
      ((Binding.ofShape (localName x 2) 2 (Shape.ofSpelling type')).gets ++ [])).map fragment)) _ _ _
    rw [hx, hx, ht, ht']
    exact .seq (.fragment (Binding.falls_guardedPointer ..)) (.fragment (Binding.falls_guardedPointer ..))
  · show Reaches none (.line (.perform (.function name [(Binding.ofShape (localName x 1) 1 (Shape.ofSpelling type)).arg,
      (Binding.ofShape (localName x 2) 2 (Shape.ofSpelling type')).arg]))) _ _ _
    rw [hx, hx, ht, ht']
    exact .line (List.mem_append_left _ (List.mem_singleton_self _))

end Export
end RingBridge
