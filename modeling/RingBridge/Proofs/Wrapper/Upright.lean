import RingBridge.Proofs.Binding.Readers
import RingBridge.Proofs.Code.Nested
import RingBridge.Proofs.Wrapper.Limits
/-!
No line of a wrapper body starts with a blank of its own: a line starts with a word of the generated language, with a
temporary, or with a name that has no blank in it.
-/
namespace RingBridge
open Code Text

theorem NameScope.fronted_fresh (n : NameScope) (stem : String) : Fronted (n.fresh stem).1 := by
  simp only [fresh, numbered]
  split
  · exact Fronted.append (by decide) _
  · exact (Fronted.append (by decide) _).append _

theorem Call.fronted_code {call : Call} (hk : call.isKnown = true) (hnames : ∀ x ∈ call.names, ' ' ∉ x.toList) :
    Fronted call.code := by
  cases call with
  | verbatim c => cases hk
  | function x args =>
    have hname := fronted_append (s := "(") (hnames x (List.mem_singleton_self x)) (by decide)
    exact hname.between
  | associated s x args =>
    have hname := fronted_append (s := "::") (hnames s (List.mem_cons_self ..)) (by decide)
    exact (hname.between).between
  | method v x args => cases v <;> exact ((Fronted.between (by decide)).append _).between
  | getField x => exact Fronted.between (by decide)
  | setField x e => exact (Fronted.between (by decide)).append _

namespace Binding

def ItemReader.Upright (item : ItemReader) : Prop := ∀ target list i n, Fronted target → (item target list i n).1.Upright

theorem listPointer_upright (ptr list i : String) (n : NameScope) : (listPointer ptr list i n).1.Upright := by
  simp [listPointer]

theorem pushLeaf_upright (s : Shape) (boxes : Nat) : (pushLeaf s boxes).Upright := by
  intro vec list i n hvec
  unfold pushLeaf
  cases s.pointee? with
  | none => exact Stmt.fronted_push hvec _
  | some p => exact ⟨listPointer_upright .., Stmt.fronted_push hvec _⟩

theorem bindLeaf_upright (s : Shape) (boxes : Nat) : (bindLeaf s boxes).Upright := by
  intro value list i n _
  unfold bindLeaf
  cases s.pointee? with
  | none => exact Stmt.fronted_bind ..
  | some p => simp [listPointer_upright]

theorem fill_upright {item : ItemReader} (hitem : item.Upright) {vec : String} (hvec : Fronted vec) (list : String)
    (n : NameScope) : (fill item vec list n).1.Upright :=
  ⟨Stmt.fronted_bind .., hitem _ _ _ _ hvec⟩

theorem nested_upright {item : ItemReader} (hitem : item.Upright) (finish : Expr → Stmt)
    (hfinish : ∀ x, Fronted (finish (.var x)).code) (list i : String) (n : NameScope) :
    (nested item list i finish n).1.Upright :=
  ⟨Stmt.fronted_bind .., fill_upright hitem (NameScope.fronted_fresh ..) .., hfinish _⟩

theorem reader_upright (o : Bool) (s : Shape) (boxes : Nat) : (reader o s boxes).Upright := by
  induction o, s, boxes using reader_induction with
  | boxed o s sp boxes ih => exact reader_boxed o s sp boxes ▸ ih
  | option s sp boxes ih =>
    exact fun _ _ _ _ hvec => ⟨ih _ _ _ _ (NameScope.fronted_fresh ..), Stmt.fronted_push hvec _⟩
  | vector s sp boxes ih =>
    exact fun vec list i n hvec =>
      nested_upright ih (fun e => .push vec (e.boxes boxes)) (fun _ => Stmt.fronted_push hvec _) list i n
  | optionalVector s sp boxes ih =>
    exact fun _ list i n _ => ⟨nested_upright ih (fun e => .yield (.some (e.boxes boxes)))
      (fun _ => Expr.fronted_some _) list i n, Expr.fronted_none⟩
  | leaf s boxes hs => exact reader_leaf hs boxes ▸ pushLeaf_upright s boxes
  | optionalLeaf s boxes hs => exact reader_optionalLeaf hs boxes ▸ bindLeaf_upright s boxes

theorem collect_upright {target : String} (htarget : Fronted target) (s : Shape) (idx : Int) (mutable : Bool)
    (n : NameScope) : (collect target s idx mutable n).1.Upright := by
  cases hview : s.isTextView with
  | true =>
    simp only [collect, hview, if_true]
    exact ⟨Stmt.fronted_bind .., fill_upright (reader_upright false s 0) (NameScope.fronted_fresh ..) ..,
      Stmt.fronted_bindViews ..⟩
  | false =>
    simp only [collect, hview]
    refine ⟨Stmt.fronted_bind .., fill_upright (reader_upright false s 0) htarget .., ?_⟩
    cases mutable with
    | true => exact Stmt.fronted_bind ..
    | false => trivial

theorem optional_upright (name : String) (s : Shape) (idx : Int) (n : NameScope) :
    (optional name s idx n).1.Upright := by
  unfold optional
  generalize s.unbox = unboxed
  obtain ⟨t, boxes⟩ := unboxed
  cases t with
  | text sp | number w | boolean => simp
  | vector t _ => simp [collect_upright, NameScope.fronted_fresh]
  | _ =>
    simp only
    split <;> simp

theorem guardedPointer_upright (ptr : String) (idx : Int) (struct : String) : (guardedPointer ptr idx struct).Upright := by
  simp [guardedPointer, reject]

/-- The code of a parameter starts no line with a blank, if its name does not. -/
theorem gets_upright {name : String} (hname : Fronted name) (idx : Int) :
    (s : Shape) → ∀ c ∈ (ofShape name idx s).gets, c.Upright
  | .number _ | .boolean | .text _ | .unit | .result _ _ | .tuple _ _ | .mapping _ _ _ | .unknown _ =>
    List.forall_mem_singleton.2 (Stmt.fronted_bind ..)
  | .vector _ _ => List.forall_mem_singleton.2 (collect_upright hname ..)
  | .slice _ _ _ => List.forall_mem_singleton.2
    (collect_upright ((Fronted.append (s := "__") (by decide) name).append "_vec") ..)
  | .option _ _ => List.forall_mem_singleton.2 (optional_upright ..)
  | .named _ _ => List.forall_mem_singleton.2 ⟨guardedPointer_upright .., Stmt.fronted_bind ..⟩
  | .boxed t _ => gets_upright hname idx t
  | .reference t m _ => by
    have ih := gets_upright hname idx t
    have hrebind : ∀ c ∈ if m && (ofShape name idx t).arg = .var name then [Code.line (.bind true name (.var name))] else [],
        c.Upright := by
      split
      · exact List.forall_mem_singleton.2 (Stmt.fronted_bind ..)
      · nofun
    cases t with
    | named _ _ => exact List.forall_mem_singleton.2 (guardedPointer_upright ..)
    | _ => exact List.forall_mem_append.2 ⟨ih, hrebind⟩

end Binding

namespace Answer

def Filler.Upright (f : Filler) : Prop := ∀ v list n, (f v list n).1.Upright

theorem itemsOf_upright {f : Filler} (hf : f.Upright) : Filler.Upright (itemsOf f) := fun _ _ _ => hf _ _ _

theorem debugText_upright : Filler.Upright debugText := fun _ _ _ => Stmt.fronted_append ..

theorem entriesOf_upright {key value : Filler} (hk : key.Upright) (hv : value.Upright) :
    Filler.Upright (entriesOf key value) :=
  fun _ _ _ => ⟨Stmt.fronted_bind .., hk _ _ _, hv _ _ _⟩

theorem sublist_upright {f : Filler} (hf : f.Upright) : Filler.Upright (sublist f) :=
  fun _ _ _ => ⟨Stmt.fronted_bind .., hf _ _ _⟩

theorem partsOf_upright {count : Nat} {parts : List String → String → NameScope → Code × NameScope}
    (hp : ∀ xs list n, (parts xs list n).1.Upright) : Filler.Upright (partsOf count parts) :=
  fun _ _ _ => ⟨Stmt.fronted_bindTuple .., hp _ _ _⟩

mutual

theorem append_upright : (s : Shape) → Filler.Upright (append s)
  | .number _ | .unknown _ | .boolean | .text _ | .named _ _ => fun _ _ _ => Stmt.fronted_append ..
  | .unit => fun _ _ _ => Stmt.fronted_appendHole _
  | .vector t _ => sublist_upright (itemsOf_upright (append_upright t))
  | .slice t _ _ => sublist_upright fun v => itemsOf_upright (append_upright t) (.toVec v)
  | .tuple ts _ => sublist_upright (partsOf_upright (appendEach_upright ts))
  | .mapping k v _ => by
    apply sublist_upright
    apply entriesOf_upright _ (append_upright v)
    split
    · exact append_upright k
    · exact debugText_upright
  | .option t _ | .result t _ => fun _ _ _ => append_upright t _ _ _
  | .boxed t _ => by
    have ih := append_upright t
    cases t with
    | named _ _ => exact fun _ _ _ => Stmt.fronted_append ..
    | _ => exact fun v => ih (.deref v)
  | .reference t _ _ => fun v => append_upright t (.clone v)

theorem appendEach_upright : (ts : List Shape) → ∀ xs list n, (appendEach ts xs list n).1.Upright
  | [] => fun _ _ _ => trivial
  | t :: ts => by
    intro xs list n
    cases xs with
    | nil => trivial
    | cons x xs => exact ⟨append_upright t _ _ _, appendEach_upright ts _ _ _⟩

end

theorem listOf_upright {f : Filler} (hf : f.Upright) (v : Expr) (n : NameScope) : (listOf f v n).1.Upright :=
  ⟨Stmt.fronted_bind .., hf _ _ _, Stmt.fronted_answerList _⟩

theorem ofShape_upright : (s : Shape) → ∀ v n, (ofShape s v n).1.Upright
  | .number _ | .unknown _ | .boolean | .text _ | .named _ _ => fun _ _ => Stmt.fronted_answer _
  | .unit => fun _ _ => trivial
  | .vector t _ => fun v n => listOf_upright (itemsOf_upright (append_upright t)) v n
  | .slice t _ _ => fun v n => listOf_upright (itemsOf_upright (append_upright t)) (.toVec v) n
  | .tuple ts _ => fun v n => listOf_upright (partsOf_upright (appendEach_upright ts)) v n
  | .mapping k x _ => by
    intro v n
    apply listOf_upright
    apply entriesOf_upright _ (append_upright x)
    split
    · exact append_upright k
    · exact debugText_upright
  | .option t _ => fun _ _ => ofShape_upright t _ _
  | .result t _ => by
    intro v n
    have ih := ofShape_upright t (.var (n.fresh "val").1) ((n.fresh "val").2.fresh "e").2
    cases t with
    | unit => trivial
    | _ => exact ih
  | .boxed t _ => by
    have ih := ofShape_upright t
    cases t with
    | named _ _ => exact fun _ _ => Stmt.fronted_answer _
    | _ => exact fun v => ih (.deref v)
  | .reference t _ _ => fun v => ofShape_upright t (.clone v)

theorem ofCall_upright {call : Call} (hcall : Fronted call.code) (shape : Option Shape) (n : NameScope) :
    (ofCall shape call n).1.Upright := by
  have hperform : Fronted (Stmt.perform call).code := hcall.append _
  cases shape with
  | none => exact hperform
  | some s =>
    have hbind := ofShape_upright s (.var (n.fresh "result").1) (n.fresh "result").2
    cases s with
    | unit => exact hperform
    | _ => exact ⟨Stmt.fronted_bindCall .., hbind⟩

end Answer

namespace Wrapper

/-- The local variable of a parameter never starts with a blank. -/
theorem fronted_localName (x : String) (i : Int) : Fronted (localName x i) := by
  unfold localName
  split
  · exact Fronted.append (by decide) _
  · next h =>
    -- A name that is kept is a plain one, so it starts with a letter or an underscore.
    simp only [Bool.or_eq_true, Bool.not_eq_true', not_or, Bool.not_eq_false] at h
    obtain ⟨_, hlocal⟩ := h
    unfold isLocalName at hlocal
    unfold Fronted
    cases hx : x.toList with
    | nil => simp [hx, isPlainName] at hlocal
    | cons c r =>
      have hne : c ≠ ' ' := by
        rintro rfl
        cases r <;> simp [hx, isPlainName, isNameStart, isAsciiLetter] at hlocal
      simpa using hne

theorem Operation.rest_upright {o : Operation} {c : Converter} (hc : c.IsBare) (ho : o.IsRegular)
    (hcall : ∀ args, ∀ x ∈ (o.call args).names, ' ' ∉ x.toList) : (o.wrapper c).rest.Upright := by
  have hb : (o.wrapper c).bindings = o.parameters.map Binding.Parameter.binding := bindings_eq hc o
  refine ⟨?_, ?_, ?_⟩
  · show (receive o.receiver).Upright
    cases o.receiver <;> trivial
  · rw [upright_ofList, hb]
    intro d hd
    obtain ⟨g, hg, rfl⟩ := List.mem_map.1 hd
    obtain ⟨b, hb, hg⟩ := List.mem_flatMap.1 hg
    obtain ⟨p, hp, rfl⟩ := List.mem_map.1 hb
    obtain ⟨q, i, _, _, _, _, hn⟩ := idx_of_mem_parameters hp
    have hname : Fronted p.name := hn ▸ fronted_localName ..
    exact Binding.gets_upright hname p.idx p.shape g hg
  · rw [answer_eq hc]
    exact Answer.ofCall_upright (Call.fronted_code (ho.known _) (hcall _)) ..

end Wrapper

/-- No line of a wrapper body starts with a blank, if no name does. -/
theorem Export.body_upright {c : Converter} (hc : c.IsBare) (name : String) {e : Export}
    (hnames : ∀ x ∈ e.names, ' ' ∉ x.toList) : (e.wrapperAs c name).body.Upright := by
  refine ⟨upright_ofList.2 (List.forall_mem_cons.2 ⟨Stmt.fronted_checkCount _, fun l hl => ?_⟩), ?_⟩
  · obtain ⟨st, hst, rfl⟩ := List.mem_map.1 hl
    obtain ⟨k, i, rfl, _⟩ := exists_of_mem_checks hc hst
    exact Stmt.fronted_check k i
  · obtain ⟨struct, rfl⟩ | ⟨struct, rfl⟩ | ⟨o, ho⟩ := cases_operation c name e
    · exact ⟨trivial, trivial, Stmt.fronted_bind .., Stmt.fronted_free .., Stmt.fronted_clearHandle⟩
    · exact ⟨trivial, trivial, Stmt.fronted_answer _⟩
    · have hrest := Wrapper.Operation.rest_upright hc ho.regular fun args x hx => hnames x (ho.callNames args x hx)
      rw [ho.wrapper]
      exact hrest

end RingBridge
