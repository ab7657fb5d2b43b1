import RingBridge.Document.Reading
import RingBridge.Document.Writing
import RingBridge.Proofs.Module.Exports
/-!
Documents written as data and read again. What is written is read back if every declaration has its names and types,
and whatever has been read has them.
-/
namespace RingBridge

def Param.IsComplete (p : Param Value) : Prop := p.name.isTrue = true ∧ p.type.isTrue = true

def Field.IsComplete (f : Field Value) : Prop := f.name.isTrue = true ∧ f.type.isTrue = true

structure Function.IsComplete (f : Function Value) : Prop where
  name : f.name.isTrue = true
  params : ∀ p ∈ f.params, p.IsComplete
  result : f.result ≠ some .null

namespace Declaration

def IsComplete : Declaration Value → Prop
  | struct s => s.name.isTrue = true ∧ ∀ f ∈ s.fields, f.IsComplete
  | impl i => i.name.isTrue = true ∧ ∀ f ∈ i.methods, f.IsComplete
  | func f => f.IsComplete

end Declaration

def Document.IsComplete (d : Document Value) : Prop := ∀ decl ∈ d.decls, decl.IsComplete

namespace Document

/-- A loop over written entries gives the entries. -/
theorem mapM_written {α : Type} {read : Value → Except DocumentError α} {write : α → Value} {xs : List α}
    (h : ∀ x ∈ xs, read (write x) = .ok x) : (xs.map write).mapM read = .ok xs := by
  induction xs with
  | nil => rfl
  | cons x xs ih =>
    obtain ⟨hx, hxs⟩ := List.forall_mem_cons.1 h
    rw [List.map_cons, List.mapM_cons, hx, ih hxs]
    rfl

theorem entryOf_record {what : Entry} {fs : Fields} {name type : Value} (hname : name.isTrue = true)
    (htype : type.isTrue = true) (hn : fieldOr fs "name" .null = name) (ht : fieldOr fs "type" .null = type) :
    entryOf what (.record fs) = .ok (⟨name, type⟩, fs) := by
  simp only [entryOf, hn, ht, hname, htype]
  rfl

theorem fieldOf_toValue (struct : String) {f : Field Value} (h : f.IsComplete) : fieldOf struct f.toValue = .ok f := by
  rw [fieldOf, Field.toValue, entryOf_record h.1 h.2 (by rfl) (by rfl)]
  rfl

theorem paramOf_toValue (function : String) {p : Param Value} (h : p.IsComplete) :
    paramOf function p.toValue = .ok p := by
  rw [paramOf, Param.toValue, entryOf_record h.1 h.2 (by rfl) (by rfl)]
  rfl

theorem receiverOf_name (function : String) (r : Receiver) : receiverOf function (.text r.name) = .ok r := by
  cases r <;> rfl

theorem resultOf_getD {r : Option Value} (h : r ≠ some .null) : resultOf (r.getD .null) = r := by
  cases r with
  | none => rfl
  | some v =>
    cases v with
    | null => exact absurd rfl h
    | boolean | integer | real | text | list | record => rfl

theorem nameOf_eq {what : Named} {fs : Fields} {name : Value} (hname : name.isTrue = true)
    (hn : fieldOr fs "name" .null = name) : nameOf what fs = .ok name := by
  simp only [nameOf, hn, hname]
  rfl

/-- Of the entries of a function only the parameters are read one by one, whatever stands in front of the entries. -/
theorem functionOf_eq {f : Function Value} (hname : f.name.isTrue = true) (hresult : f.result ≠ some .null) {fs : Fields}
    (hfs : ∀ key default, key ∈ ["name", "params", "result", "receiver", "public", "comment"] →
      fieldOr fs key default = fieldOr f.entries key default) :
    functionOf fs = (f.params.map Param.toValue).mapM (paramOf f.name.plain) >>= fun params => .ok { f with params } := by
  have hitems : itemsAt fs "params" = .ok (f.params.map Param.toValue) := by
    rw [itemsAt, hfs _ _ (by decide)]
    rfl
  have hreceiver : receiverOf f.name.plain (fieldOr fs "receiver" (.text "none")) = .ok f.receiver := by
    rw [hfs _ _ (by decide)]
    exact receiverOf_name _ f.receiver
  have hnull : resultOf (fieldOr fs "result" .null) = f.result := by
    rw [hfs _ _ (by decide)]
    exact resultOf_getD hresult
  have hpublic : fieldOr fs "public" (.boolean true) = f.isPublic := hfs _ _ (by decide)
  have hcomment : fieldOr fs "comment" (.text "") = f.comment := hfs _ _ (by decide)
  rw [functionOf, nameOf_eq hname (hfs _ _ (by decide))]
  show (itemsAt fs "params" >>= fun items => items.mapM (paramOf f.name.plain) >>= fun params =>
    receiverOf f.name.plain (fieldOr fs "receiver" (.text "none")) >>= fun receiver => _) = _
  rw [hitems, hreceiver, hnull, hpublic, hcomment]
  rfl

theorem functionOf_entries {f : Function Value} (h : f.IsComplete) {fs : Fields}
    (hfs : ∀ key default, key ∈ ["name", "params", "result", "receiver", "public", "comment"] →
      fieldOr fs key default = fieldOr f.entries key default) : functionOf fs = .ok f := by
  rw [functionOf_eq h.name h.result hfs, mapM_written fun p hp => paramOf_toValue _ (h.params p hp)]
  rfl

/-- The entries of a declared function stand behind its kind. -/
theorem fieldOr_func (f : Function Value) (key : String) (default : Value)
    (hkey : key ∈ ["name", "params", "result", "receiver", "public", "comment"]) :
    fieldOr (("kind", .text "func") :: f.entries) key default = fieldOr f.entries key default := by
  have hne : "kind" ≠ key := fun he => absurd (he ▸ hkey) (by decide)
  rw [fieldOr, Value.field?, List.find?_cons_of_neg (by simpa using hne)]
  rfl

theorem declarationOf_struct {t : Struct Value} (hname : t.name.isTrue = true) :
    declarationOf (Declaration.struct t).toValue =
      (t.fields.map Field.toValue).mapM (fieldOf t.name.plain) >>= fun fields => .ok (some (.struct { t with fields })) := by
  have hstruct : structOf [("kind", .text "struct"), ("name", t.name), ("public", t.isPublic), ("comment", t.comment),
      ("fields", .list (t.fields.map Field.toValue))] =
        (t.fields.map Field.toValue).mapM (fieldOf t.name.plain) >>= fun fields => .ok { t with fields } := by
    rw [structOf, nameOf_eq hname (by rfl)]
    rfl
  show (structOf _ >>= fun t => _) = _
  rw [hstruct, bind_assoc]
  rfl

theorem declarationOf_impl {i : Impl Value} (hname : i.name.isTrue = true) :
    declarationOf (Declaration.impl i).toValue =
      (i.methods.map fun f => .record f.entries).mapM methodOf >>= fun methods => .ok (some (.impl { i with methods })) := by
  have himpl : implOf [("kind", .text "impl"), ("name", i.name),
      ("methods", .list (i.methods.map fun f => .record f.entries))] =
        (i.methods.map fun f => .record f.entries).mapM methodOf >>= fun methods => .ok { i with methods } := by
    rw [implOf, nameOf_eq hname (by rfl)]
    rfl
  show (implOf _ >>= fun t => _) = _
  rw [himpl, bind_assoc]
  rfl

theorem declarationOf_func (f : Function Value) : declarationOf (Declaration.func f).toValue =
    functionOf (("kind", .text "func") :: f.entries) >>= fun f => .ok (some (.func f)) := rfl

theorem declarationOf_toValue {decl : Declaration Value} (h : decl.IsComplete) :
    declarationOf decl.toValue = .ok (some decl) := by
  cases decl with
  | struct t =>
    rw [declarationOf_struct h.1, mapM_written fun f hf => fieldOf_toValue _ (h.2 f hf)]
    rfl
  | impl i =>
    rw [declarationOf_impl h.1, mapM_written fun f hf => functionOf_entries (h.2 f hf) fun _ _ _ => rfl]
    rfl
  | func f =>
    rw [declarationOf_func, functionOf_entries h (fieldOr_func f)]
    rfl

theorem ofValue_eq (d : Document Value) : ofValue d.toValue =
    (d.decls.map Declaration.toValue).mapM declarationOf >>= fun decls =>
      .ok ⟨d.moduleName, d.modulePrefix, decls.filterMap id, .text ""⟩ := rfl

theorem filterMap_id_map_some {α : Type} (xs : List α) : (xs.map some).filterMap id = xs := by
  rw [List.filterMap_map, Function.id_comp, List.filterMap_some]

/-- A complete document is read back, all but its comment. -/
theorem ofValue_of_isComplete {d : Document Value} (h : d.IsComplete) :
    ofValue d.toValue = .ok { d with comment := .text "" } := by
  have hdecls : ∀ ds : List (Declaration Value), (∀ decl ∈ ds, decl.IsComplete) →
      (ds.map Declaration.toValue).mapM declarationOf = .ok (ds.map some) := by
    intro ds hds
    induction ds with
    | nil => rfl
    | cons decl ds ih =>
      obtain ⟨hdecl, hds⟩ := List.forall_mem_cons.1 hds
      rw [List.map_cons, List.mapM_cons, declarationOf_toValue hdecl, ih hds]
      rfl
  rw [ofValue_eq, hdecls d.decls h]
  show Except.ok (⟨d.moduleName, d.modulePrefix, (d.decls.map some).filterMap id, .text ""⟩ : Document Value) = _
  rw [filterMap_id_map_some]

/-- All that a loop gives was read from some item. -/
theorem mem_of_mapM {ε α β : Type} {f : α → Except ε β} {xs : List α} {ys : List β} (h : xs.mapM f = .ok ys) :
    ∀ y ∈ ys, ∃ x ∈ xs, f x = .ok y := by
  induction xs generalizing ys with
  | nil =>
    cases h
    nofun
  | cons x xs ih =>
    rw [List.mapM_cons] at h
    obtain ⟨b, hb, h⟩ := Except.exists_of_bind_eq_ok h
    obtain ⟨bs, hbs, h⟩ := Except.exists_of_bind_eq_ok h
    cases h
    refine List.forall_mem_cons.2 ⟨⟨x, List.mem_cons_self .., hb⟩, fun y hy => ?_⟩
    obtain ⟨z, hz, hy⟩ := ih hbs y hy
    exact ⟨z, List.mem_cons_of_mem x hz, hy⟩

theorem isComplete_of_entryOf {what : Entry} {v : Value} {p : Param Value} {fs : Fields}
    (h : entryOf what v = .ok (p, fs)) : p.IsComplete := by
  unfold entryOf at h
  split at h
  · simp only at h
    split at h
    · cases h
    · next hname =>
      split at h
      · cases h
      · next htype =>
        cases h
        exact ⟨by simpa using hname, by simpa using htype⟩
  · cases h

theorem isComplete_of_fieldOf {struct : String} {v : Value} {f : Field Value} (h : fieldOf struct v = .ok f) :
    f.IsComplete := by
  obtain ⟨⟨p, fs⟩, hp, h⟩ := Except.exists_of_bind_eq_ok h
  cases h
  exact isComplete_of_entryOf hp

theorem isComplete_of_paramOf {function : String} {v : Value} {p : Param Value} (h : paramOf function v = .ok p) :
    p.IsComplete := by
  obtain ⟨⟨q, fs⟩, hq, h⟩ := Except.exists_of_bind_eq_ok h
  cases h
  exact isComplete_of_entryOf hq

theorem isTrue_of_nameOf {what : Named} {fs : Fields} {name : Value} (h : nameOf what fs = .ok name) :
    name.isTrue = true := by
  simp only [nameOf] at h
  split at h
  · next hname =>
    cases h
    exact hname
  · cases h

theorem resultOf_ne_null (v : Value) : resultOf v ≠ some .null := by
  cases v <;> nofun

theorem isComplete_of_functionOf {fs : Fields} {f : Function Value} (h : functionOf fs = .ok f) : f.IsComplete := by
  obtain ⟨name, hname, h⟩ := Except.exists_of_bind_eq_ok h
  obtain ⟨items, _, h⟩ := Except.exists_of_bind_eq_ok h
  obtain ⟨params, hparams, h⟩ := Except.exists_of_bind_eq_ok h
  obtain ⟨receiver, _, h⟩ := Except.exists_of_bind_eq_ok h
  cases h
  refine ⟨isTrue_of_nameOf hname, fun p hp => ?_, resultOf_ne_null _⟩
  obtain ⟨v, _, hv⟩ := mem_of_mapM hparams p hp
  exact isComplete_of_paramOf hv

theorem isComplete_of_declarationOf {v : Value} {decl : Declaration Value} (h : declarationOf v = .ok (some decl)) :
    decl.IsComplete := by
  unfold declarationOf at h
  split at h
  · split at h
    · split at h
      · obtain ⟨t, ht, h⟩ := Except.exists_of_bind_eq_ok h
        cases h
        obtain ⟨name, hname, ht⟩ := Except.exists_of_bind_eq_ok ht
        obtain ⟨items, _, ht⟩ := Except.exists_of_bind_eq_ok ht
        obtain ⟨fields, hfields, ht⟩ := Except.exists_of_bind_eq_ok ht
        cases ht
        refine ⟨isTrue_of_nameOf hname, fun f hf => ?_⟩
        obtain ⟨w, _, hw⟩ := mem_of_mapM hfields f hf
        exact isComplete_of_fieldOf hw
      · split at h
        · obtain ⟨i, hi, h⟩ := Except.exists_of_bind_eq_ok h
          cases h
          obtain ⟨name, hname, hi⟩ := Except.exists_of_bind_eq_ok hi
          obtain ⟨items, _, hi⟩ := Except.exists_of_bind_eq_ok hi
          obtain ⟨methods, hmethods, hi⟩ := Except.exists_of_bind_eq_ok hi
          cases hi
          refine ⟨isTrue_of_nameOf hname, fun f hf => ?_⟩
          obtain ⟨w, _, hw⟩ := mem_of_mapM hmethods f hf
          unfold methodOf at hw
          split at hw
          · exact isComplete_of_functionOf hw
          · cases hw
        · split at h
          · obtain ⟨f, hf, h⟩ := Except.exists_of_bind_eq_ok h
            cases h
            exact isComplete_of_functionOf hf
          · cases h
    · cases h
  · cases h

theorem isComplete_of_ofValue {v : Value} {d : Document Value} (h : ofValue v = .ok d) : d.IsComplete := by
  unfold ofValue at h
  split at h
  · obtain ⟨items, _, h⟩ := Except.exists_of_bind_eq_ok h
    obtain ⟨found, hfound, h⟩ := Except.exists_of_bind_eq_ok h
    cases h
    intro decl hdecl
    obtain ⟨o, ho, hdecl⟩ := List.mem_filterMap.1 hdecl
    obtain ⟨w, _, hw⟩ := mem_of_mapM hfound o ho
    exact isComplete_of_declarationOf (hw.trans (congrArg _ hdecl))
  · cases h

/-- A document that is written as data is read back, all but its comment, exactly if every declaration is complete;
    and one that was read from data is written in the same way after it has been written and read once more. -/
theorem ofValue_toValue (d : Document Value) :
    (ofValue d.toValue = .ok { d with comment := .text "" } ↔ d.IsComplete) ∧
    ∀ v, ofValue v = .ok d → ∃ e, ofValue d.toValue = .ok e ∧ e.toValue = d.toValue := by
  refine ⟨⟨fun h => ?_, ofValue_of_isComplete⟩, fun v hv => ?_⟩
  · exact show Document.IsComplete { d with comment := .text "" } from isComplete_of_ofValue h
  · exact ⟨_, ofValue_of_isComplete (isComplete_of_ofValue hv), rfl⟩

/-- Kinds that are not known are passed over, and what is not given is written with its default. -/
theorem ofValue_toValue_counter :
    let count : Function Value := { name := .text "count", result := some (.text "i32"), receiver := .byRef }
    let v : Value := .record [("prefix", .text "demo"), ("decls", .list [
      .record [("kind", .text "struct"), ("name", .text "Counter"),
        ("fields", .list [.record [("name", .text "value"), ("type", .text "i32")]])],
      .record [("kind", .text "enum")],
      .record [("kind", .text "impl"), ("name", .text "Counter"), ("methods", .list [.record
        [("name", .text "count"), ("result", .text "i32"), ("receiver", .text "ref")]])]]), ("comment", .text "C")]
    let d : Document Value := { modulePrefix := .text "demo", comment := .text "C", decls := [
      .struct { name := .text "Counter", fields := [{ name := .text "value", type := .text "i32" }] },
      .impl { name := .text "Counter", methods := [count] }] }
    ofValue v = .ok d ∧ d.IsComplete ∧ ofValue d.toValue = .ok { d with comment := .text "" } ∧
      ∃ e, ofValue d.toValue = .ok e ∧ e.toValue = d.toValue := by
  intro count v d
  have hv : ofValue v = .ok d := rfl
  have hd : d.IsComplete := isComplete_of_ofValue hv
  exact ⟨hv, hd, (ofValue_toValue d).1.2 hd, (ofValue_toValue d).2 v hv⟩

end Document
end RingBridge
