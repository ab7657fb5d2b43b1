import RingBridge.Document.Reading
/-!
Which data is read or reported. Two mistakes are not looked for and end the reading without a report: a loop goes
over a value that has no items, or a method is no record. They count where nothing before them has been reported.
-/
namespace RingBridge

def Value.isIterable : Value → Bool
  | .text _ | .list _ | .record _ => true
  | .null | .boolean _ | .integer _ | .real _ => false

namespace Document

variable {α β : Type}

def EndsSilently (r : Except DocumentError α) : Prop := ∃ e, r = .error e ∧ e.message? = none

theorem not_endsSilently_ok (a : α) : ¬ EndsSilently (.ok a) := nofun
theorem not_endsSilently_pure (a : α) : ¬ EndsSilently (pure a) := not_endsSilently_ok a

theorem endsSilently_error {e : DocumentError} : EndsSilently (.error e : Except DocumentError α) ↔ e.message? = none := by
  constructor
  · rintro ⟨_, ⟨⟩, h⟩
    exact h
  · exact fun h => ⟨e, rfl, h⟩

theorem endsSilently_bind {r : Except DocumentError α} {f : α → Except DocumentError β} :
    EndsSilently (r >>= f) ↔ EndsSilently r ∨ ∃ a, r = .ok a ∧ EndsSilently (f a) := by
  cases r with
  | error e =>
    show EndsSilently (.error e) ↔ _
    simp [endsSilently_error]
  | ok a =>
    show EndsSilently (f a) ↔ _
    simp [not_endsSilently_ok]

/-- A step that reports its failures can be left out. -/
theorem endsSilently_bind_right {r : Except DocumentError α} {f : α → Except DocumentError β} (hr : ¬ EndsSilently r) :
    EndsSilently (r >>= f) ↔ ∃ a, r = .ok a ∧ EndsSilently (f a) := by
  rw [endsSilently_bind, or_iff_right hr]

theorem endsSilently_bind_left {r : Except DocumentError α} {f : α → Except DocumentError β}
    (hf : ∀ a, ¬ EndsSilently (f a)) : EndsSilently (r >>= f) ↔ EndsSilently r := by
  rw [endsSilently_bind, or_iff_left]
  exact fun ⟨a, _, h⟩ => hf a h

/-- The first failure of a loop is what counts. -/
theorem endsSilently_mapM {f : α → Except DocumentError β} {xs : List α} :
    EndsSilently (xs.mapM f) ↔
      ∃ before x after, xs = before ++ x :: after ∧ (∀ y ∈ before, ∃ b, f y = .ok b) ∧ EndsSilently (f x) := by
  induction xs with
  | nil =>
    rw [List.mapM_nil]
    constructor
    · exact fun h => absurd h (not_endsSilently_ok _)
    · rintro ⟨before, x, after, h, -⟩
      exact absurd h (by simp)
  | cons x xs ih =>
    rw [List.mapM_cons, endsSilently_bind]
    have hrest : ∀ b, EndsSilently (xs.mapM f >>= fun bs => pure (b :: bs)) ↔ EndsSilently (xs.mapM f) :=
      fun b => endsSilently_bind_left fun _ => not_endsSilently_pure _
    constructor
    · rintro (h | ⟨b, hb, h⟩)
      · exact ⟨[], x, xs, rfl, by simp, h⟩
      · obtain ⟨before, y, after, rfl, hread, hy⟩ := ih.1 ((hrest b).1 h)
        exact ⟨x :: before, y, after, rfl, List.forall_mem_cons.2 ⟨⟨b, hb⟩, hread⟩, hy⟩
    · rintro ⟨before, y, after, hxs, hread, hy⟩
      cases before with
      | nil =>
        cases hxs
        exact .inl hy
      | cons z before =>
        cases hxs
        obtain ⟨⟨b, hb⟩, hread⟩ := List.forall_mem_cons.1 hread
        exact .inr ⟨b, hb, (hrest b).2 (ih.2 ⟨before, y, after, rfl, hread, hy⟩)⟩

theorem endsSilently_itemsOf (v : Value) : EndsSilently (itemsOf v) ↔ v.isIterable = false := by
  cases v with
  | text | list | record => simp [itemsOf, not_endsSilently_ok, Value.isIterable]
  | null | boolean | integer | real => simp [itemsOf, endsSilently_error, DocumentError.message?, Value.isIterable]

/-- A loop over the value ends without a report: there are no items, or those before a bad one are read. -/
def BreaksLoop (read : Value → Except DocumentError α) (bad : Value → Prop) (v : Value) : Prop :=
  v.isIterable = false ∨
    ∃ before x after, itemsOf v = .ok (before ++ x :: after) ∧ (∀ y ∈ before, ∃ a, read y = .ok a) ∧ bad x

/-- A loop over what a key holds, in front of a step that always succeeds. -/
theorem endsSilently_loop {read : Value → Except DocumentError α} {bad : Value → Prop} (hread : ∀ v, EndsSilently (read v) ↔ bad v)
    {k : List α → Except DocumentError β} (hk : ∀ as, ¬ EndsSilently (k as)) (fs : Fields) (key : String) :
    EndsSilently (itemsAt fs key >>= fun items => items.mapM read >>= k) ↔ BreaksLoop read bad (fieldOr fs key (.list [])) := by
  have hloop : ∀ items : List Value, EndsSilently (items.mapM read >>= k) ↔ EndsSilently (items.mapM read) :=
    fun items => endsSilently_bind_left hk
  rw [endsSilently_bind, itemsAt, endsSilently_itemsOf, BreaksLoop]
  refine or_congr_right ?_
  constructor
  · rintro ⟨items, hitems, h⟩
    obtain ⟨before, x, after, rfl, hbefore, hx⟩ := endsSilently_mapM.1 ((hloop items).1 h)
    exact ⟨before, x, after, hitems, hbefore, (hread x).1 hx⟩
  · rintro ⟨before, x, after, hitems, hbefore, hx⟩
    exact ⟨_, hitems, (hloop _).2 (endsSilently_mapM.2 ⟨before, x, after, rfl, hbefore, (hread x).2 hx⟩)⟩

/-- A loop in which each failure is reported. -/
theorem breaksLoop_iff {read : Value → Except DocumentError α} (v : Value) :
    BreaksLoop read (fun _ => False) v ↔ v.isIterable = false := by
  simp [BreaksLoop]

theorem not_endsSilently_nameOf (what : Named) (fs : Fields) : ¬ EndsSilently (nameOf what fs) := by
  simp only [nameOf]
  split
  · exact not_endsSilently_ok _
  · simp [endsSilently_error, DocumentError.message?]

theorem nameOf_eq_ok {what : Named} {fs : Fields} {name : Value} :
    nameOf what fs = .ok name ↔ name = fieldOr fs "name" .null ∧ name.isTrue = true := by
  simp only [nameOf]
  split
  · next h =>
    rw [Except.ok.injEq]
    exact ⟨fun hn => hn ▸ ⟨rfl, h⟩, fun hn => hn.1.symm⟩
  · next h =>
    refine ⟨nofun, ?_⟩
    rintro ⟨rfl, hname⟩
    exact absurd hname h

theorem not_endsSilently_entryOf (what : Entry) (v : Value) : ¬ EndsSilently (entryOf what v) := by
  unfold entryOf
  split
  · simp only
    split
    · simp [endsSilently_error, DocumentError.message?]
    · split
      · simp [endsSilently_error, DocumentError.message?]
      · exact not_endsSilently_ok _
  · simp [endsSilently_error, DocumentError.message?]

theorem not_endsSilently_fieldOf (struct : String) (v : Value) : ¬ EndsSilently (fieldOf struct v) := by
  rw [fieldOf, endsSilently_bind_left fun _ => not_endsSilently_pure _]
  exact not_endsSilently_entryOf _ v

theorem not_endsSilently_paramOf (function : String) (v : Value) : ¬ EndsSilently (paramOf function v) := by
  rw [paramOf, endsSilently_bind_left fun _ => not_endsSilently_pure _]
  exact not_endsSilently_entryOf _ v

theorem not_endsSilently_receiverOf (function : String) (v : Value) : ¬ EndsSilently (receiverOf function v) := by
  unfold receiverOf
  split
  · split
    · exact not_endsSilently_ok _
    · simp [endsSilently_error, DocumentError.message?]
  · simp [endsSilently_error, DocumentError.message?]

def Unlisted (key : String) (fs : Fields) : Prop :=
  (fieldOr fs "name" .null).isTrue = true ∧ (fieldOr fs key (.list [])).isIterable = false

/-- What follows a name ends without a report. -/
theorem endsSilently_named {what : Named} {fs : Fields} {k : Value → Except DocumentError α} {bad : Prop}
    (hk : ∀ name, EndsSilently (k name) ↔ bad) :
    EndsSilently (nameOf what fs >>= k) ↔ (fieldOr fs "name" .null).isTrue = true ∧ bad := by
  rw [endsSilently_bind_right (not_endsSilently_nameOf what fs)]
  constructor
  · rintro ⟨name, hname, h⟩
    obtain ⟨rfl, htrue⟩ := nameOf_eq_ok.1 hname
    exact ⟨htrue, (hk _).1 h⟩
  · rintro ⟨htrue, h⟩
    exact ⟨_, nameOf_eq_ok.2 ⟨rfl, htrue⟩, (hk _).2 h⟩

theorem endsSilently_structOf (fs : Fields) : EndsSilently (structOf fs) ↔ Unlisted "fields" fs := by
  refine endsSilently_named fun name => ?_
  rw [endsSilently_loop (fun v => iff_false_intro (not_endsSilently_fieldOf _ v)) fun _ => not_endsSilently_pure _,
    breaksLoop_iff]

theorem endsSilently_functionOf (fs : Fields) : EndsSilently (functionOf fs) ↔ Unlisted "params" fs := by
  refine endsSilently_named fun name => ?_
  rw [endsSilently_loop (fun v => iff_false_intro (not_endsSilently_paramOf _ v)) fun _ => ?_, breaksLoop_iff]
  rw [endsSilently_bind_left fun _ => not_endsSilently_pure _]
  exact not_endsSilently_receiverOf _ _

def BadMethod : Value → Prop
  | .record fs => Unlisted "params" fs
  | _ => True

theorem endsSilently_methodOf (v : Value) : EndsSilently (methodOf v) ↔ BadMethod v := by
  cases v with
  | record fs => exact endsSilently_functionOf fs
  | null | boolean | integer | real | text | list =>
    simp [methodOf, BadMethod, endsSilently_error, DocumentError.message?]

def BadImpl (fs : Fields) : Prop :=
  (fieldOr fs "name" .null).isTrue = true ∧ BreaksLoop methodOf BadMethod (fieldOr fs "methods" (.list []))

theorem endsSilently_implOf (fs : Fields) : EndsSilently (implOf fs) ↔ BadImpl fs :=
  endsSilently_named fun _ => endsSilently_loop endsSilently_methodOf (fun _ => not_endsSilently_pure _) fs "methods"

def BadDeclaration : Value → Prop
  | .record fs => ∃ kind, fieldOr fs "kind" .null = .text kind ∧
    (kind = "struct" ∧ Unlisted "fields" fs ∨ kind = "impl" ∧ BadImpl fs ∨ kind = "func" ∧ Unlisted "params" fs)
  | _ => False

theorem endsSilently_declarationOf (v : Value) : EndsSilently (declarationOf v) ↔ BadDeclaration v := by
  cases v with
  | null | boolean | integer | real | text | list =>
    simp [declarationOf, BadDeclaration, endsSilently_error, DocumentError.message?]
  | record fs =>
    rw [declarationOf, BadDeclaration]
    split
    · next kind hkind =>
      simp only [hkind, Value.text.injEq, exists_eq_left']
      split
      · next h =>
        rw [endsSilently_bind_left fun _ => not_endsSilently_pure _, endsSilently_structOf]
        simp [h]
      · split
        · next h =>
          rw [endsSilently_bind_left fun _ => not_endsSilently_pure _, endsSilently_implOf]
          simp [h]
        · split
          · next h =>
            rw [endsSilently_bind_left fun _ => not_endsSilently_pure _, endsSilently_functionOf]
            simp [h]
          · next hs hi hf => simpa [hs, hi, hf] using not_endsSilently_pure _
    · next hkind =>
      refine iff_of_false (not_endsSilently_pure _) ?_
      rintro ⟨kind, h, -⟩
      exact hkind kind h

def BadDocument : Value → Prop
  | .record fs => BreaksLoop declarationOf BadDeclaration (fieldOr fs "decls" (.list []))
  | _ => False

theorem endsSilently_ofValue (v : Value) : EndsSilently (ofValue v) ↔ BadDocument v := by
  cases v with
  | null | boolean | integer | real | text | list =>
    simp [ofValue, BadDocument, endsSilently_error, DocumentError.message?]
  | record fs => exact endsSilently_loop endsSilently_declarationOf (fun _ => not_endsSilently_pure _) fs "decls"

/-- Any data is read as a document or its failure is reported, but for loops over what has no items and methods that
    are no records. -/
theorem ofValue_reports (v : Value) :
    ((∃ d, ofValue v = .ok d) ∨ ∃ e message, ofValue v = .error e ∧ e.message? = some message) ↔ ¬ BadDocument v := by
  rw [← endsSilently_ofValue]
  cases ofValue v with
  | ok d => simp [not_endsSilently_ok]
  | error e => simp [endsSilently_error, Option.ne_none_iff_exists']

/-- Declarations that are a number, and a method that is one. -/
theorem ofValue_silent :
    ofValue (.record [("decls", .integer 5)]) = .error .notIterable ∧ DocumentError.notIterable.message? = none ∧
    ofValue (.record [("decls", .list [.record [("kind", .text "impl"), ("name", .text "A"),
      ("methods", .list [.integer 1])]])]) = .error .methodNotRecord ∧ DocumentError.methodNotRecord.message? = none :=
  ⟨rfl, rfl, rfl, rfl⟩

end Document
end RingBridge
