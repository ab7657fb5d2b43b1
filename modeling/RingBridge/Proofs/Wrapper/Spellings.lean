import RingBridge.Proofs.Binding.Readers
import RingBridge.Proofs.Wrapper.Calls
/-!
Spellings in shapes. How text is passed on depends on the way its type is written; apart from that, wrappers do not
depend on the spellings that shapes keep, nor on the types that the shapes were read from.
-/
namespace RingBridge
open Code Wrapper

namespace Shape

mutual

def unspelled : Shape → Shape
  | number w => number w
  | text s => text s
  | boolean => boolean
  | unit => unit
  | vector t _ => vector t.unspelled ""
  | slice t m _ => slice t.unspelled m ""
  | option t _ => option t.unspelled ""
  | result t _ => result t.unspelled ""
  | tuple ts _ => tuple (unspelledEach ts) ""
  | boxed t _ => boxed t.unspelled ""
  | mapping k v _ => mapping k.unspelled v.unspelled ""
  | reference t m _ => reference t.unspelled m ""
  | named n _ => named n ""
  | unknown _ => unknown ""

def unspelledEach : List Shape → List Shape
  | [] => []
  | t :: ts => t.unspelled :: unspelledEach ts

end

theorem unspelledEach_eq_map (ts : List Shape) : unspelledEach ts = ts.map unspelled := by
  induction ts with
  | nil => rfl
  | cons t ts ih => rw [unspelledEach, ih, List.map_cons]

@[simp] theorem length_unspelledEach (ts : List Shape) : (unspelledEach ts).length = ts.length := by
  rw [unspelledEach_eq_map, List.length_map]

@[simp] theorem isKeyText_unspelled (s : Shape) : s.unspelled.isKeyText = s.isKeyText := by cases s <;> rfl

@[simp] theorem isTextView_unspelled (s : Shape) : s.unspelled.isTextView = s.isTextView := by cases s <;> rfl

@[simp] theorem scalarKind_unspelled (s : Shape) : s.unspelled.scalarKind = s.scalarKind := by cases s <;> rfl

@[simp] theorem scalar_unspelled (s : Shape) (slot : Slot) : s.unspelled.scalar slot = s.scalar slot := by
  cases s <;> rfl

@[simp] theorem pointee?_unspelled (s : Shape) : s.unspelled.pointee? = s.pointee? := by
  cases s with
  | reference t m sp => cases t <;> rfl
  | _ => rfl

theorem unbox_unspelled : (s : Shape) → s.unspelled.unbox = (s.unbox.1.unspelled, s.unbox.2)
  | boxed t _ => by rw [unspelled, unbox, unbox_unspelled t, unbox]
  | number _ | text _ | boolean | unit | vector _ _ | slice _ _ _ | option _ _ | result _ _ | tuple _ _ | mapping _ _ _
  | reference _ _ _ | named _ _ | unknown _ => rfl

mutual

@[simp] theorem kindText_unspelled : (s : Shape) → s.unspelled.kindText = s.kindText
  | number _ | text _ | boolean | unit | named _ _ | unknown _ => rfl
  | vector t _ | slice t _ _ | option t _ | result t _ | boxed t _ | reference t _ _ => by
    simp only [unspelled, kindText, kindText_unspelled t]
  | mapping k v _ => by simp only [unspelled, kindText, isKeyText_unspelled, kindText_unspelled k, kindText_unspelled v]
  | tuple ts _ => by simp only [unspelled, kindText, kindTexts_unspelledEach ts]

theorem kindTexts_unspelledEach : (ts : List Shape) → kindTexts (unspelledEach ts) = kindTexts ts
  | [] => rfl
  | t :: ts => by rw [unspelledEach, kindTexts, kindTexts, kindText_unspelled t, kindTexts_unspelledEach ts]

end

end Shape

namespace Binding

theorem readsLeaf_unspelled (o : Bool) (s : Shape) : readsLeaf o s.unspelled = readsLeaf o s := by
  cases s <;> rfl

theorem pushLeaf_eq_unspelled (s : Shape) (boxes : Nat) : pushLeaf s boxes = pushLeaf s.unspelled boxes := by
  funext vec list i n
  simp only [pushLeaf, Shape.pointee?_unspelled, Shape.scalarKind_unspelled, Shape.scalar_unspelled]

theorem bindLeaf_eq_unspelled (s : Shape) (boxes : Nat) : bindLeaf s boxes = bindLeaf s.unspelled boxes := by
  funext value list i n
  simp only [bindLeaf, Shape.pointee?_unspelled, Shape.scalarKind_unspelled, Shape.scalar_unspelled]

theorem reader_unspelled (o : Bool) (s : Shape) (boxes : Nat) : reader o s.unspelled boxes = reader o s boxes := by
  induction o, s, boxes using reader_induction with
  | boxed o s sp boxes ih => rw [Shape.unspelled, reader_boxed, reader_boxed, ih]
  | option s sp boxes ih =>
    have ih : optionalItem s.unspelled 0 = optionalItem s 0 := ih
    simp only [reader, Shape.unspelled, element, ih]
  | vector s sp boxes ih =>
    have ih : element s.unspelled 0 = element s 0 := ih
    simp only [reader, Shape.unspelled, element, ih]
  | optionalVector s sp boxes ih =>
    have ih : element s.unspelled 0 = element s 0 := ih
    simp only [reader, Shape.unspelled, optionalItem, ih]
  | leaf s boxes hs =>
    have hs' : readsLeaf false s.unspelled = true := (readsLeaf_unspelled ..).trans hs
    rw [reader_leaf hs, reader_leaf hs', pushLeaf_eq_unspelled s]
  | optionalLeaf s boxes hs =>
    have hs' : readsLeaf true s.unspelled = true := (readsLeaf_unspelled ..).trans hs
    rw [reader_optionalLeaf hs, reader_optionalLeaf hs', bindLeaf_eq_unspelled s]
theorem collect_unspelled (target : String) (s : Shape) (idx : Int) (mutable : Bool) (n : NameScope) :
    collect target s.unspelled idx mutable n = collect target s idx mutable n := by
  have helement : element s.unspelled 0 = element s 0 := reader_unspelled false s 0
  simp only [collect, Shape.isTextView_unspelled, helement]

theorem optional_unspelled (name : String) (s : Shape) (idx : Int) (n : NameScope) :
    optional name s.unspelled idx n = optional name s idx n := by
  unfold optional
  rw [Shape.unbox_unspelled]
  generalize s.unbox = unboxed
  obtain ⟨t, boxes⟩ := unboxed
  cases t with
  | vector t sp => simp only [Shape.unspelled, collect_unspelled]
  | reference t m sp => cases t <;> rfl
  | _ => rfl

def referred (name : String) (mutable : Bool) (b : Binding) : Binding :=
  ⟨b.checks, b.gets ++ if mutable && b.arg = .var name then [Code.line (.bind true name (.var name))] else [],
    .refer mutable b.arg⟩

/-- How a parameter is bound does not depend on spellings. -/
theorem ofShape_unspelled (name : String) (idx : Int) : (s : Shape) → ofShape name idx s.unspelled = ofShape name idx s
  | .number _ | .text _ | .boolean | .unit | .result _ _ | .tuple _ _ | .mapping _ _ _ | .named _ _ | .unknown _ => rfl
  | .vector t _ | .slice t _ _ => by simp only [Shape.unspelled, ofShape, collect_unspelled]
  | .option t _ => by simp only [Shape.unspelled, ofShape, optional_unspelled]
  | .boxed t _ => by simp only [Shape.unspelled, ofShape, ofShape_unspelled name idx t]
  | .reference t m _ => by
    have ih := ofShape_unspelled name idx t
    cases t with
    | named n sp => rfl
    | _ => exact congrArg (referred name m) ih

end Binding

namespace Answer

mutual

theorem append_unspelled : (s : Shape) → append s.unspelled = append s
  | .number _ | .text _ | .boolean | .unit | .named _ _ | .unknown _ => rfl
  | .vector t _ | .slice t _ _ | .option t _ | .result t _ | .reference t _ _ => by
    simp only [Shape.unspelled, append, append_unspelled t]
  | .tuple ts _ => by simp only [Shape.unspelled, append, Shape.length_unspelledEach, appendEach_unspelledEach ts]
  | .mapping k v _ => by
    simp only [Shape.unspelled, append, Shape.isKeyText_unspelled, append_unspelled k, append_unspelled v]
  | .boxed t _ => by
    have ih := append_unspelled t
    cases t with
    | named n sp => rfl
    | _ => exact congrArg (fun f : Filler => fun v => f (.deref v)) ih

theorem appendEach_unspelledEach : (ts : List Shape) → appendEach (Shape.unspelledEach ts) = appendEach ts
  | [] => rfl
  | t :: ts => by
    funext xs list n
    cases xs with
    | nil => rfl
    | cons x xs => simp only [Shape.unspelledEach, appendEach, append_unspelled t, appendEach_unspelledEach ts]

end

def raised (f : Expr → NameScope → Code × NameScope) (v : Expr) (n : NameScope) : Code × NameScope :=
  let (x, n) := n.fresh "val"
  let (e, n) := n.fresh "e"
  let (body, n) := f (.var x) n
  (.matchResult v x body (.raise e), n)

theorem ofShape_unspelled : (s : Shape) → ofShape s.unspelled = ofShape s
  | .number _ | .text _ | .boolean | .unit | .named _ _ | .unknown _ => rfl
  | .vector t _ | .slice t _ _ => by
    funext v n
    simp only [Shape.unspelled, ofShape, append_unspelled t]
  | .tuple ts _ => by
    funext v n
    simp only [Shape.unspelled, ofShape, Shape.length_unspelledEach, appendEach_unspelledEach ts]
  | .mapping k x _ => by
    funext v n
    simp only [Shape.unspelled, ofShape, Shape.isKeyText_unspelled, append_unspelled]
  | .option t _ | .reference t _ _ => by
    funext v n
    simp only [Shape.unspelled, ofShape, ofShape_unspelled t]
  | .result t _ => by
    have ih := ofShape_unspelled t
    funext v n
    cases t with
    | unit => rfl
    | _ => exact congrArg (fun f => raised f v n) ih
  | .boxed t _ => by
    have ih := ofShape_unspelled t
    funext v n
    cases t with
    | named r sp => rfl
    | _ => exact congrFun (congrFun ih (.deref v)) n

def handed (f : Expr → NameScope → Code × NameScope) (call : Call) (n : NameScope) : Code × NameScope :=
  let (result, n) := n.fresh "result"
  let (body, n) := f (.var result) n
  (.seq (.line (.bindCall result call)) body, n)

/-- How a value is answered does not depend on spellings. -/
theorem ofCall_unspelled (s : Option Shape) (call : Call) (n : NameScope) :
    ofCall (s.map Shape.unspelled) call n = ofCall s call n := by
  cases s with
  | none => rfl
  | some s =>
    have ih := ofShape_unspelled s
    cases s with
    | unit => rfl
    | _ => exact congrArg (fun f => handed f call n) ih

end Answer

namespace Wrapper.Operation
variable {c : Converter}

def unspelled (o : Operation) : Operation :=
  { o with
    params := o.params.map fun p => ⟨p.name, ""⟩
    shapes := o.shapes.map Shape.unspelled
    result := none
    resultShape := o.declared.map Shape.unspelled }

theorem declared_unspelled (o : Operation) : o.unspelled.declared = o.declared.map Shape.unspelled := by
  simp [declared, unspelled, Converter.shapeOf]

theorem zip_unspelled (o : Operation) : o.unspelled.params.zip o.unspelled.shapes =
    (o.params.zip o.shapes).map fun x => (⟨x.1.name, ""⟩, x.2.unspelled) := by
  rw [unspelled, List.zip_map]
  rfl

theorem bindings_unspelled (hc : c.IsBare) (o : Operation) :
    bindings c o.offset (o.unspelled.params.zip o.unspelled.shapes) = bindings c o.offset (o.params.zip o.shapes) := by
  rw [zip_unspelled, bindings, bindings, List.zipIdx_map, List.map_map]
  refine List.map_congr_left fun x _ => ?_
  simp only [Function.comp_apply, Prod.map, id_eq, hc.bind_eq, Binding.ofShape_unspelled]

theorem registration_unspelled (hc : c.IsBare) (o : Operation) : registration c o.unspelled = registration c o := by
  have hparams : (o.unspelled.params.zip o.unspelled.shapes).map
      (fun x => (x.1.name, c.kindText (some x.1.type) (some x.2))) =
        (o.params.zip o.shapes).map fun x => (x.1.name, c.kindText (some x.1.type) (some x.2)) := by
    rw [zip_unspelled, List.map_map]
    refine List.map_congr_left fun x _ => ?_
    simp [hc.kindText_eq, Converter.shapeOf, Shape.kindText?]
  have hresult : c.kindText o.unspelled.result (Converter.shapeOf o.unspelled.result o.unspelled.resultShape) =
      c.kindText o.result (Converter.shapeOf o.result o.resultShape) := by
    rw [hc.kindText_eq, hc.kindText_eq]
    show Shape.kindText? o.unspelled.declared = Shape.kindText? o.declared
    rw [declared_unspelled]
    cases o.declared with
    | none => rfl
    | some s => exact s.kindText_unspelled
  show Registration.mk o.exported _ (selfParam o.receiver ++ _) _ o.struct o.comment = _
  rw [hparams, hresult]
  rfl

/-- The wrapper of an operation depends on its shapes, but not on the types they are read from, nor on the spellings
    they keep. -/
theorem wrapper_unspelled (hc : c.IsBare) (o : Operation) : wrapper c o.unspelled = wrapper c o := by
  have hanswer : (wrapper c o.unspelled).answer = (wrapper c o).answer := by
    have hcall : ∀ args, (Answer.ofCall o.unspelled.declared (o.call args) {}).1 =
        (Answer.ofCall o.declared (o.call args) {}).1 := by
      intro args
      rw [declared_unspelled, Answer.ofCall_unspelled]
    show (c.answer _ (o.call ((bindings c o.offset _).map Binding.arg)) _).1 =
      (c.answer _ (o.call ((bindings c o.offset _).map Binding.arg)) _).1
    rw [bindings_unspelled hc, hc.answer_eq, hc.answer_eq]
    exact hcall _
  show Wrapper.mk (registration c o.unspelled) (o.unspelled.params.length + o.offset) o.receiver
    (bindings c o.offset _) (wrapper c o.unspelled).answer = _
  rw [registration_unspelled hc, bindings_unspelled hc, hanswer, unspelled, List.length_map]
  rfl

end Wrapper.Operation

end RingBridge
