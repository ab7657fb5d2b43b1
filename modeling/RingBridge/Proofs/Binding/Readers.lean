import RingBridge.Binding
/-!
Readers of list items. A reader is made from the reader of what a shape holds, or reads an item as one value; what each
step of that keeps holds of all readers.
-/
namespace RingBridge.Binding

def reader : Bool → Shape → Nat → ItemReader
  | false => element
  | true => optionalItem

def readsLeaf (optional : Bool) : Shape → Bool
  | .boxed _ _ | .vector _ _ => false
  | .option _ _ => optional
  | _ => true

variable {s : Shape}

theorem reader_boxed (o : Bool) (s : Shape) (sp : String) (boxes : Nat) :
    reader o (.boxed s sp) boxes = reader o s (boxes + 1) := by
  cases o <;> rfl

theorem reader_leaf (hs : readsLeaf false s = true) (boxes : Nat) : reader false s boxes = pushLeaf s boxes := by
  cases s with
  | boxed _ _ | option _ _ | vector _ _ => cases hs
  | _ => rfl

theorem reader_optionalLeaf (hs : readsLeaf true s = true) (boxes : Nat) : reader true s boxes = bindLeaf s boxes := by
  cases s with
  | boxed _ _ | vector _ _ => cases hs
  | _ => rfl

/-- Induction on how a reader is made. -/
@[elab_as_elim]
theorem reader_induction {motive : Bool → Shape → Nat → Prop}
    (boxed : ∀ o s sp boxes, motive o s (boxes + 1) → motive o (.boxed s sp) boxes)
    (option : ∀ s sp boxes, motive true s 0 → motive false (.option s sp) boxes)
    (vector : ∀ s sp boxes, motive false s 0 → motive false (.vector s sp) boxes)
    (optionalVector : ∀ s sp boxes, motive false s 0 → motive true (.vector s sp) boxes)
    (leaf : ∀ s boxes, readsLeaf false s = true → motive false s boxes)
    (optionalLeaf : ∀ s boxes, readsLeaf true s = true → motive true s boxes) :
    (o : Bool) → (s : Shape) → (boxes : Nat) → motive o s boxes
  | o, .boxed s sp, boxes =>
    boxed o s sp boxes (reader_induction boxed option vector optionalVector leaf optionalLeaf o s (boxes + 1))
  | false, .option s sp, boxes =>
    option s sp boxes (reader_induction boxed option vector optionalVector leaf optionalLeaf true s 0)
  | false, .vector s sp, boxes =>
    vector s sp boxes (reader_induction boxed option vector optionalVector leaf optionalLeaf false s 0)
  | true, .vector s sp, boxes =>
    optionalVector s sp boxes (reader_induction boxed option vector optionalVector leaf optionalLeaf false s 0)
  | true, .option s sp, boxes => optionalLeaf (.option s sp) boxes rfl
  | o, .number _, boxes | o, .text _, boxes | o, .boolean, boxes | o, .unit, boxes | o, .slice _ _ _, boxes
  | o, .result _ _, boxes | o, .tuple _ _, boxes | o, .mapping _ _ _, boxes | o, .reference _ _ _, boxes
  | o, .named _ _, boxes | o, .unknown _, boxes =>
    match o with
    | false => leaf _ boxes rfl
    | true => optionalLeaf _ boxes rfl

/-- The same for the readers of optional items alone. -/
@[elab_as_elim]
theorem optionalItem_induction {motive : Shape → Nat → Prop}
    (boxed : ∀ s sp boxes, motive s (boxes + 1) → motive (.boxed s sp) boxes)
    (vector : ∀ s sp boxes, motive (.vector s sp) boxes)
    (leaf : ∀ s boxes, readsLeaf true s = true → motive s boxes) (s : Shape) (boxes : Nat) : motive s boxes := by
  have hreader : ∀ o s boxes, o = true → motive s boxes := by
    intro o s boxes
    induction o, s, boxes using reader_induction with
    | boxed o s sp boxes ih => exact fun ho => boxed s sp boxes (ih ho)
    | optionalVector s sp boxes _ => exact fun _ => vector s sp boxes
    | optionalLeaf s boxes hs => exact fun _ => leaf s boxes hs
    | _ => nofun
  exact hreader true s boxes rfl

end RingBridge.Binding
