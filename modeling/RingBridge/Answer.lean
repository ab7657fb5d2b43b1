import RingBridge.Code
/-!
Answers: the code that hands the value of a call back to the scripting side, by the declared shape of the
result. A missing value leaves the answer unset, or an empty item in a list; an error is raised, or is an
empty item in a list.
-/
namespace RingBridge.Answer
open Code

abbrev Filler := Expr → String → NameScope → Code × NameScope

def itemsOf (item : Filler) : Filler := fun v list n =>
  let (x, n) := n.fresh "item"
  let (body, n) := item (.var x) list n
  (.each x v body, n)

def debugText : Filler := fun v list n => (.line (.append list (.text (.debug v))), n)

def entriesOf (key value : Filler) : Filler := fun v list n =>
  let (k, n) := n.fresh "k"
  let (x, n) := n.fresh "v"
  let (pair, n) := n.fresh "pair"
  let (first, n) := key (.var k) pair n
  let (second, n) := value (.var x) pair n
  (.eachPair k x v (.seq (.line (.bind false pair (.subList list))) (.seq first second)), n)

def partsOf (count : Nat) (parts : List String → String → NameScope → Code × NameScope) : Filler := fun v list n =>
  let (names, n) := n.freshEach ((List.range count).map fun i => s!"t{i}")
  let (body, n) := parts names list n
  (.seq (.line (.bindTuple names v)) body, n)

def sublist (filler : Filler) : Filler := fun v list n =>
  let (sub, n) := n.fresh "sub"
  let (body, n) := filler v sub n
  (.seq (.line (.bind false sub (.subList list))) body, n)

mutual

def append : Shape → Filler
  | .number _ | .unknown _ => fun v list n => (.line (.append list (.number v)), n)
  | .boolean => fun v list n => (.line (.append list (.truth v)), n)
  | .text _ => fun v list n => (.line (.append list (.text v)), n)
  | .unit => fun _ list n => (.line (.appendHole list), n)
  | .vector t _ => sublist (itemsOf (append t))
  | .slice t _ _ => sublist fun v => itemsOf (append t) (.toVec v)
  | .tuple ts _ => sublist (partsOf ts.length (appendEach ts))
  | .mapping k v _ => sublist (entriesOf (if k.isKeyText then append k else debugText) (append v))
  | .option t _ => fun v list n =>
    let (x, n) := n.fresh "val"
    let (body, n) := append t (.var x) list n
    (.matchOption v x body (.hole list), n)
  | .result t _ => fun v list n =>
    let (x, n) := n.fresh "val"
    let (body, n) := append t (.var x) list n
    (.matchResult v x body (.hole list), n)
  | .boxed (.named struct _) _ => fun v list n => (.line (.append list (.pointer v struct)), n)
  | .boxed t _ => fun v => append t (.deref v)
  | .reference t _ _ => fun v => append t (.clone v)
  | .named struct _ => fun v list n => (.line (.append list (.pointer (.box v) struct)), n)

def appendEach : List Shape → List String → String → NameScope → Code × NameScope
  | t :: ts, x :: xs, list, n =>
    let (first, n) := append t (.var x) list n
    let (rest, n) := appendEach ts xs list n
    (.seq first rest, n)
  | _, _, _, n => (.skip, n)

end

def listOf (filler : Filler) (v : Expr) (n : NameScope) : Code × NameScope :=
  let (list, n) := n.fresh "list"
  let (body, n) := filler v list n
  (.seq (.line (.bind false list .newList)) (.seq body (.line (.answerList list))), n)

def ofShape : Shape → Expr → NameScope → Code × NameScope
  | .number _, v, n | .unknown _, v, n => (.line (.answer (.number v)), n)
  | .boolean, v, n => (.line (.answer (.truth v)), n)
  | .text _, v, n => (.line (.answer (.text v)), n)
  | .unit, _, n => (.skip, n)
  | .vector t _, v, n => listOf (itemsOf (append t)) v n
  | .slice t _ _, v, n => listOf (itemsOf (append t)) (.toVec v) n
  | .tuple ts _, v, n => listOf (partsOf ts.length (appendEach ts)) v n
  | .mapping k x _, v, n => listOf (entriesOf (if k.isKeyText then append k else debugText) (append x)) v n
  | .option t _, v, n =>
    let (x, n) := n.fresh "val"
    let (body, n) := ofShape t (.var x) n
    (.matchOption v x body .nothing, n)
  | .result .unit _, v, n =>
    let (_, n) := n.fresh "val"
    let (e, n) := n.fresh "e"
    (.matchDone v (.raise e), n)
  | .result t _, v, n =>
    let (x, n) := n.fresh "val"
    let (e, n) := n.fresh "e"
    let (body, n) := ofShape t (.var x) n
    (.matchResult v x body (.raise e), n)
  | .boxed (.named struct _) _, v, n => (.line (.answer (.pointer v struct)), n)
  | .boxed t _, v, n => ofShape t (.deref v) n
  | .reference t _ _, v, n => ofShape t (.clone v) n
  | .named struct _, v, n => (.line (.answer (.pointer (.box v) struct)), n)

/-- Evaluates a call and answers its value; without a type, or with the unit type, the value is dropped. -/
def ofCall (shape : Option Shape) (call : Call) (n : NameScope) : Code × NameScope :=
  match shape with
  | none | some .unit => (.line (.perform call), n)
  | some s =>
    let (result, n) := n.fresh "result"
    let (body, n) := ofShape s (.var result) n
    (.seq (.line (.bindCall result call)) body, n)

end RingBridge.Answer
