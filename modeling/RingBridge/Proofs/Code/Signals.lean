import Mathlib.Data.List.Basic
import Mathlib.Data.List.Find
import RingBridge.Proofs.Code.Traces
/-!
What is done on a way: the answers that are set, the errors that are raised, and the items that lists receive, each with
the text that is written for it.
-/
namespace RingBridge
open Layout

def Outgoing.kind : Outgoing → Kind
  | number _ | truth _ => .number
  | text _ => .string
  | pointer _ _ => .pointer

def Outgoing.value : Outgoing → Expr
  | number e | truth e | text e | pointer e _ => e

def Expr.base : Expr → Expr
  | box e | owned e | refer _ e | full e | clone e | deref e | toVec e | debug e => e.base
  | e => e

/-- What the caller sees of a call: its answer is set, or an error is raised. -/
inductive Signal where
  | answer (kind : Kind)
  | error
deriving DecidableEq

inductive ListItem where
  | value (kind : Kind) (of : Expr)
  | hole
  | list (items : List ListItem)

namespace Step

def signal? : Step → Option Signal
  | stmt (.answer o) => some (.answer o.kind)
  | stmt (.answerList _) => some (.answer .list)
  | stmt (.invalidPointer _) | miss (.raise _) => some .error
  | _ => none

/-- The items that a step appends to a list. A list that is appended receives its own items later. -/
def items (l : String) (later : String → List ListItem) : Step → List ListItem
  | stmt (.append x o) => if x = l then [.value o.kind o.value.base] else []
  | stmt (.appendHole x) | miss (.hole x) => if x = l then [.hole] else []
  | stmt (.bind _ x (.subList y)) => if y = l then [.list (later x)] else []
  | _ => []

end Step

def Missing.action : Missing → String
  | nothing => "\x7b\x7d"
  | hole l => "ring_list_newitem(" ++ l ++ "),"
  | raise e => "ring_error!(p, &format!(\"\x7b\x7d\", " ++ e ++ ")),"

theorem Missing.code_eq (m : Missing) (pattern : String) : m.code pattern = pattern ++ " => " ++ m.action := by
  cases m with
  | nothing =>
    have hcode : nothing.code pattern = pattern ++ " => \x7b\x7d" := rfl
    have harm : " => \x7b\x7d" = " => " ++ "\x7b\x7d" := rfl
    rw [hcode, harm, ← String.append_assoc]
    rfl
  | hole l =>
    have hcode : (hole l).code pattern = pattern ++ " => ring_list_newitem(" ++ l ++ ")," := rfl
    have haction : (hole l).action = "ring_list_newitem(" ++ l ++ ")," := rfl
    have harm : " => ring_list_newitem(" = " => " ++ "ring_list_newitem(" := rfl
    simp only [hcode, haction, harm, String.append_assoc]
  | raise e =>
    have hcode : (raise e).code pattern = pattern ++ " => ring_error!(p, &format!(\"\x7b\x7d\", " ++ e ++ "))," := rfl
    have haction : (raise e).action = "ring_error!(p, &format!(\"\x7b\x7d\", " ++ e ++ "))," := rfl
    have harm : " => ring_error!(p, &format!(\"\x7b\x7d\", " = " => " ++ "ring_error!(p, &format!(\"\x7b\x7d\", " := rfl
    simp only [hcode, haction, harm, String.append_assoc]

namespace Step

def text? : Step → Option String
  | stmt (.perform _) => none
  | stmt s => some s.code
  | miss m => some m.action
  | move _ | bind _ => none

theorem text?_stmt {s : Stmt} (hcall : ∀ c, s ≠ .perform c) : (stmt s).text? = some s.code := by
  unfold text?
  split
  · next c he => exact absurd (stmt.inj he) (hcall c)
  · next he => rw [stmt.inj he]
  · next he => cases he
  all_goals next he => cases he

/-- What is written for the step begins with a word of its own, not with a name or a value. -/
def isWorded : Step → Bool
  | stmt (.verbatim _ _) | stmt (.push _ _) | stmt (.yield _) => false
  | _ => true

end Step

namespace Code

def signals (p : List Step) : List Signal := p.filterMap Step.signal?

def texts (p : List Step) : List String := p.filterMap Step.text?

/-- The items that are appended to the list of a name, as long as the name stands for that list. -/
def contents : List Step → String → List ListItem
  | [], _ => []
  | s :: p, l => s.items l (contents p) ++ if l ∈ s.binders then [] else contents p l

theorem signals_append (p q : List Step) : signals (p ++ q) = signals p ++ signals q := List.filterMap_append

theorem texts_cons (s : Step) (p : List Step) : texts (s :: p) = s.text?.toList ++ texts p := by
  rw [texts, List.filterMap_cons]
  cases s.text? <;> rfl

theorem texts_append (p q : List Step) : texts (p ++ q) = texts p ++ texts q := List.filterMap_append

theorem texts_bindIf (p : List Step) (r : Bool) (x : String) : texts (p ++ Step.bindIf r x) = texts p := by
  rw [texts_append]
  cases r <;> exact List.append_nil _

end Code

namespace Signal

def all : List Signal := [.answer .number, .answer .string, .answer .list, .answer .pointer, .error]

def call : Signal → String
  | answer .number => "ring_ret_number!(p, "
  | answer .string => "ring_ret_string!(p, "
  | answer .list => "ring_ret_list!(p, "
  | answer .pointer => "ring_ret_cpointer!(p, "
  | error => "ring_error!(p, "

def ofText? (t : String) : Option Signal := all.find? fun s => s.call.toList.isPrefixOf t.toList

def Tells (t : String) (o : Option Signal) : Prop := ∀ rest, ofText? (t ++ rest) = o

theorem Tells.append {t : String} {o : Option Signal} (h : Tells t o) (u : String) : Tells (t ++ u) o := by
  intro rest
  rw [String.append_assoc]
  exact h _

theorem Tells.eq {t : String} {o : Option Signal} (h : Tells t o) : ofText? t = o := by
  rw [← h "", String.append_empty]

/-- The beginning of a text decides, where it is not cut off within a call. -/
theorem tells {t : String} {o : Option Signal} (hw : ofText? t = o)
    (hcut : ∀ s ∈ all, t.toList.isPrefixOf s.call.toList → s.call.toList.isPrefixOf t.toList) : Tells t o := by
  intro rest
  rw [← hw]
  apply List.find?_congr
  intro s hs
  rw [Bool.eq_iff_iff, List.isPrefixOf_iff_prefix, List.isPrefixOf_iff_prefix, String.toList_append]
  constructor
  · intro h
    obtain h | h := List.prefix_or_prefix_of_prefix h (List.prefix_append t.toList rest.toList)
    · exact h
    · exact List.isPrefixOf_iff_prefix.1 (hcut s hs (List.isPrefixOf_iff_prefix.2 h))
  · exact fun h => h.trans (List.prefix_append ..)

theorem tells_answerCode (o : Outgoing) : Tells o.answerCode (some (.answer o.kind)) := by
  cases o with
  | number e =>
    have h : Tells "ring_ret_number!(p, " (some (.answer .number)) := tells (by decide) (by decide)
    exact (h.append _).append _
  | truth e =>
    have h : Tells "ring_ret_number!(p, if " (some (.answer .number)) := tells (by decide) (by decide)
    exact (h.append _).append _
  | text e =>
    have h : Tells "ring_ret_string!(p, &" (some (.answer .string)) := tells (by decide) (by decide)
    exact (h.append _).append _
  | pointer e s =>
    have h : Tells "ring_ret_cpointer!(p, Box::into_raw(" (some (.answer .pointer)) := tells (by decide) (by decide)
    exact (((h.append _).append _).append _).append _

theorem tells_appendCode (o : Outgoing) (l : String) : Tells (o.appendCode l) none := by
  cases o with
  | number e | truth e =>
    have h : Tells "ring_list_adddouble(" none := tells (by decide) (by decide)
    exact (((h.append _).append _).append _).append _
  | text e =>
    have h : Tells "ring_list_addstring_str(" none := tells (by decide) (by decide)
    exact (((h.append _).append _).append _).append _
  | pointer e s =>
    have h : Tells "ring_list_addcpointer(" none := tells (by decide) (by decide)
    exact (((((h.append _).append _).append _).append _).append _).append _

theorem tells_let (m : Bool) : Tells (Stmt.letCode m) none := by
  cases m <;> exact tells (by decide) (by decide)

theorem tells_check (k : Kind) : Tells k.check none := by
  cases k <;> exact tells (by decide) (by decide)

theorem tells_code {s : Stmt} (hs : (Step.stmt s).isWorded = true) (hcall : ∀ c, s ≠ .perform c) :
    Tells s.code (Step.stmt s).signal? := by
  have hbind : Tells "let " none := tells (by decide) (by decide)
  cases s with
  | verbatim c ss | push v e | yield e => cases hs
  | perform c => exact absurd rfl (hcall c)
  | answer o => exact tells_answerCode o
  | append l o => exact tells_appendCode o l
  | leave | clearHandle => exact tells (by decide) (by decide)
  | check k i => exact (((tells_check k).append _).append _).append _
  | bind m x e | bindViews m x e => exact (((((tells_let m).append _).append _).append _).append _).append _
  | bindTuple xs e => exact (((hbind.append _).append _).append _).append _
  | bindCall x c => exact (((hbind.append _).append _).append _).append _
  | checkCount n =>
    have h : Tells "ring_check_paracount!(p, " none := tells (by decide) (by decide)
    exact (h.append _).append _
  | invalidPointer s =>
    have h : Tells "ring_error!(p, " (some .error) := tells (by decide) (by decide)
    exact (h.append _).append _
  | free x s =>
    have h : Tells "unsafe \x7b let _ = Box::from_raw(" none := tells (by decide) (by decide)
    exact (((h.append _).append _).append _).append _
  | answerList l =>
    have h : Tells "ring_ret_list!(p, " (some (.answer .list)) := tells (by decide) (by decide)
    exact (h.append _).append _
  | appendHole l =>
    have h : Tells "ring_list_newitem(" none := tells (by decide) (by decide)
    exact (h.append _).append _

theorem tells_action (m : Missing) : Tells m.action (Step.miss m).signal? := by
  cases m with
  | nothing => exact tells (by decide) (by decide)
  | hole l =>
    have h : Tells "ring_list_newitem(" none := tells (by decide) (by decide)
    exact (h.append _).append _
  | raise e =>
    have h : Tells "ring_error!(p, &format!(\"\x7b\x7d\", " (some .error) := tells (by decide) (by decide)
    exact (h.append _).append _

end Signal

/-- The signal of a step can be read off its text. -/
theorem Step.signal?_eq {s : Step} (h : s.isWorded = true) : s.signal? = s.text?.bind Signal.ofText? := by
  cases s with
  | move m | bind x => rfl
  | miss m => exact (Signal.tells_action m).eq.symm
  | stmt s =>
    by_cases hc : ∃ c, s = .perform c
    · obtain ⟨c, rfl⟩ := hc
      rfl
    · have hcall : ∀ c, s ≠ .perform c := fun c he => hc ⟨c, he⟩
      rw [text?_stmt hcall]
      exact (Signal.tells_code h hcall).eq.symm

/-- What the caller sees of a way can be read off its texts. -/
theorem Code.signals_eq {p : List Step} (h : ∀ s ∈ p, s.isWorded = true) :
    signals p = (texts p).filterMap Signal.ofText? := by
  rw [texts, List.filterMap_filterMap]
  exact List.filterMap_congr fun s hs => s.signal?_eq (h s hs)

/-- The operations write a line, or splice in a text that is written with it. -/
inductive Layout.Shows (l : String) : List Op → Prop
  | line {ops} : Op.line l ∈ ops → Shows l ops
  | splice {ops inner} : Shows l inner → Op.splice (write inner) ∈ ops → Shows l ops

theorem Layout.Shows.mono {l : String} {u v : List Op} (h : Shows l u) (huv : u ⊆ v) : Shows l v := by
  cases h with
  | line hl => exact .line (huv hl)
  | splice hinner hop => exact .splice hinner (huv hop)

namespace Code

/-- The text stands in the code, as a statement or behind the pattern of an arm. -/
def Shows (c : Code) (t : String) : Prop := Layout.Shows t c.ops ∨ ∃ pattern, Layout.Shows (pattern ++ " => " ++ t) c.ops

theorem Shows.mono {c d : Code} {t : String} (h : c.Shows t) (hops : c.ops ⊆ d.ops) : d.Shows t :=
  h.imp (·.mono hops) fun ⟨pattern, h⟩ => ⟨pattern, h.mono hops⟩

theorem Shows.fragment {c : Code} {t : String} (h : c.Shows t) : (Code.fragment c).Shows t :=
  h.imp (.splice · (List.mem_singleton_self _)) fun ⟨pattern, h⟩ => ⟨pattern, .splice h (List.mem_singleton_self _)⟩

theorem shows_arm {c : Code} {m : Missing} {pattern : String} (h : .line (m.code pattern) ∈ c.ops) : c.Shows m.action :=
  .inr ⟨pattern, .line (m.code_eq pattern ▸ h)⟩

/-- Whatever is done on a way is written in the code. -/
theorem Path.shows {c : Code} {p : List Step} {r : Bool} (h : c.Path p r) : ∀ t ∈ texts p, c.Shows t := by
  have harm : ∀ {c : Code} {m : Missing} (pattern : String), .line (m.code pattern) ∈ c.ops →
      ∀ t ∈ texts [.miss m], c.Shows t := by
    intro c m pattern hline t ht
    obtain rfl := List.mem_singleton.1 ht
    exact shows_arm hline
  induction h with
  | skip | itemsDone | eachDone | pairDone | doneOk | received | whenNo => nofun
  | @line s =>
    intro t ht
    by_cases hc : ∃ c, s = .perform c
    · obtain ⟨c, rfl⟩ := hc
      cases ht
    · obtain rfl : t = s.code := by
        rw [texts, List.filterMap_cons_some (Step.text?_stmt fun c he => hc ⟨c, he⟩)] at ht
        exact List.mem_singleton.1 ht
      exact .inl (.line (List.mem_singleton_self _))
  | left _ ih => exact fun t ht => (ih t ht).mono (List.subset_append_left ..)
  | seq _ _ iha ihb =>
    intro t ht
    obtain ht | ht := List.mem_append.1 (texts_append .. ▸ ht)
    · exact (iha t ht).mono (List.subset_append_left ..)
    · exact (ihb t ht).mono (List.subset_append_right ..)
  | fragment _ ih => exact fun t ht => (ih t ht).fragment
  | whenYes _ ih => exact fun t ht => (ih t ht).mono (by simp [ops])
  | letYes _ ih | letNo _ ih | chainFirst _ ih | chainSecond _ ih | chainLast _ ih =>
    intro t ht
    have ht : t ∈ texts (_ ++ Step.bindIf _ _) := ht
    rw [texts_bindIf] at ht
    exact (ih t ht).mono (by intro o ho; simp [ops, ho])
  | itemsTurn _ _ iha ihb | eachTurn _ _ iha ihb | pairTurn _ _ iha ihb =>
    intro t ht
    obtain ht | ht := List.mem_append.1 (texts_append .. ▸ ht : t ∈ texts _ ++ texts _)
    · exact (iha t ht).mono (by intro o ho; simp [ops, ho])
    · exact ihb t ht
  | itemsLeft _ ih | eachLeft _ ih | pairLeft _ ih | some _ ih | ok _ ih =>
    exact fun t ht => (ih t ht).mono (by intro o ho; simp [ops, ho])
  | none => exact harm "None" (by simp [ops])
  | @error _ _ _ m | @doneError _ m => exact harm m.errorPattern (by simp [ops])
  | @refused x s =>
    have hlines : .line (Stmt.invalidPointer s).code ∈ (receive x s).ops ∧ .line Stmt.leave.code ∈ (receive x s).ops := by
      simp [ops]
    exact List.forall_mem_cons.2 ⟨.inl (.line hlines.1), List.forall_mem_singleton.2 (.inl (.line hlines.2))⟩

theorem Through.shows {c : Code} {Q : List Step → Prop} (h : c.Through Q) :
    c.Through fun p => Q p ∧ ∀ t ∈ texts p, c.Shows t :=
  fun p r hp => ⟨(h p r hp).1, (h p r hp).2, hp.shows⟩

end Code

def Kind.appendCall : Kind → String
  | number => "ring_list_adddouble("
  | string => "ring_list_addstring_str("
  | pointer => "ring_list_addcpointer("
  | list => "ring_list_newlist("

/-- An item of a list is written with its value; where it is a list, its own items are written too. -/
inductive ListItem.Written (ts : List String) : String → ListItem → Prop
  | value {l k v front back} : k.appendCall ++ l ++ ", " ++ front ++ Expr.code v ++ back ∈ ts →
      Written ts l (.value k v.base)
  | hole {l back} : "ring_list_newitem(" ++ l ++ back ∈ ts → Written ts l .hole
  | list {l x word is} : word ++ " " ++ x ++ " = ring_list_newlist(" ++ l ++ ");" ∈ ts → (∀ i ∈ is, Written ts x i) →
      Written ts l (.list is)

namespace ListItem

theorem Written.mono {ts us : List String} {l : String} {i : ListItem} (h : i.Written ts l) (hts : ts ⊆ us) :
    i.Written us l := by
  induction h with
  | value ht => exact .value (hts ht)
  | hole ht => exact .hole (hts ht)
  | list ht _ ih => exact .list (hts ht) ih

theorem written_append (o : Outgoing) (l : String) : (value o.kind o.value.base).Written [o.appendCode l] l := by
  have hvalue : ∀ front back, o.appendCode l = o.kind.appendCall ++ l ++ ", " ++ front ++ o.value.code ++ back →
      (value o.kind o.value.base).Written [o.appendCode l] l :=
    fun front back he => .value (List.mem_singleton.2 he.symm)
  cases o with
  | number e =>
    refine hvalue "" " as f64);" ?_
    rw [String.append_empty]
    rfl
  | truth e =>
    have hif : ", if " = ", " ++ "if " := rfl
    have hcode : (Outgoing.truth e).appendCode l =
        "ring_list_adddouble(" ++ l ++ ", if " ++ e.code ++ " \x7b 1.0 \x7d else \x7b 0.0 \x7d);" := rfl
    refine hvalue "if " " \x7b 1.0 \x7d else \x7b 0.0 \x7d);" (hcode.trans ?_)
    rw [hif, ← String.append_assoc]
    rfl
  | text e =>
    have href : ", &" = ", " ++ "&" := rfl
    have hcode : (Outgoing.text e).appendCode l = "ring_list_addstring_str(" ++ l ++ ", &" ++ e.code ++ ");" := rfl
    refine hvalue "&" ");" (hcode.trans ?_)
    rw [href, ← String.append_assoc]
    rfl
  | pointer e s =>
    have hbox : ", Box::into_raw(" = ", " ++ "Box::into_raw(" := rfl
    have hcode : (Outgoing.pointer e s).appendCode l = "ring_list_addcpointer(" ++ l ++ ", Box::into_raw(" ++ e.code ++
        ") as *mut std::ffi::c_void, " ++ Name.tag s ++ ");" := rfl
    refine hvalue "Box::into_raw(" (") as *mut std::ffi::c_void, " ++ Name.tag s ++ ");") (hcode.trans ?_)
    rw [hbox, ← String.append_assoc]
    simp only [String.append_assoc]
    rfl

end ListItem

theorem code_bind_subList (m : Bool) (x l : String) : (Stmt.bind m x (.subList l)).code =
    Stmt.letCode m ++ " " ++ x ++ " = ring_list_newlist(" ++ l ++ ");" := by
  have hcode : (Stmt.bind m x (.subList l)).code =
      Stmt.letCode m ++ " " ++ x ++ " = " ++ ("ring_list_newlist(" ++ l ++ ")") ++ ";" := rfl
  have hcall : " = ring_list_newlist(" = " = " ++ "ring_list_newlist(" := rfl
  have hend : ");" = ")" ++ ";" := rfl
  rw [hcode, hcall, hend]
  simp only [String.append_assoc]

theorem Step.items_written {s : Step} {l : String} {ts : List String} {later : String → List ListItem}
    (hs : s.text?.toList ⊆ ts) (hlater : ∀ x, ∀ i ∈ later x, i.Written ts x) : ∀ i ∈ s.items l later, i.Written ts l := by
  have hone : ∀ {x : String} {j : ListItem}, (x = l → j.Written ts l) → ∀ i ∈ if x = l then [j] else [], i.Written ts l := by
    intro x j hj
    split
    · next hx => exact List.forall_mem_singleton.2 (hj hx)
    · nofun
  unfold items
  split
  · next x o => exact hone fun hx => hx ▸ (ListItem.written_append o x).mono hs
  · next x => exact hone fun hx => hx ▸ .hole (hs (List.mem_singleton_self _))
  · next x => exact hone fun hx => hx ▸ .hole (hs (List.mem_singleton_self _))
  · next m x y =>
    exact hone fun hy => hy ▸ .list (hs (List.mem_singleton.2 (code_bind_subList m x y).symm)) (hlater x)
  · nofun

namespace Code

/-- Every item that a list receives on a way is written there. -/
theorem contents_written (p : List Step) (l : String) : ∀ i ∈ contents p l, i.Written (texts p) l := by
  induction p generalizing l with
  | nil => nofun
  | cons s p ih =>
    have hp : texts p ⊆ s.text?.toList ++ texts p := List.subset_append_right ..
    intro i hi
    rw [texts_cons]
    obtain hi | hi := List.mem_append.1 hi
    · exact Step.items_written (List.subset_append_left ..) (fun x i hi => (ih x i hi).mono hp) i hi
    · split at hi
      · cases hi
      · exact (ih l i hi).mono hp

theorem items_congr {s : Step} {l : String} {f g : String → List ListItem} (h : ∀ x ∈ s.binders, f x = g x) :
    s.items l f = s.items l g := by
  unfold Step.items
  split
  · rfl
  · rfl
  · rfl
  · next m x y => rw [h x (List.mem_singleton_self x)]
  · rfl

/-- Of two ways one after the other, the second appends to the list `list` only, and the first does not bind it anew. -/
theorem contents_append {list : String} {p q : List Step} (hp : list ∉ boundBy p)
    (hq : ∀ x, x ≠ list → contents q x = []) (x : String) :
    contents (p ++ q) x = contents p x ++ if x = list then contents q list else [] := by
  induction p generalizing x with
  | nil =>
    by_cases hx : x = list
    · simp [contents, hx]
    · simp [contents, hx, hq x hx]
  | cons s p ih =>
    obtain ⟨hs, hp⟩ := not_or.1 fun h => hp (List.mem_append.2 h)
    have hne : ∀ y ∈ s.binders, y ≠ list := fun y hy he => hs (he ▸ hy)
    -- A name that the step binds is another one, and `q` appends nothing to it.
    have hlater : ∀ y ∈ s.binders, contents (p ++ q) y = contents p y := by
      intro y hy
      rw [ih hp y, if_neg (hne y hy), List.append_nil]
    rw [List.cons_append, contents, contents, items_congr hlater, List.append_assoc]
    by_cases hx : x ∈ s.binders
    · rw [if_pos hx, if_pos hx, if_neg (hne x hx)]
      rfl
    · rw [if_neg hx, if_neg hx, ih hp x]

/-- A way that raises nothing and sets no answer, binds only some names, and appends items to one list of a name that
    was there before. -/
structure Appends (list : String) (names : List String) (is : List ListItem) (p : List Step) : Prop where
  signals : signals p = []
  worded : ∀ s ∈ p, s.isWorded = true
  bound : boundBy p ⊆ names
  apart : list ∉ names
  others : ∀ x, x ≠ list → contents p x = []
  items : contents p list = is

namespace Appends
variable {list x : String} {names names' : List String} {is js : List ListItem} {p q : List Step} {s : Step}

theorem mono (h : Appends list names is p) (hn : names ⊆ names') (hlist : list ∉ names') : Appends list names' is p :=
  ⟨h.signals, h.worded, List.Subset.trans h.bound hn, hlist, h.others, h.items⟩

theorem append (hp : Appends list names is p) (hq : Appends list names js q) : Appends list names (is ++ js) (p ++ q) where
  signals := by rw [signals_append, hp.signals, hq.signals]; rfl
  worded := List.forall_mem_append.2 ⟨hp.worded, hq.worded⟩
  bound := by
    rw [boundBy, List.flatMap_append]
    exact List.append_subset.2 ⟨hp.bound, hq.bound⟩
  apart := hp.apart
  others x hx := by
    rw [contents_append (fun h => hp.apart (hp.bound h)) hq.others, hp.others x hx, if_neg hx]
    rfl
  items := by rw [contents_append (fun h => hp.apart (hp.bound h)) hq.others, hp.items, if_pos rfl, hq.items]

/-- A step that itself appends nothing. -/
theorem cons (hsignal : s.signal? = none) (hworded : s.isWorded = true) (hbinders : s.binders ⊆ names)
    (hitems : ∀ l f, s.items l f = []) (h : Appends list names is p) : Appends list names is (s :: p) where
  signals := by rw [Code.signals, List.filterMap_cons_none hsignal]; exact h.signals
  worded := List.forall_mem_cons.2 ⟨hworded, h.worded⟩
  bound := List.append_subset.2 ⟨hbinders, h.bound⟩
  apart := h.apart
  others x hx := by
    rw [contents, hitems, h.others x hx, ite_self]
    rfl
  items := by
    rw [contents, hitems, if_neg fun hm => h.apart (hbinders hm), h.items]
    rfl

/-- A way that appends nothing. -/
theorem nil (hlist : list ∉ names) : Appends list names [] [] :=
  ⟨rfl, nofun, List.nil_subset _, hlist, fun _ _ => rfl, rfl⟩

/-- A step that appends an item. -/
theorem single {i : ListItem} (hlist : list ∉ names) (hsignal : s.signal? = none) (hworded : s.isWorded = true)
    (hbinders : s.binders = []) (hitems : ∀ l f, s.items l f = if list = l then [i] else []) :
    Appends list names [i] [s] where
  signals := List.filterMap_cons_none hsignal
  worded := List.forall_mem_singleton.2 hworded
  bound := by simp [boundBy, hbinders]
  apart := hlist
  others x hx := by simp [contents, hitems, Ne.symm hx]
  items := by simp [contents, hitems]

/-- A list is appended, and then filled. -/
theorem sublist {m : Bool} {sub : String} (h : Appends sub names is p) (hlist : list ∉ names) (hsub : list ≠ sub) :
    Appends list (sub :: names) [.list is] (.stmt (.bind m sub (.subList list)) :: p) where
  signals := h.signals
  worded := List.forall_mem_cons.2 ⟨rfl, h.worded⟩
  bound := List.cons_subset.2 ⟨List.mem_cons_self .., List.Subset.trans h.bound (List.subset_cons_self ..)⟩
  apart := by simp [hlist, hsub]
  others x hx := by
    by_cases he : x = sub
    · simp [contents, Step.items, Step.binders, Stmt.binders, he, Ne.symm (he ▸ hx)]
    · simp [contents, Step.items, Step.binders, Stmt.binders, he, h.others x he, Ne.symm hx]
  items := by simp [contents, Step.items, Step.binders, Stmt.binders, hsub, h.others list hsub, h.items]

end Appends
end Code
end RingBridge
