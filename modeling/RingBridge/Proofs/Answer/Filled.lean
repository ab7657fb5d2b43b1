import RingBridge.Answer
import RingBridge.Proofs.Code.Temporaries
import RingBridge.Proofs.Code.Signals
/-!
Lists that are answered: every value becomes one item, whichever way the code goes, and a missing one an empty item. So
a list has one item for each part of a tuple and for each item of a sequence, in their order, and a pair for each entry
of a map.
-/
namespace RingBridge
open Code

/-- The item that stands for a value after the moves that were made to append it. -/
abbrev Encoding := Expr → List Move → ListItem → Prop

abbrev Listing := Expr → List Move → List ListItem → Prop

namespace Encoding

def value (k : Kind) : Encoding := fun v ms i => ms = [] ∧ i = .value k v

def hole : Encoding := fun _ ms i => ms = [] ∧ i = .hole

inductive InLayer (l : Layer) (E : Encoding) (v : Expr) : List Move → ListItem → Prop
  | present {e x ms i} : e.base = v → E (.var x) ms i → InLayer l E v (.present l e [x] :: ms) i
  | missing {e} : e.base = v → InLayer l E v [.missing l e] .hole

def AsList (P : Listing) : Encoding := fun v ms i => ∃ is, i = .list is ∧ P v ms is

end Encoding

namespace Listing

inductive Turns (E : Encoding) (v : Expr) : List Move → List ListItem → Prop
  | done {e} : e.base = v → Turns E v [.done e] []
  | turn {e x ms i ns is} : e.base = v → E (.var x) ms i → Turns E v ns is →
      Turns E v (.turn e [x] :: (ms ++ ns)) (i :: is)

inductive Pair (K V : Encoding) (k x : Expr) : List Move → ListItem → Prop
  | pair {ms a ns b} : K k ms a → V x ns b → Pair K V k x (ms ++ ns) (.list [a, b])

inductive Entries (K V : Encoding) (v : Expr) : List Move → List ListItem → Prop
  | done {e} : e.base = v → Entries K V v [.done e] []
  | turn {e k x ms i ns is} : e.base = v → Pair K V (.var k) (.var x) ms i → Entries K V v ns is →
      Entries K V v (.turn e [k, x] :: (ms ++ ns)) (i :: is)

inductive Each : List Encoding → List String → List Move → List ListItem → Prop
  | nil : Each [] [] [] []
  | cons {E Es x xs ms i ns is} : E (.var x) ms i → Each Es xs ns is → Each (E :: Es) (x :: xs) (ms ++ ns) (i :: is)

inductive Parts (Es : List Encoding) (v : Expr) : List Move → List ListItem → Prop
  | parts {e xs ms is} : e.base = v → Each Es xs ms is → Parts Es v (.parts e xs :: ms) is

end Listing

namespace Shape
open Encoding Listing

mutual

def encoding : Shape → Encoding
  | .number _ | .boolean | .unknown _ => value .number
  | .text _ => value .string
  | .named _ _ => value .pointer
  | .unit => hole
  | .option t _ => InLayer .option t.encoding
  | .result t _ => InLayer .result t.encoding
  | .vector t _ | .slice t _ _ => AsList (Turns t.encoding)
  | .tuple ts _ => AsList (Parts (encodings ts))
  | .mapping k v _ => AsList (Entries (if k.isKeyText then k.encoding else value .string) v.encoding)
  | .boxed t _ | .reference t _ _ => t.encoding

def encodings : List Shape → List Encoding
  | [] => []
  | t :: ts => t.encoding :: encodings ts

end

def listing? : Shape → Option Listing
  | .vector t _ | .slice t _ _ => some (Turns t.encoding)
  | .tuple ts _ => some (Parts (encodings ts))
  | .mapping k v _ => some (Entries (if k.isKeyText then k.encoding else value .string) v.encoding)
  | _ => none

theorem length_encodings (ts : List Shape) : (encodings ts).length = ts.length := by
  induction ts with
  | nil => rfl
  | cons t ts ih => rw [encodings, List.length_cons, List.length_cons, ih]

end Shape

namespace Answer
open Encoding Listing NameScope

def IsStem (st : String) : Prop := st ∈ ["sub", "item", "k", "v", "pair", "val"] ∨ ∃ i : Nat, st = s!"t{i}"

def listStems : List String := ["sub", "pair", "list"]

/-- No other stem begins like that of a list. -/
theorem IsStem.eq_of_lead {st st' : String} (h : IsStem st') (hst : st ∈ listStems) (hl : lead st' = lead st) : st' = st := by
  have hwords : ∀ st ∈ listStems, ∀ st' ∈ ["sub", "item", "k", "v", "pair", "val"], lead st' = lead st → st' = st := by decide
  have hparts : ∀ st ∈ listStems, "t".toList ≠ lead st := by decide
  obtain h | ⟨i, rfl⟩ := h
  · exact hwords st hst st' h hl
  · exact absurd ((lead_number "t" (by decide) i).symm.trans hl) (hparts st hst)

/-- Code that fills a list, made in a scope: on every way it appends items of which `P` holds, to a list of another
    name than the temporaries that were handed out for it. -/
structure Filled (list : String) (n : NameScope) (r : Code × NameScope) (P : List Move → List ListItem → Prop) : Prop where
  leads : Leads IsStem n r.2
  through : list ∉ n.since r.2 → r.1.Through fun p => ∃ is, Appends list (n.since r.2) is p ∧ P (moves p) is

abbrev FilledOne (list : String) (n : NameScope) (r : Code × NameScope) (E : List Move → ListItem → Prop) : Prop :=
  Filled list n r fun ms is => ∃ i, is = [i] ∧ E ms i

def Filler.Lists (f : Filler) (P : Listing) : Prop := ∀ v list n, Filled list n (f v list n) (P v.base)

def Filler.Appends (f : Filler) (E : Encoding) : Prop := ∀ v list n, FilledOne list n (f v list n) (E v.base)

theorem since_self (n : NameScope) : n.since n = [] := by rw [since, List.drop_length]; rfl

namespace Filled
variable {list st x : String} {n k : NameScope} {r r' : Code × NameScope} {v : Expr} {E K V : Encoding} {l : Layer} {c : Code}
  {P Q : List Move → List ListItem → Prop}

theorem weaken (h : Filled list n r P) (hPQ : ∀ ms is, P ms is → Q ms is) : Filled list n r Q :=
  ⟨h.leads, fun hlist => (h.through hlist).weaken fun _ ⟨is, hp, hP⟩ => ⟨is, hp, hPQ _ is hP⟩⟩

theorem skip (h : P [] []) : Filled list n (.skip, n) P :=
  ⟨.refl _ n, fun hlist => .skip ⟨[], .nil hlist, h⟩⟩

/-- One statement that appends an item. -/
theorem line {s : Stmt} {i : ListItem} (hs : s.goesOn = true) (hsignal : Step.signal? (.stmt s) = none)
    (hworded : Step.isWorded (.stmt s) = true) (hmove : Step.move? (.stmt s) = none) (hbinders : s.binders = [])
    (hitems : ∀ l f, Step.items l f (.stmt s) = if list = l then [i] else []) (hP : P [] [i]) :
    Filled list n (.line s, n) P := by
  refine ⟨.refl _ n, fun hlist => .line hs ⟨[i], .single hlist hsignal hworded hbinders hitems, ?_⟩⟩
  rw [moves, List.filterMap_cons_none hmove]
  exact hP

/-- Temporaries may be handed out before. -/
theorem behind {m : NameScope} (hm : Leads IsStem n m) (h : Filled list m r P) : Filled list n r P := by
  have hsince := hm.since_append h.leads
  refine ⟨hm.trans h.leads, fun hlist => ?_⟩
  apply (h.through fun hmem => hlist (hsince ▸ List.mem_append_right _ hmem)).weaken
  rintro p ⟨is, hp, hP⟩
  exact ⟨is, hp.mono (hsince ▸ List.subset_append_right ..) hlist, hP⟩

theorem fresh (hst : IsStem st) (h : Filled list (n.fresh st).2 r P) : Filled list n r P := h.behind (.fresh n hst)

theorem seq (h : Filled list n r P) (h' : Filled list r.2 r' Q) :
    Filled list n (.seq r.1 r'.1, r'.2) fun ms is => ∃ ms₁ is₁ ms₂ is₂, ms = ms₁ ++ ms₂ ∧ is = is₁ ++ is₂ ∧ P ms₁ is₁ ∧
      Q ms₂ is₂ := by
  have hsince := h.leads.since_append h'.leads
  refine ⟨h.leads.trans h'.leads, fun hlist => ?_⟩
  have hboth := not_or.1 fun hm => hlist (hsince ▸ List.mem_append.2 hm)
  apply Through.seq
  apply (h.through hboth.1).weaken
  rintro p ⟨is, hp, hP⟩
  apply (h'.through hboth.2).weaken
  rintro q ⟨js, hq, hQ⟩
  have hp := hp.mono (hsince ▸ List.subset_append_left ..) hlist
  have hq := hq.mono (hsince ▸ List.subset_append_right ..) hlist
  exact ⟨is ++ js, hp.append hq, _, _, _, _, moves_append p q, rfl, hP, hQ⟩

/-- A list is appended under a name of its own and then filled. -/
theorem sublist (st : String) (hst : st ∈ listStems) (hstem : IsStem st) (h : Filled (n.fresh st).1 (n.fresh st).2 r P) :
    FilledOne list n (.seq (.line (.bind false (n.fresh st).1 (.subList list))) r.1, r.2)
      fun ms i => ∃ is, i = .list is ∧ P ms is := by
  have hsince : n.since r.2 = _ := h.leads.since_fresh
  refine ⟨(Leads.fresh n hstem).trans h.leads, fun hlist => ?_⟩
  have hapart := not_or.1 fun hm => hlist (hsince ▸ List.mem_cons.2 hm)
  apply Through.line_seq rfl
  apply (h.through (h.leads.fresh_notMem fun st' h => h.eq_of_lead hst)).weaken
  rintro p ⟨is, hp, hP⟩
  exact ⟨_, hsince ▸ hp.sublist (m := false) hapart.2 hapart.1, _, rfl, is, rfl, hP⟩

/-- The key and the value of an entry go to one list, one after the other. -/
theorem pair {k x : Expr} (st : String) (hst : st ∈ listStems) (hstem : IsStem st) (hk : FilledOne (n.fresh st).1 (n.fresh st).2 r (K k))
    (hx : FilledOne (n.fresh st).1 r.2 r' (V x)) :
    FilledOne list n (.seq (.line (.bind false (n.fresh st).1 (.subList list))) (.seq r.1 r'.1), r'.2) (Pair K V k x) := by
  apply ((hk.seq hx).sublist st hst hstem).weaken
  rintro ms _ ⟨_, rfl, _, rfl, ms₁, _, ms₂, _, rfl, rfl, ⟨a, rfl, ha⟩, b, rfl, hb⟩
  exact ⟨_, rfl, .pair ha hb⟩

/-- What each turn appends is appended turn by turn. -/
theorem each (hx : x ∈ n.since r.2) (h : FilledOne list n r (E (.var x))) :
    Filled list n (.each x v r.1, r.2) (Turns E v.base) := by
  refine ⟨h.leads, fun hlist => ?_⟩
  have hbinders : [x] ⊆ n.since r.2 := List.cons_subset.2 ⟨hx, List.nil_subset _⟩
  apply Through.each
  · exact ⟨[], .cons rfl rfl (List.nil_subset _) (fun _ _ => rfl) (.nil hlist), .done rfl⟩
  · apply (h.through hlist).weaken
    rintro p ⟨_, hp, i, rfl, hi⟩ q ⟨is, hq, hturns⟩
    refine ⟨i :: is, .cons rfl rfl hbinders (fun _ _ => rfl) (hp.append hq), ?_⟩
    show Turns E v.base (.turn v [x] :: moves (p ++ q)) _
    rw [moves_append]
    exact .turn rfl hi hturns

theorem eachPair {y : String} (hx : x ∈ n.since r.2) (hy : y ∈ n.since r.2)
    (h : FilledOne list n r (Pair K V (.var x) (.var y))) :
    Filled list n (.eachPair x y v r.1, r.2) (Entries K V v.base) := by
  refine ⟨h.leads, fun hlist => ?_⟩
  have hbinders : [x, y] ⊆ n.since r.2 := List.cons_subset.2 ⟨hx, List.cons_subset.2 ⟨hy, List.nil_subset _⟩⟩
  apply Through.eachPair
  · exact ⟨[], .cons rfl rfl (List.nil_subset _) (fun _ _ => rfl) (.nil hlist), .done rfl⟩
  · apply (h.through hlist).weaken
    rintro p ⟨_, hp, i, rfl, hi⟩ q ⟨is, hq, hturns⟩
    refine ⟨i :: is, .cons rfl rfl hbinders (fun _ _ => rfl) (hp.append hq), ?_⟩
    show Entries K V v.base (.turn v [x, y] :: moves (p ++ q)) _
    rw [moves_append]
    exact .turn rfl hi hturns

/-- A match on a layer, with an empty item for a missing value. -/
theorem layer (hx : x ∈ n.since r.2)
    (hmatch : ∀ Q, (r.1.Through fun p => Q (.move (.present l v [x]) :: p)) →
      Q [.move (.missing l v), .miss (.hole list)] → c.Through Q)
    (h : FilledOne list n r (E (.var x))) : FilledOne list n (c, r.2) (InLayer l E v.base) := by
  refine ⟨h.leads, fun hlist => ?_⟩
  have hbinders : [x] ⊆ n.since r.2 := List.cons_subset.2 ⟨hx, List.nil_subset _⟩
  apply hmatch
  · apply (h.through hlist).weaken
    rintro p ⟨_, hp, i, rfl, hi⟩
    exact ⟨_, .cons rfl rfl hbinders (fun _ _ => rfl) hp, i, rfl, .present rfl hi⟩
  · have hhole : Appends list (n.since r.2) [.hole] [.miss (.hole list)] := .single hlist rfl rfl rfl fun _ _ => rfl
    exact ⟨_, .cons rfl rfl (List.nil_subset _) (fun _ _ => rfl) hhole, _, rfl, .missing rfl⟩

end Filled

theorem append_value {list : String} (n : NameScope) (o : Outgoing) :
    FilledOne list n (.line (.append list o), n) (value o.kind o.value.base) :=
  .line rfl rfl rfl rfl rfl (fun _ _ => rfl) ⟨_, rfl, rfl, rfl⟩

theorem debugText_appends : debugText.Appends (value .string) := fun v _ n => append_value n (.text (.debug v))

theorem itemsOf_lists {f : Filler} {E : Encoding} (hf : f.Appends E) : (itemsOf f).Lists (Turns E) := by
  intro v list n
  have hitem := hf (.var (n.fresh "item").1) list (n.fresh "item").2
  exact .each hitem.leads.mem_since.1 (.fresh (.inl (by decide)) hitem)

theorem sublist_appends {f : Filler} {P : Listing} (hf : f.Lists P) : (sublist f).Appends (AsList P) :=
  fun v _ n => (hf v _ (n.fresh "sub").2).sublist "sub" (by decide) (.inl (by decide))

theorem entriesOf_lists {key val : Filler} {K V : Encoding} (hkey : key.Appends K) (hval : val.Appends V) :
    (entriesOf key val).Lists (Entries K V) := by
  intro v list n
  have hpair : FilledOne list ((n.fresh "k").2.fresh "v").2 _ (Pair K V (.var (n.fresh "k").1) (.var _)) :=
    .pair "pair" (by decide) (.inl (by decide)) (hkey (.var (n.fresh "k").1) _ _) (hval (.var ((n.fresh "k").2.fresh "v").1) _ _)
  have hentry := hpair.fresh (.inl (by decide))
  exact .eachPair hentry.leads.mem_since.1 (hentry.leads.mem_since.2 hpair.leads.mem_since.1)
    (hentry.fresh (.inl (by decide)))

def PartsAppend (Es : List Encoding) (parts : List String → String → NameScope → Code × NameScope) : Prop :=
  ∀ xs list n, xs.length = Es.length → Filled list n (parts xs list n) (Each Es xs)

theorem length_freshEach (n : NameScope) (stems : List String) : (n.freshEach stems).1.length = stems.length := by
  induction stems generalizing n with
  | nil => rfl
  | cons st stems ih => rw [freshEach, List.length_cons, List.length_cons, ih]

theorem since_freshEach (n : NameScope) (stems : List String) : n.since (n.freshEach stems).2 = (n.freshEach stems).1 := by
  induction stems generalizing n with
  | nil => exact since_self n
  | cons st stems ih =>
    have hleads : Leads (fun _ => True) (n.fresh st).2 ((n.fresh st).2.freshEach stems).2 := .freshEach _ fun _ _ => trivial
    rw [freshEach, hleads.since_fresh, ih]

theorem partsOf_lists {count : Nat} {parts : List String → String → NameScope → Code × NameScope} {Es : List Encoding}
    (hcount : Es.length = count) (hparts : PartsAppend Es parts) : (partsOf count parts).Lists (Parts Es) := by
  intro v list n
  let stems := (List.range count).map fun i => s!"t{i}"
  have hstems : ∀ st ∈ stems, IsStem st := by
    intro st hst
    obtain ⟨i, -, rfl⟩ := List.mem_map.1 hst
    exact .inr ⟨i, rfl⟩
  have hlength : (n.freshEach stems).1.length = Es.length := by simp [length_freshEach, stems, hcount]
  have hnames : Leads IsStem n (n.freshEach stems).2 := .freshEach n hstems
  have hbody := hparts (n.freshEach stems).1 list (n.freshEach stems).2 hlength
  have hbinders : (n.freshEach stems).1 ⊆ n.since (parts (n.freshEach stems).1 list (n.freshEach stems).2).2 := by
    rw [hnames.since_append hbody.leads, since_freshEach]
    exact List.subset_append_left ..
  have hbehind := hbody.behind hnames
  refine ⟨hbehind.leads, fun hlist => ?_⟩
  apply Through.line_seq rfl
  apply (hbehind.through hlist).weaken
  rintro p ⟨is, hp, hP⟩
  exact ⟨is, .cons rfl rfl hbinders (fun _ _ => rfl) hp, .parts rfl hP⟩

mutual

theorem append_appends : (s : Shape) → (append s).Appends s.encoding
  | .number _ | .unknown _ => fun v _ n => append_value n (.number v)
  | .boolean => fun v _ n => append_value n (.truth v)
  | .text _ => fun v _ n => append_value n (.text v)
  | .named struct _ => fun v _ n => append_value n (.pointer (.box v) struct)
  | .unit => fun _ _ _ => .line rfl rfl rfl rfl rfl (fun _ _ => rfl) ⟨_, rfl, rfl, rfl⟩
  | .vector t _ => sublist_appends (itemsOf_lists (append_appends t))
  | .slice t _ _ => sublist_appends fun v => itemsOf_lists (append_appends t) (.toVec v)
  | .tuple ts _ => sublist_appends (partsOf_lists (Shape.length_encodings ts) (appendEach_appends ts))
  | .mapping k v _ => by
    apply sublist_appends
    apply entriesOf_lists _ (append_appends v)
    split
    · exact append_appends k
    · exact debugText_appends
  | .option t _ => fun _ list n => by
    have hinner := append_appends t (.var (n.fresh "val").1) list (n.fresh "val").2
    exact .layer hinner.leads.mem_since.1 (fun _ => Through.matchOption) (hinner.fresh (.inl (by decide)))
  | .result t _ => fun _ list n => by
    have hinner := append_appends t (.var (n.fresh "val").1) list (n.fresh "val").2
    exact .layer hinner.leads.mem_since.1 (fun _ => Through.matchResult) (hinner.fresh (.inl (by decide)))
  | .boxed t _ => by
    have ih := append_appends t
    cases t with
    | named struct _ => exact fun v _ n => append_value n (.pointer v struct)
    | _ => exact fun v => ih (.deref v)
  | .reference t _ _ => fun v => append_appends t (.clone v)

theorem appendEach_appends : (ts : List Shape) → PartsAppend (Shape.encodings ts) (appendEach ts)
  | [] => by
    intro xs list n hlength
    obtain rfl := List.length_eq_zero_iff.1 hlength
    exact .skip .nil
  | t :: ts => by
    intro xs list n hlength
    cases xs with
    | nil => cases hlength
    | cons x xs =>
      have hrest := appendEach_appends ts xs list (append t (.var x) list n).2 (Nat.succ.inj hlength)
      apply ((append_appends t (.var x) list n).seq hrest).weaken
      rintro _ _ ⟨ms₁, _, ms₂, is₂, rfl, rfl, ⟨i, rfl, hi⟩, hP⟩
      exact .cons hi hP

end

/-- A value that becomes a list is filled into it alike in an answer and in an item. -/
theorem exists_filler : (s : Shape) → {P : Listing} → s.listing? = some P → ∃ f : Filler, f.Lists P ∧
    append s = sublist f ∧ ofShape s = listOf f
  | .vector t _, _, h => by
    obtain rfl := Option.some.inj h
    exact ⟨_, itemsOf_lists (append_appends t), rfl, rfl⟩
  | .slice t _ _, _, h => by
    obtain rfl := Option.some.inj h
    exact ⟨fun v => itemsOf (append t) (.toVec v), fun v => itemsOf_lists (append_appends t) (.toVec v), rfl, rfl⟩
  | .tuple ts _, _, h => by
    obtain rfl := Option.some.inj h
    exact ⟨_, partsOf_lists (Shape.length_encodings ts) (appendEach_appends ts), rfl, rfl⟩
  | .mapping k v _, _, h => by
    obtain rfl := Option.some.inj h
    refine ⟨_, entriesOf_lists ?_ (append_appends v), rfl, rfl⟩
    split
    · exact append_appends k
    · exact debugText_appends

/-- An answer that is a list is a new list, filled, and set. -/
theorem listOf_through {f : Filler} {P : Listing} (hf : f.Lists P) (v : Expr) (n : NameScope) :
    (listOf f v n).1.Through fun p => ∃ l q, p = .stmt (.bind false l .newList) :: (q ++ [.stmt (.answerList l)]) ∧
      Code.signals q = [] ∧ (∀ s ∈ q, s.isWorded = true) ∧ P v.base (moves q) (contents q l) := by
  have hbody := hf v (n.fresh "list").1 (n.fresh "list").2
  apply Through.line_seq rfl
  apply Through.seq
  apply (hbody.through (hbody.leads.fresh_notMem fun st' h => h.eq_of_lead (by decide))).weaken
  rintro q ⟨is, hq, hP⟩
  apply Through.line rfl
  exact ⟨_, q, rfl, hq.signals, hq.worded, hq.items ▸ hP⟩

/-- On every way, a value appends one item to the list it is given, an empty one for a missing value or for nothing, and
    nothing to any other list. What becomes a list itself, there or as the answer, is listed item by item. The items are
    appended by the calls that are written on the way, all of which stand in the code. -/
theorem append_encodes (s : Shape) (v : Expr) {list : String} {n : NameScope} (h : list ∉ n.since (append s v list n).2) :
    ((append s v list n).1.Through fun p =>
      ((∃ i, contents p list = [i] ∧ s.encoding v.base (moves p) i ∧ i.Written (texts p) list) ∧
        ∀ x, x ≠ list → contents p x = []) ∧
      ∀ t ∈ texts p, (append s v list n).1.Shows t) ∧
    ∀ P, s.listing? = some P → (ofShape s v n).1.Through fun p =>
      (∃ l q, p = .stmt (.bind false l .newList) :: (q ++ [.stmt (.answerList l)]) ∧ P v.base (moves q) (contents q l) ∧
        ∀ i ∈ contents q l, i.Written (texts q) l) ∧
      ∀ t ∈ texts p, (ofShape s v n).1.Shows t := by
  constructor
  · apply Through.shows
    apply ((append_appends s v list n).through h).weaken
    rintro p ⟨_, hp, i, rfl, hi⟩
    have hwritten := contents_written p list
    rw [hp.items] at hwritten
    exact ⟨⟨i, hp.items, hi, hwritten i (List.mem_singleton_self i)⟩, hp.others⟩
  · intro P hP
    obtain ⟨f, hf, -, hshape⟩ := exists_filler s hP
    apply Through.shows
    rw [hshape]
    apply (listOf_through hf v n).weaken
    rintro p ⟨l, q, hp, -, -, hlist⟩
    exact ⟨l, q, hp, hlist, contents_written q l⟩

def holesShape : Shape := .tuple [.option (.number .i32) "Option<i32>", .unit] "(Option<i32>,())"

theorem append_encodes_holes : "__list" ∉ NameScope.since ⟨["list"]⟩ (append holesShape (.var "pair") "__list" ⟨["list"]⟩).2 ∧
    ∃ p, (append holesShape (.var "pair") "__list" ⟨["list"]⟩).1.Path p true ∧
      ∃ i, contents p "__list" = [i] ∧ holesShape.encoding (.var "pair") (moves p) i ∧ i.Written (texts p) "__list" := by
  have hlist : "__list" ∉ NameScope.since ⟨["list"]⟩ (append holesShape (.var "pair") "__list" ⟨["list"]⟩).2 := by decide
  obtain ⟨p, r, hp⟩ := exists_path (append holesShape (.var "pair") "__list" ⟨["list"]⟩).1
  obtain ⟨rfl, ⟨hitem, -⟩, -⟩ := (append_encodes holesShape (.var "pair") hlist).1 p r hp
  exact ⟨hlist, p, hp, hitem⟩

end Answer
end RingBridge
