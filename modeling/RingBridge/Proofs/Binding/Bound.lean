import RingBridge.Proofs.Code.Names
import RingBridge.Proofs.Wrapper.Locals
/-!
Variables of parameters: the one that is passed on, and all that the code of a parameter binds beside it. They are made
from the name of the parameter in a few ways, and what is made from two names is one variable only if one of the names
begins with `ptr`.
-/
namespace RingBridge
open Code

/-- The names that code binds where it stands, in order; those of inner blocks end with the block. -/
def Code.bound : Code → List String
  | line s => s.binders
  | seq a b => a.bound ++ b.bound
  | fragment c => c.bound
  | letIf x _ _ _ | letChain x _ _ _ _ _ | receive x _ => [x]
  | skip | when _ _ | items _ _ _ | each _ _ _ | eachPair _ _ _ _ | matchOption _ _ _ _ | matchResult _ _ _ _
  | matchDone _ _ => []

def Binding.bound (b : Binding) : List String := b.gets.flatMap Code.bound

namespace Shape

def passed (name : String) : Shape → String
  | reference (named _ _) _ _ => Binding.pointerName name
  | reference t _ _ | boxed t _ => t.passed name
  | slice _ _ _ => Binding.sliceName name
  | _ => name

def collectors (target : String) (item : Shape) : List String :=
  ("__" ++ (Binding.stem target ++ "_list")) ::
    if item.isTextView then ["__" ++ (Binding.stem target ++ "_owned")] else []

def helpers (name : String) : Shape → List String
  | reference (named _ _) _ _ => []
  | named _ _ => [Binding.pointerName name]
  | reference t _ _ | boxed t _ => t.helpers name
  | vector t _ => collectors name t
  | slice t _ _ => collectors (Binding.sliceName name) t
  | _ => []

end Shape

namespace Binding

theorem vars_textArg (name spelling : String) : (textArg name spelling).vars = [name] := by
  unfold textArg
  split
  · rfl
  · split
    · rfl
    · split <;> rfl

theorem vars_arg (name : String) (idx : Int) : (s : Shape) → (ofShape name idx s).arg.vars = [s.passed name]
  | .number _ | .boolean | .unit | .result _ _ | .tuple _ _ | .mapping _ _ _ | .unknown _ | .named _ _ | .vector _ _
  | .slice _ _ _ | .option _ _ => rfl
  | .text sp => vars_textArg name sp
  | .boxed t _ => vars_arg name idx t
  | .reference t _ _ => by
    have ih := vars_arg name idx t
    cases t with
    | named n _ => rfl
    | _ => exact ih

theorem bound_fill (item : ItemReader) (vec list : String) (n : NameScope) : (fill item vec list n).1.bound = [vec] := rfl

theorem mem_bound_collect {target : String} {item : Shape} {idx : Int} {mutable : Bool} {x : String} :
    x ∈ (collect target item idx mutable {}).1.bound ↔ x = target ∨ x ∈ Shape.collectors target item := by
  have hne : ¬ stem target ++ "_list" = stem target ++ "_owned" := fun h => by
    have h := congrArg (fun s => s.toList.getLast?) h
    simp at h
  have hlist : (NameScope.fresh {} (stem target ++ "_list")).1 = "__" ++ (stem target ++ "_list") := rfl
  have howned : ((NameScope.fresh {} (stem target ++ "_list")).2.fresh (stem target ++ "_owned")).1 =
      "__" ++ (stem target ++ "_owned") := by
    simp [NameScope.fresh, NameScope.numbered, hne]
  cases hview : item.isTextView with
  | true =>
    simp only [collect, Shape.collectors, hview, if_true, Code.bound, Stmt.binders, bound_fill, hlist, howned]
    grind
  | false =>
    have hrebind : ∀ y ∈ (if mutable then Code.line (.bind true target (.var target)) else .skip).bound, y = target := by
      cases mutable with
      | true => exact fun y hy => List.mem_singleton.1 hy
      | false => nofun
    simp only [collect, Shape.collectors, hview, Bool.false_eq_true, if_false, Code.bound, Stmt.binders, bound_fill, hlist]
    grind

theorem bound_optional (name : String) (s : Shape) (idx : Int) (n : NameScope) : (optional name s idx n).1.bound = [name] := by
  unfold optional
  dsimp only
  split
  · rfl
  · rfl
  · rfl
  · rfl
  · split <;> rfl

/-- A variable that is made mutable is the one that is passed on. -/
theorem eq_passed_of_rebind {name : String} {idx : Int} {s : Shape} {m : Bool} {x : String}
    (h : x ∈ (if m && (ofShape name idx s).arg = .var name then [Code.line (.bind true name (.var name))]
      else []).flatMap Code.bound) : x = s.passed name := by
  split at h
  · next hm =>
    have harg : (ofShape name idx s).arg = .var name := of_decide_eq_true (Bool.and_eq_true_iff.1 hm).2
    have hvars := vars_arg name idx s
    rw [harg] at hvars
    exact (List.mem_singleton.1 h).trans (List.singleton_inj.1 hvars)
  · cases h

/-- The code of a parameter binds the variable that is passed on, and its helpers. -/
theorem mem_bound_ofShape (name : String) (idx : Int) {x : String} :
    (s : Shape) → (x ∈ (ofShape name idx s).bound ↔ x = s.passed name ∨ x ∈ s.helpers name)
  | .number _ | .boolean | .text _ | .unit | .result _ _ | .tuple _ _ | .mapping _ _ _ | .unknown _ => by
    simp [bound, ofShape, Code.bound, Stmt.binders, Shape.passed, Shape.helpers]
  | .named _ _ => by
    simp [bound, ofShape, Code.bound, Stmt.binders, Shape.passed, Shape.helpers, guardedPointer, or_comm]
  | .vector t _ => by
    rw [bound, ofShape, List.flatMap_singleton]
    exact mem_bound_collect
  | .slice t _ _ => by
    rw [bound, ofShape, List.flatMap_singleton]
    exact mem_bound_collect
  | .option t _ => by
    rw [bound, ofShape, List.flatMap_singleton, bound_optional]
    simp [Shape.passed, Shape.helpers]
  | .boxed t _ => mem_bound_ofShape name idx t
  | .reference t m _ => by
    have ih : x ∈ (ofShape name idx t).bound ↔ _ := mem_bound_ofShape name idx t
    have hrebind := @eq_passed_of_rebind name idx t m x
    cases t with
    | named n _ => simp [bound, ofShape, Code.bound, Stmt.binders, Shape.passed, Shape.helpers, guardedPointer]
    | _ =>
      refine Iff.trans ?_ ih
      show x ∈ (_ ++ _ : List Code).flatMap Code.bound ↔ _
      rw [List.flatMap_append, List.mem_append]
      exact ⟨fun h => h.elim id fun h => ih.2 (.inl (hrebind h)), .inl⟩

def IsLocal (name : String) : Prop := (∃ i : Nat, name = "__arg" ++ toString i) ∨ ¬ "__".toList <+: name.toList

def StartsPtr (name : String) : Prop := ['p', 't', 'r'] <+: (stem name).toList

instance (name : String) : Decidable (StartsPtr name) := inferInstanceAs (Decidable (_ <+: _))

theorem toList_stem (name : String) : (stem name).toList = name.toList.dropWhile (· == '_') :=
  String.toList_ofList

theorem startsPtr_of_prefix {name : String} (h : ['p', 't', 'r'] <+: name.toList) : StartsPtr name := by
  obtain ⟨r, hr⟩ := h
  rw [StartsPtr, toList_stem, ← hr]
  exact ⟨r, rfl⟩

theorem prefix_of_append {cs ds : List Char} (h : ['p', 't', 'r'] <+: cs ++ '_' :: ds) : ['p', 't', 'r'] <+: cs := by
  obtain ⟨r, hr⟩ := h
  match cs, hr with
  | [], hr | [_], hr | [_, _], hr => simp at hr
  | c :: d :: e :: cs, hr =>
    simp only [List.cons_append, List.nil_append, List.cons.injEq] at hr
    obtain ⟨rfl, rfl, rfl, -⟩ := hr
    exact ⟨cs, rfl⟩

theorem startsPtr_of_sliceName {name : String} (h : StartsPtr (sliceName name)) : StartsPtr name := by
  have hslice : (sliceName name).toList = '_' :: '_' :: (name.toList ++ ['_', 'v', 'e', 'c']) := by
    simp [sliceName]
  rw [StartsPtr, toList_stem, hslice, List.dropWhile_cons_of_pos rfl, List.dropWhile_cons_of_pos rfl,
    List.dropWhile_append] at h
  split at h
  · exact absurd h (by decide)
  · rw [StartsPtr, toList_stem]
    exact prefix_of_append h

theorem isDigit_getLast?_toString (i : Nat) {c : Char} (h : (toString i).toList.getLast? = some c) : c.isDigit = true :=
  Nat.isDigit_of_mem_toDigits (b := 10) (by decide) (by decide) (by simpa using List.mem_of_getLast? h)

def listTails : List String := ["_list", "_owned"]

def collectorTails : List String := ["_vec", "_list", "_owned"]

theorem getLast?_collector (lead : String) {tail : String} (ht : tail ∈ collectorTails) :
    (lead ++ tail).toList.getLast? = tail.toList.getLast? := by
  rw [String.toList_append, List.getLast?_append]
  simp only [collectorTails, List.mem_cons, List.not_mem_nil, or_false] at ht
  obtain rfl | rfl | rfl := ht <;> rfl

/-- What ends as the variable of a list does not end as that of a slice. -/
theorem append_ne_vec (lead name : String) {tail : String} (ht : tail ∈ listTails) : lead ++ tail ≠ name ++ "_vec" := by
  have htails : ∀ tail ∈ listTails, tail.toList.getLast? ≠ "_vec".toList.getLast? := by decide
  intro he
  have hlast := congrArg (fun x => x.toList.getLast?) he
  rw [getLast?_collector _ (List.mem_cons_of_mem _ ht), getLast?_collector _ (by decide)] at hlast
  exact htails tail ht hlast

namespace IsLocal
variable {name : String}

/-- Only the names of positions have the form of temporaries. -/
theorem eq_argument (h : IsLocal name) {rest : String} (he : name = "__" ++ rest) : ∃ i : Nat, rest = "arg" ++ toString i := by
  obtain ⟨i, hi⟩ | h := h
  · refine ⟨i, String.toList_injective ?_⟩
    have hlists := congrArg String.toList (he.symm.trans hi)
    simpa [String.toList_append] using hlists
  · refine absurd ?_ h
    rw [he, String.toList_append]
    exact List.prefix_append _ _

theorem ne_pointerName (h : IsLocal name) (other : String) : name ≠ pointerName other := by
  intro he
  have hpointer : name = "__" ++ ("ptr_" ++ other) := by
    rw [he, pointerName, ← String.append_assoc]
    rfl
  obtain ⟨i, hi⟩ := h.eq_argument hpointer
  have hlists := congrArg String.toList hi
  simp [String.toList_append] at hlists

/-- The number of a position ends in a digit. -/
theorem ne_collector (h : IsLocal name) (lead : String) {tail : String} (ht : tail ∈ collectorTails) :
    name ≠ "__" ++ (lead ++ tail) := by
  intro he
  obtain ⟨i, hi⟩ := h.eq_argument he
  have hlast := getLast?_collector lead ht
  rw [hi, String.toList_append, List.getLast?_append] at hlast
  cases hdigit : (toString i).toList.getLast? with
  | none =>
    rw [hdigit] at hlast
    simp only [collectorTails, List.mem_cons, List.not_mem_nil, or_false] at ht
    obtain rfl | rfl | rfl := ht <;> exact absurd hlast (by decide)
  | some c =>
    rw [hdigit, Option.some_or] at hlast
    have hc := isDigit_getLast?_toString i hdigit
    simp only [collectorTails, List.mem_cons, List.not_mem_nil, or_false] at ht
    obtain rfl | rfl | rfl := ht <;> cases hlast <;> exact absurd hc (by decide)

end IsLocal

def IsCollector (name x : String) : Prop :=
  ∃ lead, (∃ tail ∈ collectorTails, x = "__" ++ (lead ++ tail)) ∧ (['p', 't', 'r'] <+: lead.toList → StartsPtr name)

theorem isCollector_sliceName (name : String) : IsCollector name (sliceName name) :=
  ⟨name, ⟨"_vec", by decide, by rw [sliceName, String.append_assoc]⟩, startsPtr_of_prefix⟩

theorem exists_tail_of_mem_collectors {target x : String} {item : Shape} (hx : x ∈ Shape.collectors target item) :
    ∃ tail ∈ listTails, x = "__" ++ (stem target ++ tail) := by
  obtain rfl | hx := List.mem_cons.1 hx
  · exact ⟨"_list", by decide, rfl⟩
  · split at hx
    · exact ⟨"_owned", by decide, List.mem_singleton.1 hx⟩
    · cases hx

theorem IsCollector.ne_pointerName {name x : String} (h : IsCollector name x) (hp : ¬ StartsPtr name) (other : String) :
    x ≠ pointerName other := by
  obtain ⟨lead, ⟨tail, ht, rfl⟩, hstart⟩ := h
  intro he
  have hlists := congrArg String.toList he
  refine hp (hstart ?_)
  obtain ⟨r, hr⟩ : ∃ r, tail.toList = '_' :: r := by
    simp only [collectorTails, List.mem_cons, List.not_mem_nil, or_false] at ht
    obtain rfl | rfl | rfl := ht <;> exact ⟨_, rfl⟩
  have hprefix : ['p', 't', 'r'] <+: lead.toList ++ '_' :: r :=
    ⟨'_' :: other.toList, by simpa [pointerName, String.toList_append, hr, eq_comm] using hlists⟩
  exact prefix_of_append hprefix

theorem sliceName_inj {a b : String} (h : sliceName a = sliceName b) : a = b := by
  have hlists := congrArg String.toList h
  simp only [sliceName, String.toList_append, List.append_assoc] at hlists
  exact String.toList_injective (List.append_cancel_right (List.append_cancel_left hlists))

theorem passed_cases (name : String) :
    (s : Shape) → s.passed name = name ∨ s.passed name = pointerName name ∨ s.passed name = sliceName name
  | .number _ | .boolean | .text _ | .unit | .result _ _ | .tuple _ _ | .mapping _ _ _ | .unknown _ | .named _ _
  | .vector _ _ | .option _ _ => .inl rfl
  | .slice _ _ _ => .inr (.inr rfl)
  | .boxed t _ => passed_cases name t
  | .reference t _ _ => by
    have ih := passed_cases name t
    cases t with
    | named n _ => exact .inr (.inl rfl)
    | _ => exact ih

theorem helpers_cases {x : String} (name : String) : (s : Shape) → x ∈ s.helpers name → x = pointerName name ∨
    ∃ target, (target = name ∨ target = sliceName name) ∧ ∃ tail ∈ listTails, x = "__" ++ (stem target ++ tail)
  | .number _, hx | .boolean, hx | .text _, hx | .unit, hx | .result _ _, hx | .tuple _ _, hx | .mapping _ _ _, hx
  | .unknown _, hx | .option _ _, hx => by cases hx
  | .named _ _, hx => .inl (List.mem_singleton.1 hx)
  | .vector _ _, hx => .inr ⟨name, .inl rfl, exists_tail_of_mem_collectors hx⟩
  | .slice _ _ _, hx => .inr ⟨sliceName name, .inr rfl, exists_tail_of_mem_collectors hx⟩
  | .boxed t _, hx => helpers_cases name t hx
  | .reference t _ _, hx => by
    have ih : x ∈ t.helpers name → _ := helpers_cases name t
    cases t with
    | named n _ => cases hx
    | _ => exact ih hx

/-- Of two names neither of which begins with `ptr`, no variable that one is passed on as is bound for the other. -/
theorem passed_ne {a b x : String} (ha : IsLocal a) (hb : IsLocal b) (hne : a ≠ b) (hpa : ¬ StartsPtr a)
    (hpb : ¬ StartsPtr b) (s t : Shape) (hx : x = t.passed b ∨ x ∈ t.helpers b) : s.passed a ≠ x := by
  have hmade : x = b ∨ x = pointerName b ∨ (IsCollector b x ∧ x ≠ sliceName a) := by
    have hslice : IsCollector b (sliceName b) ∧ sliceName b ≠ sliceName a :=
      ⟨isCollector_sliceName b, fun he => hne (sliceName_inj he).symm⟩
    obtain rfl | hx := hx
    · refine (passed_cases b t).imp_right (Or.imp_right fun h => ?_)
      rw [h]
      exact hslice
    · obtain hx | ⟨target, ht, tail, htail, rfl⟩ := helpers_cases b t hx
      · exact .inr (.inl hx)
      · refine .inr (.inr ⟨⟨stem target, ⟨tail, List.mem_cons_of_mem _ htail, rfl⟩, fun h => ?_⟩, fun he => ?_⟩)
        · obtain rfl | rfl := ht
          · exact h
          · exact startsPtr_of_sliceName h
        · rw [sliceName, String.append_assoc, String.append_right_inj] at he
          exact append_ne_vec (stem target) a htail he
  have hlocal : ∀ {n y : String}, IsLocal n → ∀ {m}, IsCollector m y → n ≠ y := by
    rintro n y hn m ⟨lead, ⟨tail, ht, rfl⟩, -⟩
    exact hn.ne_collector lead ht
  obtain h | h | h := passed_cases a s <;> rw [h] <;> obtain rfl | rfl | ⟨hx, hxa⟩ := hmade
  · exact hne
  · exact ha.ne_pointerName b
  · exact hlocal ha hx
  · exact (hb.ne_pointerName a).symm
  · exact fun he => hne (pointerName_inj he)
  · exact (hx.ne_pointerName hpb a).symm
  · exact (hlocal hb (isCollector_sliceName a)).symm
  · exact (isCollector_sliceName a).ne_pointerName hpa b
  · exact hxa.symm

end Binding

end RingBridge
