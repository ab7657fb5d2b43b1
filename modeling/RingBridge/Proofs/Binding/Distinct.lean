import Mathlib.Data.List.Perm.Subperm
import RingBridge.Proofs.Binding.Loops
import RingBridge.Proofs.Binding.Readers
/-!
Temporaries of parameters. The names that are handed out while the code of a parameter is made are different ones, and
none of them is the variable of the parameter, of its pointer or of the items of its slice: the stems are words, and names
with `_list` or `_owned` behind them, and none of them ends in a digit.
-/
namespace RingBridge
open Code NameScope

def Binding.binders (b : Binding) : List String := b.gets.flatMap Code.binders

namespace Binding

def wordStems : List String := itemStems ++ ["s", "vec"]

def IsStem (name st : String) : Prop :=
  st ∈ wordStems ∨ ∃ target ∈ [name, sliceName name, "__vec"], ∃ tail ∈ listTails, st = stem target ++ tail

def derived (name : String) : List String := [name, pointerName name, sliceName name]

namespace IsStem
variable {name st : String}

theorem of_item (h : st ∈ itemStems) : IsStem name st := .inl (List.mem_append_left _ h)

theorem endsPlain (h : IsStem name st) : EndsPlain st := by
  have hwords : ∀ st ∈ wordStems, EndsPlain st := by decide
  obtain h | ⟨target, -, tail, ht, rfl⟩ := h
  · exact hwords st h
  · exact endsPlain_collector _ (List.mem_cons_of_mem _ ht)

/-- No stem is the word before the position in the name that a parameter has for want of a better one. -/
theorem ne_arg (h : IsStem name st) : st ≠ "arg" := by
  have htails : ∀ tail ∈ listTails, tail.toList.getLast? ≠ "arg".toList.getLast? := by decide
  obtain h | ⟨target, -, tail, ht, rfl⟩ := h
  · rintro rfl
    exact absurd h (by decide)
  · intro he
    have hlast := getLast?_collector (stem target) (List.mem_cons_of_mem "_vec" ht)
    rw [he] at hlast
    exact htails tail ht hlast.symm

theorem numbered_ne_local (h : IsStem name st) (hname : IsLocal name) (k : Nat) : numbered st k ≠ name := by
  intro he
  obtain ⟨i, hi⟩ | hname := hname
  · have hlists : st.toList ++ digits k = "arg".toList ++ (toString i).toList := by
      have hlists := congrArg String.toList (he.trans hi)
      rw [toList_numbered, String.toList_append] at hlists
      exact (List.cons.inj (List.cons.inj hlists).2).2
    exact h.ne_arg (h.endsPlain.eq_of_append (by decide) hlists (fun _ => isDigit_of_mem_digits)
      fun _ => isDigit_of_mem_toString)
  · exact hname ⟨_, (toList_numbered st k).symm.trans (congrArg String.toList he)⟩

theorem underscore_notMem (h : st ∈ wordStems) : '_' ∉ st.toList := by
  have hwords : ∀ st ∈ wordStems, '_' ∉ st.toList := by decide
  exact hwords st h

theorem numbered_ne_sliceName (h : IsStem name st) (k : Nat) : numbered st k ≠ sliceName name := by
  intro he
  rw [sliceName_eq_numbered] at he
  have hst := h.endsPlain.eq_of_numbered (endsPlain_collector name (by decide)) he
  obtain h | ⟨target, -, tail, ht, rfl⟩ := h
  · exact underscore_notMem h (by simp [hst])
  · exact append_ne_vec (stem target) name ht hst

/-- What is made from a vector has no more letters `p` than the name of the parameter. -/
theorem count_stem_le {target : String} (h : target ∈ [name, sliceName name, "__vec"]) :
    (stem target).toList.count 'p' ≤ name.toList.count 'p' := by
  have hstem : (stem target).toList.count 'p' ≤ target.toList.count 'p' := by
    rw [toList_stem]
    exact (List.dropWhile_sublist _).count_le 'p'
  refine hstem.trans ?_
  simp only [List.mem_cons, List.not_mem_nil, or_false] at h
  obtain rfl | rfl | rfl := h
  · exact Nat.le_refl _
  · simp [sliceName, List.count_append]
  · exact Nat.zero_le _

/-- The variable of the pointer has a letter `p` of its own. -/
theorem numbered_ne_pointerName (h : IsStem name st) (k : Nat) : numbered st k ≠ pointerName name := by
  obtain h | ⟨target, htarget, tail, ht, rfl⟩ := h
  · exact (ne_numbered_of_underscore (by simp [pointerName]) (underscore_notMem h) k).symm
  · intro he
    have htails : ∀ tail ∈ listTails, tail.toList.count 'p' = 0 := by decide
    have hdigits : (digits k).count 'p' = 0 :=
      List.count_eq_zero.2 fun hm => absurd (isDigit_of_mem_digits hm) (by decide)
    have hle := count_stem_le htarget
    have hcount := congrArg (fun x => x.toList.count 'p') he
    simp [toList_numbered, pointerName, List.count_append, htails tail ht, hdigits] at hcount
    omega

/-- No temporary for a parameter is one of the variables that are derived from its name. -/
theorem numbered_notMem_derived (h : IsStem name st) (hname : IsLocal name) (k : Nat) : numbered st k ∉ derived name := by
  simp only [derived, List.mem_cons, List.not_mem_nil, or_false, not_or]
  exact ⟨h.numbered_ne_local hname k, h.numbered_ne_pointerName k, h.numbered_ne_sliceName k⟩

end IsStem

/-- Between two scopes, temporaries are handed out for stems of a parameter. Of the names `bound`, those beside `own` are
    temporaries that were handed out, each at most once. -/
structure HandsOut (name : String) (n m : NameScope) (bound own : List String) : Prop where
  leads : Leads (IsStem name) n m
  bound : bound.Subperm (own ++ n.since m)

namespace HandsOut
variable {name st : String} {n m : NameScope} {bs cs own : List String}

theorem refl (name : String) (n : NameScope) : HandsOut name n n [] [] := ⟨.refl _ n, List.nil_subperm⟩

theorem subperm (h : HandsOut name n m cs own) (hbs : bs.Subperm cs) : HandsOut name n m bs own :=
  ⟨h.leads, hbs.trans h.bound⟩

/-- A name that is no temporary. -/
theorem binds (h : HandsOut name n m bs own) (x : String) : HandsOut name n m (x :: bs) (x :: own) :=
  ⟨h.leads, (List.subperm_cons x).2 h.bound⟩

theorem append_nil (h : HandsOut name n m bs own) (hcs : cs = []) : HandsOut name n m (bs ++ cs) own := by
  rw [hcs, List.append_nil]
  exact h

/-- A name that is no temporary, bound after the others. -/
theorem append_binds (h : HandsOut name n m bs own) (x : String) : HandsOut name n m (bs ++ [x]) (own ++ [x]) where
  leads := h.leads
  bound := by
    rw [← List.append_cons]
    exact (List.perm_append_singleton x bs).subperm.trans
      (((List.subperm_cons x).2 h.bound).trans List.perm_middle.symm.subperm)

theorem temporary (hst : IsStem name st) (h : HandsOut name (n.fresh st).2 m bs own) :
    HandsOut name n m ((n.fresh st).1 :: bs) own where
  leads := (Leads.fresh n hst).trans h.leads
  bound := by
    rw [h.leads.since_fresh]
    exact ((List.subperm_cons _).2 h.bound).trans List.perm_middle.symm.subperm

/-- A temporary that is bound further inside. -/
theorem inside (hst : IsStem name st) (h : HandsOut name (n.fresh st).2 m bs ((n.fresh st).1 :: own)) :
    HandsOut name n m bs own where
  leads := (Leads.fresh n hst).trans h.leads
  bound := by
    rw [h.leads.since_fresh]
    exact h.bound.trans List.perm_middle.symm.subperm

/-- A temporary that is not bound. -/
theorem unbound (hst : IsStem name st) (h : HandsOut name (n.fresh st).2 m bs own) : HandsOut name n m bs own :=
  (h.temporary hst).subperm (List.sublist_cons_self ..).subperm

end HandsOut

abbrev Makes (name : String) (n : NameScope) (r : Code × NameScope) (own : List String) : Prop :=
  HandsOut name n r.2 r.1.binders own

variable {name : String}

theorem makes_listPointer (ptr list i : String) (n : NameScope) : Makes name n (listPointer ptr list i n) [ptr] :=
  .binds (.temporary (.of_item (by decide)) (.refl name _)) ptr

def ItemReader.Makes (name : String) (item : ItemReader) : Prop :=
  ∀ vec list i n, Binding.Makes name n (item vec list i n) []

theorem makes_fill {item : ItemReader} (hitem : item.Makes name) (vec list : String) (n : NameScope) :
    Makes name n (fill item vec list n) [vec] :=
  .binds (.temporary (.of_item (by decide)) (hitem ..)) vec

/-- The vector of a list inside an item is a temporary; it is bound where it is filled. -/
theorem makes_nested {item : ItemReader} (hitem : item.Makes name) (list i : String) (finish : Expr → Stmt)
    (hfinish : ∀ e, (finish e).binders = []) (n : NameScope) : Makes name n (nested item list i finish n) [] :=
  .temporary (.of_item (by decide)) (.inside (.of_item (by decide)) ((makes_fill hitem ..).append_nil (hfinish _)))

theorem makes_pushLeaf (s : Shape) (boxes : Nat) : (pushLeaf s boxes).Makes name := by
  intro vec list i n
  unfold pushLeaf
  cases s.pointee? with
  | none => exact .refl name n
  | some p => exact .inside (.of_item (by decide)) ((makes_listPointer _ list i _).append_nil rfl)

theorem makes_bindLeaf (s : Shape) (boxes : Nat) (value list i : String) (n : NameScope) :
    Makes name n (bindLeaf s boxes value list i n) [value] := by
  unfold bindLeaf
  cases s.pointee? with
  | none => exact .binds (.refl name n) value
  | some p => exact .inside (.of_item (by decide)) ((makes_listPointer _ list i _).append_binds value)

/-- A reader binds temporaries, and an optional one the item. -/
theorem makes_reader (o : Bool) (s : Shape) (boxes : Nat) : ∀ (target list i : String) (n : NameScope),
    Makes name n (reader o s boxes target list i n) (if o then [target] else []) := by
  induction o, s, boxes using reader_induction with
  | boxed o s sp boxes ih => exact reader_boxed o s sp boxes ▸ ih
  | option s sp boxes ih =>
    exact fun vec list i n => .inside (.of_item (by decide)) ((ih _ list i _).append_nil rfl)
  | vector s sp boxes ih =>
    exact fun vec list i n => makes_nested ih list i (fun e => .push vec (e.boxes boxes)) (fun _ => rfl) n
  | optionalVector s sp boxes ih =>
    intro value list i n
    have hbody := makes_nested ih list i (fun e => .yield (.some (e.boxes boxes))) (fun _ => rfl) n
    exact .binds (hbody.append_nil rfl) value
  | leaf s boxes hs => exact reader_leaf hs boxes ▸ makes_pushLeaf s boxes
  | optionalLeaf s boxes hs => exact reader_optionalLeaf hs boxes ▸ makes_bindLeaf s boxes

theorem makes_collect {target : String} (htarget : target ∈ [name, sliceName name, "__vec"]) (item : Shape) (idx : Int)
    (mutable : Bool) (n : NameScope) :
    Makes name n (collect target item idx mutable n) (target :: if mutable && !item.isTextView then [target] else []) := by
  have hstem : ∀ tail ∈ listTails, IsStem name (stem target ++ tail) := fun tail ht => .inr ⟨target, htarget, tail, ht, rfl⟩
  unfold collect
  cases item.isTextView with
  | true =>
    rw [Bool.not_true, Bool.and_false]
    exact .temporary (hstem _ (by decide))
      (.inside (hstem _ (by decide)) ((makes_fill (makes_reader false item 0) ..).append_binds target))
  | false =>
    rw [Bool.not_false, Bool.and_true]
    refine .temporary (hstem _ (by decide)) ?_
    have hfill : ∀ list m, Makes name m (fill (element item 0) target list m) [target] :=
      makes_fill (makes_reader false item 0) target
    cases mutable with
    | true => exact (hfill ..).append_binds target
    | false => exact (hfill ..).append_nil rfl

theorem makes_optional (name : String) (s : Shape) (idx : Int) : Makes name {} (optional name s idx {}) [name] := by
  have hs : IsStem name "s" := .inl (by decide)
  unfold optional
  dsimp only
  -- The first temporary is for text; only the code for text binds it.
  split
  · exact .binds (.temporary hs (.refl name _)) name
  · next t _ _ =>
    have hvec : IsStem name "vec" := .inl (by decide)
    have hcollect : ∀ m, Makes name m (collect "__vec" t idx false m) ["__vec"] := makes_collect (by simp) t idx false
    exact .binds (.unbound hs (.inside hvec (((hcollect _).append_nil rfl).append_nil rfl))) name
  · exact .binds (.unbound hs (.refl name _)) name
  · exact .binds (.unbound hs (.refl name _)) name
  · split
    · exact .binds (.unbound hs (.temporary (.inl (by decide)) (.refl name _))) name
    · exact .binds (.unbound hs (.refl name _)) name

def scope (name : String) (idx : Int) : Shape → NameScope
  | .vector t _ => (collect name t idx false {}).2
  | .slice t m _ => (collect (sliceName name) t idx m {}).2
  | .option t _ => (optional name t idx {}).2
  | .boxed t _ | .reference t _ _ => scope name idx t
  | _ => {}

/-- Beside temporaries, the code of a parameter binds variables that are derived from its name. -/
theorem handsOut_ofShape (name : String) (idx : Int) : (s : Shape) →
    ∃ own ⊆ derived name, HandsOut name {} (scope name idx s) (ofShape name idx s).binders own
  | .number _ | .boolean | .text _ | .unit | .result _ _ | .tuple _ _ | .mapping _ _ _ | .unknown _ =>
    ⟨[name], by simp [derived], .binds (.refl name _) name⟩
  | .named _ _ => ⟨[pointerName name, name], by simp [derived], .binds (.binds (.refl name _) name) _⟩
  | .vector t _ => ⟨_, by simp [derived], (makes_collect (by simp) t idx false {}).append_nil rfl⟩
  | .slice t m _ => ⟨_, by cases m && !t.isTextView <;> simp [derived], (makes_collect (by simp) t idx m {}).append_nil rfl⟩
  | .option t _ => ⟨_, by simp [derived], (makes_optional name t idx).append_nil rfl⟩
  | .boxed t _ => handsOut_ofShape name idx t
  | .reference t m _ => by
    obtain ⟨own, hown, h⟩ := handsOut_ofShape name idx t
    have hrebind : ∃ own ⊆ derived name, HandsOut name {} (scope name idx t) ((ofShape name idx t).binders ++
        (if m && (ofShape name idx t).arg = .var name then [Code.line (.bind true name (.var name))]
          else []).flatMap Code.binders) own := by
      split
      · exact ⟨own ++ [name], List.append_subset.2 ⟨hown, by simp [derived]⟩, h.append_binds name⟩
      · exact ⟨own, hown, h.append_nil rfl⟩
    -- A reference to a struct lends the pointer; any other one is bound as its target, perhaps once more as mutable.
    cases t with
    | named _ _ => exact ⟨[pointerName name], by simp [derived], .binds (.refl name _) _⟩
    | _ =>
      show ∃ own ⊆ derived name, HandsOut name {} _ ((_ ++ _ : List Code).flatMap Code.binders) own
      rw [List.flatMap_append]
      exact hrebind

namespace HandsOut
variable {name : String} {m : NameScope} {bs own : List String}

/-- Stems that do not end in digits share no temporary. -/
theorem nodup_names (h : HandsOut name {} m bs own) : m.names.Nodup := by
  obtain ⟨added, hm, hadded⟩ := h.leads
  have hm : m.stems = added := hm
  rw [nodup_names_iff, hm]
  intro st k st' k' hk hk' he
  have hst := hadded st (List.count_pos_iff.1 (Nat.zero_lt_of_lt hk))
  have hst' := hadded st' (List.count_pos_iff.1 (Nat.zero_lt_of_lt hk'))
  exact hst.endsPlain.eq_of_numbered hst'.endsPlain he

theorem derived_notMem_names (h : HandsOut name {} m bs own) (hname : IsLocal name) {y : String} (hy : y ∈ derived name) :
    y ∉ m.names := by
  obtain ⟨added, hm, hadded⟩ := h.leads
  have hm : m.stems = added := hm
  intro hmem
  rw [names, hm] at hmem
  obtain ⟨st, hst, k, -, rfl⟩ := exists_stem_of_mem hmem
  exact (hadded st hst).numbered_notMem_derived hname k hy

theorem filter_subperm_names (h : HandsOut name {} m bs own) (hown : own ⊆ derived name) :
    (bs.filter (· ∉ derived name)).Subperm m.names := by
  have hnone : own.filter (· ∉ derived name) = [] := by
    rw [List.filter_eq_nil_iff]
    intro y hy
    simpa using hown hy
  have hfilter := h.bound.filter (· ∉ derived name)
  rw [List.filter_append, hnone, List.nil_append] at hfilter
  exact hfilter.trans List.filter_sublist.subperm

end HandsOut

/-- The temporaries of a parameter are different names, and none of them is the local variable of the parameter or derived
    from it. All other names that its code binds are temporaries, each bound at most once. -/
theorem nodup_names_scope (x : String) (i : Nat) (idx : Int) (s : Shape) :
    (scope (Wrapper.localName x i) idx s).names.Nodup ∧
      (∀ y ∈ derived (Wrapper.localName x i), y ∉ (scope (Wrapper.localName x i) idx s).names) ∧
      ((ofShape (Wrapper.localName x i) idx s).binders.filter (· ∉ derived (Wrapper.localName x i))).Subperm
        (scope (Wrapper.localName x i) idx s).names := by
  obtain ⟨own, hown, h⟩ := handsOut_ofShape (Wrapper.localName x i) idx s
  refine ⟨h.nodup_names, fun y hy => ?_, h.filter_subperm_names hown⟩
  exact h.derived_notMem_names (Wrapper.isLocal_localName x i) hy

/-- The counter of a loop within a loop has a number; the name of the parameter may have one too. -/
example : (scope "rows1" 1 (.vector (.vector (.number .i32) "Vec<i32>") "Vec<Vec<i32>>")).names =
    ["__rows1_list", "__i", "__sub", "__inner", "__i1"] := by decide

end Binding
end RingBridge
