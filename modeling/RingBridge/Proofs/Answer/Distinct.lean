import RingBridge.Proofs.Answer.Filled
import RingBridge.Proofs.Code.Numbered
/-!
Temporaries of answers. The names that are handed out while the value of a call is answered are different ones, unless
two tuples are taken apart and one of them has twelve parts: the second `t1` is then the first `t11`.
-/
namespace RingBridge
open Code NameScope

namespace Shape

mutual

def tupleWidths : Shape → List Nat
  | .tuple ts _ => ts.length :: tupleWidthsEach ts
  | .vector t _ | .slice t _ _ | .option t _ | .result t _ | .boxed t _ | .reference t _ _ => t.tupleWidths
  | .mapping _ v _ => v.tupleWidths
  | .number _ | .text _ | .boolean | .unit | .named _ _ | .unknown _ => []

def tupleWidthsEach : List Shape → List Nat
  | [] => []
  | t :: ts => t.tupleWidths ++ tupleWidthsEach ts

end

end Shape

namespace Answer

def wordStems : List String := ["result", "list", "sub", "item", "k", "v", "pair", "val", "e"]

def partStem (i : Nat) : String := "t" ++ toString i

def IsAnswerStem (st : String) : Prop := st ∈ wordStems ∨ ∃ i, st = partStem i

theorem partStem_inj {i j : Nat} (h : partStem i = partStem j) : i = j := by
  have hlists := congrArg String.toList h
  rw [partStem, partStem, String.toList_append, String.toList_append] at hlists
  have hdigits := List.append_cancel_left hlists
  exact toDigits_inj (by simpa using hdigits)

theorem partStem_notMem_wordStems (i : Nat) : partStem i ∉ wordStems := by
  intro h
  have hlead : lead (partStem i) = "t".toList := lead_number "t" (by decide) i
  have hwords : ∀ st ∈ wordStems, lead st ≠ "t".toList := by decide
  exact hwords _ h hlead

theorem stems_freshEach (n : NameScope) (stems : List String) : (n.freshEach stems).2.stems = n.stems ++ stems := by
  induction stems generalizing n with
  | nil => exact (List.append_nil _).symm
  | cons st stems ih => rw [freshEach, ih, fresh, List.append_assoc, List.singleton_append]

theorem count_partStems (i count : Nat) :
    ((List.range count).map partStem).count (partStem i) = [count].countP fun w => i < w := by
  have hnodup : ((List.range count).map partStem).Nodup :=
    (List.nodup_map_iff_inj_on List.nodup_range).2 fun _ _ _ _ => partStem_inj
  have hmem : partStem i ∈ (List.range count).map partStem ↔ i < count := by
    constructor
    · intro h
      obtain ⟨j, hj, he⟩ := List.mem_map.1 h
      exact partStem_inj he ▸ List.mem_range.1 hj
    · exact fun h => List.mem_map.2 ⟨i, List.mem_range.2 h, rfl⟩
  rw [hnodup.count, List.countP_singleton]
  simp only [hmem, decide_eq_true_eq]

/-- Two stems share a temporary only as parts of tuples. -/
theorem eq_or_part {st st' : String} {k k' : Nat} (hst : IsAnswerStem st) (hst' : IsAnswerStem st')
    (he : numbered st k = numbered st' k') : st = st' ∨ ∃ i j, st = partStem i ∧ st' = partStem j := by
  have hlead : lead st = lead st' := by
    have h := congrArg lead he
    rw [lead_numbered, lead_numbered] at h
    exact (List.cons.inj (List.cons.inj h).2).2
  have hpart : ∀ i, lead (partStem i) = "t".toList := lead_number "t" (by decide)
  have hwords : ∀ st ∈ wordStems, lead st ≠ "t".toList ∧ ∀ st' ∈ wordStems, lead st = lead st' → st = st' := by decide
  obtain hst | ⟨i, rfl⟩ := hst <;> obtain hst' | ⟨j, rfl⟩ := hst'
  · exact .inl ((hwords st hst).2 st' hst' hlead)
  · exact absurd (hlead.trans (hpart j)) (hwords st hst).1
  · exact absurd (hlead.symm.trans (hpart i)) (hwords st' hst').1
  · exact .inr ⟨i, j, rfl, rfl⟩

/-- Between two scopes, temporaries are handed out for words and for the parts of tuples of the widths `ws`. The names
    `bound` are some of them, in their order. -/
structure HandsOut (n m : NameScope) (bound : List String) (ws : List Nat) : Prop where
  leads : Leads IsAnswerStem n m
  parts : ∀ i, m.stems.count (partStem i) = n.stems.count (partStem i) + ws.countP fun w => i < w
  bound : bound.Sublist (n.since m)

namespace HandsOut
variable {n m k : NameScope} {st : String} {bs cs : List String} {ws vs : List Nat}

theorem refl (n : NameScope) : HandsOut n n [] [] := ⟨.refl _ n, fun _ => rfl, List.nil_sublist _⟩

theorem append (h : HandsOut n m bs ws) (h' : HandsOut m k cs vs) : HandsOut n k (bs ++ cs) (ws ++ vs) where
  leads := h.leads.trans h'.leads
  parts i := by rw [h'.parts, h.parts, List.countP_append, Nat.add_assoc]
  bound := by
    rw [h.leads.since_append h'.leads]
    exact h.bound.append h'.bound

/-- Not every name has to be bound. -/
theorem sublist (h : HandsOut n m cs ws) (hbs : bs.Sublist cs) : HandsOut n m bs ws :=
  ⟨h.leads, h.parts, hbs.trans h.bound⟩

theorem word (hst : st ∈ wordStems) (h : HandsOut (n.fresh st).2 m bs ws) : HandsOut n m ((n.fresh st).1 :: bs) ws where
  leads := (Leads.fresh n (.inl hst)).trans h.leads
  parts i := by
    have hne : partStem i ≠ st := fun he => partStem_notMem_wordStems i (he ▸ hst)
    rw [h.parts, fresh, List.count_append, List.count_singleton, beq_false_of_ne hne.symm]
    rfl
  bound := by
    rw [h.leads.since_fresh]
    exact h.bound.cons_cons _

/-- A temporary for each part of a tuple. -/
theorem tuple (n : NameScope) (count : Nat) : HandsOut n (n.freshEach ((List.range count).map partStem)).2
    (n.freshEach ((List.range count).map partStem)).1 [count] where
  leads := by
    refine .freshEach n fun st hst => ?_
    obtain ⟨i, -, rfl⟩ := List.mem_map.1 hst
    exact .inr ⟨i, rfl⟩
  parts i := by rw [stems_freshEach, List.count_append, count_partStems]
  bound := by rw [since_freshEach]

/-- Two tuples of several parts, one of them of more than eleven, are needed for two temporaries of one name. -/
theorem nodup_names_iff_widths (h : HandsOut {} m bs ws) :
    m.names.Nodup ↔ (∀ w ∈ ws, w < 12) ∨ ws.countP (fun w => 1 < w) ≤ 1 := by
  have hcount : ∀ i, m.stems.count (partStem i) = ws.countP fun w => i < w := fun i => by
    rw [h.parts i, show NameScope.stems {} = [] from rfl, List.count_nil, Nat.zero_add]
  -- A shared temporary is for a part after the first, taken for a second tuple, and for a part after the eleventh.
  have hshared : ∀ {i j k k' : Nat}, k < m.stems.count (partStem i) → k' < m.stems.count (partStem j) →
      0 < i ∧ 0 < k ∧ 11 ≤ j → ¬ ((∀ w ∈ ws, w < 12) ∨ ws.countP (fun w => 1 < w) ≤ 1) := by
    rintro i j k k' hk hk' ⟨hi, hkpos, hj⟩ (hnarrow | hone)
    · obtain ⟨w, hw, hjw⟩ := List.countP_pos_iff.1 (Nat.lt_of_le_of_lt (Nat.zero_le k') (hcount j ▸ hk'))
      have hlt := hnarrow w hw
      have hjw := of_decide_eq_true hjw
      omega
    · have hle : (ws.countP fun w => i < w) ≤ ws.countP fun w => 1 < w := List.countP_mono_left fun w _ hw => by
        have hw := of_decide_eq_true hw
        exact decide_eq_true (by omega)
      rw [hcount] at hk
      omega
  have hstems : ∀ {st k}, k < m.stems.count st → IsAnswerStem st := by
    intro st k hk
    obtain ⟨added, hm, hadded⟩ := h.leads
    exact hadded st (by simpa [hm] using List.count_pos_iff.1 (Nat.lt_of_le_of_lt (Nat.zero_le k) hk))
  rw [nodup_names_iff]
  constructor
  · intro hdistinct
    by_contra hwide
    obtain ⟨hwide, hseveral⟩ := not_or.1 hwide
    obtain ⟨w, hw, hle⟩ : ∃ w ∈ ws, 12 ≤ w := by simpa using hwide
    have hfirst : 1 < m.stems.count (partStem 1) := by
      rw [hcount]
      exact Nat.lt_of_not_le hseveral
    have hlast : 0 < m.stems.count (partStem 11) := by
      rw [hcount]
      exact List.countP_pos_iff.2 ⟨w, hw, decide_eq_true hle⟩
    have hsame := partStem_inj (hdistinct _ 1 _ 0 hfirst hlast (by decide))
    omega
  · intro hwidths st k st' k' hk hk' he
    obtain he | ⟨i, j, rfl, rfl⟩ := eq_or_part (hstems hk) (hstems hk') he
    · exact he
    · by_contra hne
      obtain hij | hji := of_numbered_eq he fun hij => hne (congrArg partStem hij)
      · exact hshared hk hk' hij hwidths
      · exact hshared hk' hk hji hwidths

end HandsOut

def Filler.HandsOut (f : Filler) (ws : List Nat) : Prop :=
  ∀ v list n, Answer.HandsOut n (f v list n).2 (f v list n).1.binders ws

theorem debugText_handsOut : debugText.HandsOut [] := fun _ _ n => .refl n

theorem itemsOf_handsOut {f : Filler} {ws : List Nat} (hf : f.HandsOut ws) : (itemsOf f).HandsOut ws :=
  fun _ _ _ => .word (by decide) (hf ..)

theorem sublist_handsOut {f : Filler} {ws : List Nat} (hf : f.HandsOut ws) : (sublist f).HandsOut ws :=
  fun _ _ _ => .word (by decide) (hf ..)

theorem entriesOf_handsOut {key val : Filler} {ws vs : List Nat} (hkey : key.HandsOut ws) (hval : val.HandsOut vs) :
    (entriesOf key val).HandsOut (ws ++ vs) :=
  fun _ _ _ => .word (by decide) (.word (by decide) (.word (by decide) ((hkey ..).append (hval ..))))

mutual

theorem append_handsOut : (s : Shape) → (append s).HandsOut s.tupleWidths
  | .number _ | .unknown _ | .boolean | .text _ | .unit | .named _ _ => fun _ _ n => .refl n
  | .vector t _ => sublist_handsOut (itemsOf_handsOut (append_handsOut t))
  | .slice t _ _ => sublist_handsOut fun v => itemsOf_handsOut (append_handsOut t) (.toVec v)
  | .tuple ts _ => sublist_handsOut fun _ list n =>
    (HandsOut.tuple n ts.length).append (appendEach_handsOut ts _ list _ (by simp [length_freshEach]))
  | .mapping k v _ => by
    have hval := append_handsOut v
    cases k with
    | number w | text sp | boolean => exact sublist_handsOut (entriesOf_handsOut (append_handsOut _) hval)
    | _ => exact sublist_handsOut (entriesOf_handsOut debugText_handsOut hval)
  | .option t _ | .result t _ => fun _ _ _ => .word (by decide) (append_handsOut t ..)
  | .boxed t _ => by
    have ih := append_handsOut t
    cases t with
    | named struct _ => exact fun _ _ n => .refl n
    | _ => exact fun v => ih (.deref v)
  | .reference t _ _ => fun v => append_handsOut t (.clone v)

theorem appendEach_handsOut : (ts : List Shape) → (xs : List String) → (list : String) → (n : NameScope) →
    xs.length = ts.length →
    HandsOut n (appendEach ts xs list n).2 (appendEach ts xs list n).1.binders (Shape.tupleWidthsEach ts)
  | [], _, _, n, _ => .refl n
  | t :: ts, x :: xs, list, n, h =>
    (append_handsOut t (.var x) list n).append (appendEach_handsOut ts xs list _ (Nat.succ.inj h))

end

theorem listOf_handsOut {f : Filler} {ws : List Nat} (hf : f.HandsOut ws) (v : Expr) (n : NameScope) :
    HandsOut n (listOf f v n).2 (listOf f v n).1.binders ws := by
  have hfilled : HandsOut (n.fresh "list").2 (listOf f v n).2 _ ws := hf ..
  refine (hfilled.word (by decide)).sublist ?_
  show List.Sublist (_ :: (_ ++ [])) _
  rw [List.append_nil]
  exact List.Sublist.refl _

theorem ofShape_handsOut : (s : Shape) → (v : Expr) → (n : NameScope) →
    HandsOut n (ofShape s v n).2 (ofShape s v n).1.binders s.tupleWidths
  | .number _, _, n | .unknown _, _, n | .boolean, _, n | .text _, _, n | .unit, _, n | .named _ _, _, n => .refl n
  | .vector t _, v, n => listOf_handsOut (itemsOf_handsOut (append_handsOut t)) v n
  | .slice t _ _, v, n => listOf_handsOut (itemsOf_handsOut (append_handsOut t)) (.toVec v) n
  | .tuple ts _, v, n => listOf_handsOut (fun _ list n =>
    (HandsOut.tuple n ts.length).append (appendEach_handsOut ts _ list _ (by simp [length_freshEach]))) v n
  | .mapping k x _, v, n => by
    have hval := append_handsOut x
    cases k with
    | number w | text sp | boolean => exact listOf_handsOut (entriesOf_handsOut (append_handsOut _) hval) v n
    | _ => exact listOf_handsOut (entriesOf_handsOut debugText_handsOut hval) v n
  | .option t _, v, n => .word (by decide) (ofShape_handsOut t ..)
  | .result t _, v, n => by
    have ih := ofShape_handsOut t
    have hbody := ih (.var (n.fresh "val").1) ((n.fresh "val").2.fresh "e").2
    have hmatch : HandsOut n _ _ t.tupleWidths := (hbody.word (by decide)).word (by decide)
    cases t with
    | unit => exact hmatch.sublist (List.nil_sublist _)
    | _ => exact hmatch.sublist ((List.sublist_cons_self ..).cons_cons _)
  | .boxed t _, v, n => by
    have ih := ofShape_handsOut t
    cases t with
    | named struct _ => exact .refl n
    | _ => exact ih (.deref v) n
  | .reference t _ _, v, n => ofShape_handsOut t (.clone v) n

def widths (shape : Option Shape) : List Nat := (shape.map Shape.tupleWidths).getD []

theorem ofCall_handsOut (shape : Option Shape) (call : Call) (n : NameScope) :
    HandsOut n (ofCall shape call n).2 (ofCall shape call n).1.binders (widths shape) := by
  cases shape with
  | none => exact .refl n
  | some s =>
    have hbody := ofShape_handsOut s (.var (n.fresh "result").1) (n.fresh "result").2
    cases s with
    | unit => exact .refl n
    | _ => exact hbody.word (by decide)

/-- The temporaries of an answer are different names if, and only if, no tuple in the value has twelve parts, or only
    one has more than one. Then all names that the code binds are different. -/
theorem nodup_names_ofCall (shape : Option Shape) (call : Call) :
    ((ofCall shape call {}).2.names.Nodup ↔ (∀ w ∈ widths shape, w < 12) ∨ (widths shape).countP (fun w => 1 < w) ≤ 1) ∧
      ((ofCall shape call {}).2.names.Nodup → (ofCall shape call {}).1.binders.Nodup) := by
  have h := ofCall_handsOut shape call {}
  exact ⟨h.nodup_names_iff_widths, fun hnames => hnames.sublist h.bound⟩

def wideShape : Shape :=
  .tuple (.tuple [.number .i32, .number .i32] "(i32,i32)" :: List.replicate 11 (.number .i32))
    "((i32,i32),i32,i32,i32,i32,i32,i32,i32,i32,i32,i32,i32)"

/-- The second part of the pair takes the name of the last number, before that number is appended. -/
theorem nodup_names_ofCall_not :
    ¬ (ofCall (some wideShape) (.verbatim "f()") {}).2.names.Nodup ∧
      (ofCall (some wideShape) (.verbatim "f()") {}).1.binders.count "__t11" = 2 := by decide

end Answer
end RingBridge
