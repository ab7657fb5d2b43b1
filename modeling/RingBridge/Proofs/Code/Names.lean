import RingBridge.Proofs.Code.Paths
/-!
Names and structs in code: a value stays under its name unless the code binds that name again, and the tags under
which pointers were read or are given up stand in the code.
-/
namespace RingBridge

def Stmt.binders : Stmt → List String
  | .bind _ x _ | .bindViews _ x _ | .bindCall x _ => [x]
  | .bindTuple xs _ => xs
  | _ => []

def Code.binders : Code → List String
  | skip | matchDone _ _ => []
  | line s => s.binders
  | seq a b => a.binders ++ b.binders
  | fragment c | when _ c => c.binders
  | letIf x _ a b => x :: (a.binders ++ b.binders)
  | letChain x _ a₁ _ a₂ b => x :: (a₁.binders ++ (a₂.binders ++ b.binders))
  | items x _ c | each x _ c | matchOption _ x c _ | matchResult _ x c _ => x :: c.binders
  | eachPair k v _ c => k :: v :: c.binders
  | receive x _ => [x]

namespace Store

theorem setParts_of_notMem {xs : List String} {x : String} (hx : x ∉ xs) (ts : List Shape) (σ : Store) :
    σ.setParts xs ts x = σ x := by
  induction xs generalizing ts σ with
  | nil => rfl
  | cons y xs ih =>
    have hy : x ≠ y := fun he => hx (he ▸ List.mem_cons_self ..)
    have hxs : x ∉ xs := fun he => hx (List.mem_cons_of_mem y he)
    cases ts <;> rw [setParts, ih hxs, set_of_ne _ _ hy]

theorem pass_eq (σ : Store) (ptr : String) :
    σ.pass ptr = σ ∨ ∃ s, σ ptr = some (.untested s) ∧ σ.pass ptr = σ.set ptr (.tested s) := by
  unfold pass
  split
  · next s hs => exact .inr ⟨s, hs, rfl⟩
  · exact .inl rfl

theorem learn_of_value {σ : Store} {x : String} {t : Option Shape} (h : σ x = some (.value t)) (c : Test) (b : Bool) :
    σ.learn c b x = some (.value t) := by
  have hpass : ∀ ptr, σ.pass ptr x = some (.value t) := by
    intro ptr
    obtain hp | ⟨s, hs, hp⟩ := σ.pass_eq ptr
    · rw [hp, h]
    · have hx : x ≠ ptr := by
        intro he
        rw [he, hs] at h
        cases h
      rw [hp, set_of_ne _ _ hx, h]
  cases c <;> cases b <;> first | exact h | exact hpass _

end Store

namespace Code
variable {result : Option Shape}

theorem value_outcomes {s : Stmt} {σ τ : Store} {g : Held} (h : (τ, g) ∈ s.outcomes result σ) {x : String}
    (hx : x ∉ s.binders) : τ x = σ x := by
  have hset : ∀ {y : String} {k : Held}, x ∉ [y] → (σ.set y k) x = σ x :=
    fun hy => Store.set_of_ne _ _ fun he => hy (he ▸ List.mem_singleton_self _)
  cases s with
  | bind m y e =>
    obtain ⟨k, _, he⟩ := List.mem_map.1 h
    cases he
    exact hset hx
  | bindViews m y v =>
    cases List.mem_singleton.1 h
    exact hset hx
  | bindTuple ys e =>
    obtain ⟨k, _, he⟩ := List.mem_map.1 h
    cases he
    exact Store.setParts_of_notMem hx ..
  | bindCall y call =>
    cases List.mem_singleton.1 h
    exact hset hx
  | yield e =>
    obtain ⟨k, _, he⟩ := List.mem_map.1 h
    cases he
    rfl
  | leave => cases h
  | _ =>
    cases List.mem_singleton.1 h
    rfl

/-- A value stays under a name that the code does not bind. -/
theorem Falls.keeps_value {c : Code} {σ τ : Store} {g : Held} (h : Falls result c σ τ g) {x : String}
    {t : Option Shape} (hx : x ∉ c.binders) (hv : σ x = some (.value t)) : τ x = some (.value t) := by
  induction h with
  | skip | items | each | eachPair | matchOption | matchResult | matchDone => exact hv
  | line hm => rw [value_outcomes hm hx, hv]
  | seq _ _ iha ihb =>
    have hx := not_or.1 fun h => hx (List.mem_append.2 h)
    exact ihb hx.2 (iha hx.1 hv)
  | fragment _ ih => exact ih hx hv
  | whenYes _ _ | whenNo => exact Store.learn_of_value hv ..
  | letYes _ _ | letNo _ _ | chainFirst _ _ | chainSecond _ _ | chainLast _ _ | receive =>
    rw [Store.set_of_ne _ _ (List.ne_of_not_mem_cons hx), hv]

end Code

def Store.SourcesIn (S : List String) (σ : Store) : Prop := ∀ x h s, σ x = some h → h.source = some s → s ∈ S

namespace Store.SourcesIn
variable {S : List String} {σ : Store}

theorem empty : SourcesIn S Store.empty := fun _ _ _ h => by cases h

theorem set (h : SourcesIn S σ) (x : String) {g : Held} (hg : ∀ s, g.source = some s → s ∈ S) :
    SourcesIn S (σ.set x g) := by
  intro y k s hy hs
  by_cases he : y = x
  · subst he
    rw [set_self] at hy
    cases hy
    exact hg s hs
  · rw [set_of_ne _ _ he] at hy
    exact h y k s hy hs

theorem set_value (h : SourcesIn S σ) (x : String) (t : Option Shape) : SourcesIn S (σ.set x (.value t)) :=
  h.set x fun _ hs => by cases hs

theorem setParts (h : SourcesIn S σ) (xs : List String) (ts : List Shape) : SourcesIn S (σ.setParts xs ts) := by
  induction xs generalizing ts σ with
  | nil => exact h
  | cons x xs ih => cases ts <;> exact ih (h.set_value x _) _

theorem learn (h : SourcesIn S σ) (t : Test) (b : Bool) : SourcesIn S (σ.learn t b) := by
  have hpass : ∀ ptr, SourcesIn S (σ.pass ptr) := by
    intro ptr
    obtain hp | ⟨s, hs, hp⟩ := σ.pass_eq ptr
    · rw [hp]
      exact h
    · rw [hp]
      exact h.set ptr fun r hr => h ptr _ r hs hr
  cases t <;> cases b <;> first | exact h | exact hpass _

end Store.SourcesIn

theorem Held.source_item (g : Held) :
    g.item.source = none ∧ g.key.source = none ∧ g.entry.source = none ∧ g.present.source = none := by
  refine ⟨?_, ?_, ?_, ?_⟩
  · unfold item; split <;> rfl
  · unfold key; split <;> rfl
  · unfold entry; split <;> rfl
  · unfold present; split <;> rfl

/-- A pointer that an expression may come to stems from the store or from a tag in the expression. -/
theorem Store.SourcesIn.of_held {S : List String} {e : Expr} {σ : Store} (hσ : σ.SourcesIn S) (he : e.structs ⊆ S)
    {g : Held} (hg : g ∈ e.held σ) {s : String} (hs : g.source = some s) : s ∈ S := by
  induction e generalizing σ g with
  | var x =>
    rw [List.mem_singleton.1 hg] at hs
    cases hx : σ x with
    | none => rw [hx] at hs; cases hs
    | some h =>
      rw [hx] at hs
      exact hσ x h s hx hs
  | handle idx r =>
    rw [List.mem_singleton.1 hg] at hs
    cases hs
    exact he (List.mem_singleton_self _)
  | cond t a b iha ihb =>
    cases List.mem_append.1 hg with
    | inl hg => exact iha (hσ.learn _ _) (fun _ h => he (List.mem_append_left _ h)) hg hs
    | inr hg => exact ihb (hσ.learn _ _) (fun _ h => he (List.mem_append_right _ h)) hg hs
  | clone e ih =>
    obtain ⟨k, hk, rfl⟩ := List.mem_map.1 hg
    refine ih hσ he hk ?_
    revert hs
    unfold Held.cloned
    split <;> simp [Held.source]
  | box e ih | deref e ih | toVec e ih =>
    obtain ⟨k, hk, rfl⟩ := List.mem_map.1 hg
    revert hs
    first
      | (unfold Held.boxed; split <;> simp [Held.source])
      | (unfold Held.unboxed; split <;> simp [Held.source])
      | (unfold Held.asVector; split <;> simp [Held.source])
  | _ =>
    rw [List.mem_singleton.1 hg] at hs
    cases hs

def Use.tagged? : Use → Option String
  | hand _ s | receive s => some s
  | _ => none

structure Use.Within (S : List String) (u : Use) (τ : Store) : Prop where
  sources : τ.SourcesIn S
  tagged : ∀ s, u.tagged? = some s → s ∈ S

section
variable {S : List String} {u : Use} {σ τ : Store} {result : Option Shape} {g : Held}

theorem Expr.uses_within {e : Expr} (hσ : σ.SourcesIn S) (hm : (u, τ) ∈ e.uses σ) : u.Within S τ := by
  induction e generalizing σ with
  | borrow ptr s m | duplicate ptr s | verbatim c ss =>
    cases List.mem_singleton.1 hm
    exact ⟨hσ, nofun⟩
  | cond t a b iha ihb =>
    cases List.mem_append.1 hm with
    | inl hm => exact iha (hσ.learn _ _) hm
    | inr hm => exact ihb (hσ.learn _ _) hm
  | deref e ih =>
    cases List.mem_append.1 hm with
    | inl hm =>
      obtain ⟨x, _, he⟩ := List.mem_map.1 hm
      cases he
      exact ⟨hσ, nofun⟩
    | inr hm => exact ih hσ hm
  | some e ih | box e ih | owned e ih | refer m e ih | full e ih | clone e ih | toVec e ih | debug e ih => exact ih hσ hm
  | _ => cases hm

theorem Outgoing.uses_within {o : Outgoing} (hσ : σ.SourcesIn S) (ho : o.structs ⊆ S) (hm : (u, τ) ∈ o.uses σ) :
    u.Within S τ := by
  cases o with
  | number e | truth e | text e => exact Expr.uses_within hσ hm
  | pointer b s =>
    cases List.mem_append.1 hm with
    | inl hm => exact Expr.uses_within hσ hm
    | inr hm =>
      cases List.mem_singleton.1 hm
      refine ⟨hσ, fun r hr => ?_⟩
      cases hr
      exact ho (List.mem_append_right _ (List.mem_singleton_self _))

theorem Call.uses_within {call : Call} (hσ : σ.SourcesIn S) (hm : (u, τ) ∈ call.uses σ) : u.Within S τ := by
  have hargs : ∀ {args : List Expr}, (u, τ) ∈ args.flatMap (fun e => e.uses σ) → u.Within S τ := by
    intro args hm
    obtain ⟨e, _, hm⟩ := List.mem_flatMap.1 hm
    exact Expr.uses_within hσ hm
  have hobject : (u, τ) ∈ [(Use.object, σ)] → u.Within S τ := by
    intro hm
    cases List.mem_singleton.1 hm
    exact ⟨hσ, nofun⟩
  cases call with
  | verbatim code =>
    cases List.mem_singleton.1 hm
    exact ⟨hσ, nofun⟩
  | function name args | associated struct name args => exact hargs hm
  | method byValue name args =>
    cases List.mem_append.1 hm with
    | inl hm => exact hargs hm
    | inr hm => exact hobject hm
  | getField name => exact hobject hm
  | setField name value =>
    cases List.mem_append.1 hm with
    | inl hm => exact Expr.uses_within hσ hm
    | inr hm => exact hobject hm

theorem Stmt.uses_within {s : Stmt} (hσ : σ.SourcesIn S) (hs : s.structs ⊆ S) (hm : (u, τ) ∈ s.uses σ) :
    u.Within S τ := by
  cases s with
  | bind m x e | bindTuple xs e | push v e | yield e => exact Expr.uses_within hσ hm
  | bindCall x call | perform call => exact Call.uses_within hσ hm
  | answer o | append l o => exact Outgoing.uses_within hσ hs hm
  | verbatim c ss | free ptr r =>
    cases List.mem_singleton.1 hm
    exact ⟨hσ, nofun⟩
  | _ => cases hm

theorem Stmt.outcomes_within {s : Stmt} (hσ : σ.SourcesIn S) (hs : s.structs ⊆ S)
    (hm : (τ, g) ∈ s.outcomes result σ) : τ.SourcesIn S ∧ ∀ r, g.source = some r → r ∈ S := by
  cases s with
  | bind m x e =>
    obtain ⟨k, hk, he⟩ := List.mem_map.1 hm
    cases he
    exact ⟨hσ.set x fun _ hr => hσ.of_held hs hk hr, nofun⟩
  | bindViews m x v =>
    cases List.mem_singleton.1 hm
    exact ⟨hσ.set_value x none, nofun⟩
  | bindTuple xs e =>
    obtain ⟨k, _, he⟩ := List.mem_map.1 hm
    cases he
    exact ⟨hσ.setParts xs _, nofun⟩
  | bindCall x call =>
    cases List.mem_singleton.1 hm
    exact ⟨hσ.set_value x _, nofun⟩
  | yield e =>
    obtain ⟨k, hk, he⟩ := List.mem_map.1 hm
    cases he
    exact ⟨hσ, fun _ hr => hσ.of_held hs hk hr⟩
  | leave => cases hm
  | _ =>
    cases List.mem_singleton.1 hm
    exact ⟨hσ, nofun⟩

end

namespace Code
variable {S : List String} {c : Code} {σ τ : Store} {result : Option Shape} {g : Held} {u : Use}

theorem Falls.within (h : Falls result c σ τ g) (hc : c.structs ⊆ S) (hσ : σ.SourcesIn S) :
    τ.SourcesIn S ∧ ∀ r, g.source = some r → r ∈ S := by
  induction h with
  | skip | items | each | eachPair | matchOption | matchResult | matchDone => exact ⟨hσ, nofun⟩
  | line hm => exact Stmt.outcomes_within hσ hc hm
  | seq _ _ iha ihb =>
    obtain ⟨ha, hb⟩ := List.append_subset.1 hc
    exact ihb hb (iha ha hσ).1
  | fragment _ ih => exact ih hc hσ
  | whenYes _ _ | whenNo => exact ⟨hσ.learn _ _, nofun⟩
  | letYes _ ih => exact ⟨hσ.set _ (ih (List.append_subset.1 hc).1 (hσ.learn _ _)).2, nofun⟩
  | letNo _ ih => exact ⟨hσ.set _ (ih (List.append_subset.1 hc).2 (hσ.learn _ _)).2, nofun⟩
  | chainFirst _ ih => exact ⟨hσ.set _ (ih (List.append_subset.1 (List.append_subset.1 hc).1).1 (hσ.learn _ _)).2, nofun⟩
  | chainSecond _ ih =>
    exact ⟨hσ.set _ (ih (List.append_subset.1 (List.append_subset.1 hc).1).2 ((hσ.learn _ _).learn _ _)).2, nofun⟩
  | chainLast _ ih => exact ⟨hσ.set _ (ih (List.append_subset.1 hc).2 ((hσ.learn _ _).learn _ _)).2, nofun⟩
  | receive =>
    refine ⟨hσ.set _ fun r hr => ?_, nofun⟩
    cases hr
    exact hc (List.mem_singleton_self _)

theorem Reaches.within (h : Reaches result c σ u τ) (hc : c.structs ⊆ S) (hσ : σ.SourcesIn S) : u.Within S τ := by
  have hnone : ∀ {k : Held} {s : String}, k.source = none → k.source = some s → s ∈ S := by
    intro k s hn hs
    rw [hn] at hs
    cases hs
  induction h with
  | line hm => exact Stmt.uses_within hσ hc hm
  | first _ ih => exact ih (List.append_subset.1 hc).1 hσ
  | second hf _ ih => exact ih (List.append_subset.1 hc).2 (hf.within (List.append_subset.1 hc).1 hσ).1
  | fragment _ ih => exact ih hc hσ
  | when _ ih => exact ih hc (hσ.learn _ _)
  | letYes _ ih => exact ih (List.append_subset.1 hc).1 (hσ.learn _ _)
  | letNo _ ih => exact ih (List.append_subset.1 hc).2 (hσ.learn _ _)
  | chainFirst _ ih => exact ih (List.append_subset.1 (List.append_subset.1 hc).1).1 (hσ.learn _ _)
  | chainSecond _ ih => exact ih (List.append_subset.1 (List.append_subset.1 hc).1).2 ((hσ.learn _ _).learn _ _)
  | chainLast _ ih => exact ih (List.append_subset.1 hc).2 ((hσ.learn _ _).learn _ _)
  | items _ ih => exact ih hc (hσ.set_value _ none)
  | eachHead hm | eachPairHead hm | matchOptionHead hm | matchResultHead hm | matchDone hm => exact Expr.uses_within hσ hm
  | @each _ _ _ _ k _ _ _ _ ih => exact ih (List.append_subset.1 hc).2 (hσ.set _ fun _ => hnone k.source_item.1)
  | @eachPair _ _ _ _ _ k _ _ _ _ ih =>
    apply ih (List.append_subset.1 hc).2
    exact (hσ.set _ fun _ => hnone k.source_item.2.1).set _ fun _ => hnone k.source_item.2.2.1
  | @matchOption _ _ _ _ _ k _ _ _ _ ih | @matchResult _ _ _ _ _ k _ _ _ _ ih =>
    exact ih (List.append_subset.1 hc).2 (hσ.set _ fun _ => hnone k.source_item.2.2.2)
  | receive =>
    refine ⟨hσ, fun r hr => ?_⟩
    cases hr
    exact hc (List.mem_singleton_self _)

end Code
end RingBridge
