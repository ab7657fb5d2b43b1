import RingBridge.Answer
import RingBridge.Proofs.Code.Along
/-!
Answers use no pointers of their own: they take apart a value that is bound, and bind values only.
-/
namespace RingBridge
open Code

/-- A pointer is followed where it was tested, unless the name stands for a value there; the receiver is used where
    it was received. Unknown code is never guarded. -/
def Use.Guarded : Use → Store → Prop
  | follow ptr _, τ => (∃ s, τ ptr = some (.tested s)) ∨ τ.IsValue ptr
  | object, τ => ∃ s, τ "obj" = some (.tested s)
  | hand _ _, _ | receive _, _ => True
  | unknown, _ => False

def Expr.isPlain : Expr → Bool
  | var _ => true
  | clone e | deref e | toVec e | box e | debug e => e.isPlain
  | _ => false

theorem Expr.plain_uses {e : Expr} {σ τ : Store} {u : Use} (he : e.isPlain = true) (hm : (u, τ) ∈ e.uses σ) :
    τ = σ ∧ ∃ x ∈ e.vars, u = .follow x Option.none := by
  induction e with
  | var x => cases hm
  | clone e ih | toVec e ih | box e ih | debug e ih => exact ih he hm
  | deref e ih =>
    cases List.mem_append.1 hm with
    | inl hm =>
      obtain ⟨x, hx, hu⟩ := List.mem_map.1 hm
      obtain ⟨rfl, rfl⟩ := Prod.mk.inj hu
      exact ⟨rfl, x, hx, rfl⟩
    | inr hm => exact ih he hm
  | _ => cases he

namespace Store

def Keeps (σ τ : Store) : Prop := ∀ x, σ.IsValue x → τ.IsValue x

theorem Keeps.refl (σ : Store) : Keeps σ σ := fun _ h => h

theorem Keeps.trans {σ ρ τ : Store} (h : Keeps σ ρ) (h' : Keeps ρ τ) : Keeps σ τ := fun x hx => h' x (h x hx)

theorem keeps_set (σ : Store) (x : String) (t : Option Shape) : Keeps σ (σ.set x (.value t)) := by
  intro y ⟨u, hu⟩
  by_cases hy : y = x
  · rw [hy]
    exact isValue_set ..
  · exact ⟨u, by rw [set_of_ne _ _ hy, hu]⟩

theorem keeps_setParts (xs : List String) (ts : List Shape) (σ : Store) : Keeps σ (σ.setParts xs ts) := by
  induction xs generalizing ts σ with
  | nil => exact Keeps.refl σ
  | cons x xs ih => cases ts <;> exact (keeps_set _ _ _).trans (ih _ _)

theorem isValue_setParts {x : String} {xs : List String} (hx : x ∈ xs) (ts : List Shape) (σ : Store) :
    (σ.setParts xs ts).IsValue x := by
  induction xs generalizing ts σ with
  | nil => cases hx
  | cons y xs ih =>
    cases List.mem_cons.1 hx with
    | inl hy =>
      rw [hy]
      cases ts <;> exact keeps_setParts xs _ _ y (isValue_set ..)
    | inr hx => cases ts <;> exact ih hx ..

structure Names (σ : Store) (e : Expr) : Prop where
  plain : e.isPlain = true
  values : ∀ x ∈ e.vars, σ.IsValue x

theorem Names.keeps {σ τ : Store} {e : Expr} (h : σ.Names e) (hk : Keeps σ τ) : τ.Names e :=
  ⟨h.plain, fun x hx => hk x (h.values x hx)⟩

theorem Names.var {σ : Store} {x : String} (h : σ.IsValue x) : σ.Names (.var x) :=
  ⟨rfl, fun y hy => by rwa [List.mem_singleton.1 hy]⟩

theorem Names.guarded {σ τ : Store} {e : Expr} {u : Use} (h : σ.Names e) (hm : (u, τ) ∈ e.uses σ) : u.Guarded τ := by
  obtain ⟨rfl, x, hx, rfl⟩ := Expr.plain_uses h.plain hm
  exact .inr (h.values x hx)

end Store

/-- Whatever an item or an entry turns out to be, it is a value. -/
theorem Held.exists_value (g : Held) : (∃ t, g.item = .value t) ∧ (∃ t, g.key = .value t) ∧ (∃ t, g.entry = .value t) ∧
    ∃ t, g.present = .value t := by
  refine ⟨?_, ?_, ?_, ?_⟩
  · unfold item; split <;> exact ⟨_, rfl⟩
  · unfold key; split <;> exact ⟨_, rfl⟩
  · unfold entry; split <;> exact ⟨_, rfl⟩
  · unfold present; split <;> exact ⟨_, rfl⟩

namespace Answer
variable {result : Option Shape}

abbrev Quiet (result : Option Shape) (c : Code) (σ : Store) : Prop :=
  Along Use.Guarded result c σ fun τ _ => Store.Keeps σ τ

def Filler.Guarded (result : Option Shape) (f : Filler) : Prop :=
  ∀ v list n σ, Store.Names σ v → Quiet result (f v list n).1 σ

theorem quiet_append {σ : Store} (list : String) {o : Outgoing} (h : ∀ u τ, (u, τ) ∈ o.uses σ → u.Guarded τ) :
    Quiet result (.line (.append list o)) σ := by
  apply Along.line (s := .append list o) h
  intro τ g hm
  obtain ⟨rfl, _⟩ := Prod.mk.inj (List.mem_singleton.1 hm)
  exact Store.Keeps.refl τ

theorem quiet_hand {σ : Store} {v : Expr} (h : σ.Names v) (s : String) {u : Use} {τ : Store}
    (hm : (u, τ) ∈ (Outgoing.pointer v s).uses σ) : u.Guarded τ := by
  cases List.mem_append.1 hm with
  | inl hm => exact h.guarded hm
  | inr hm =>
    obtain ⟨rfl, rfl⟩ := Prod.mk.inj (List.mem_singleton.1 hm)
    trivial

/-- A value is bound first. -/
theorem quiet_seq_bind {σ : Store} {m : Bool} {x : String} {e : Expr} {c : Code} (hu : e.uses σ = [])
    (he : e.held σ = [.value none]) (h : Quiet result c (σ.set x (.value none))) :
    Quiet result (.seq (.line (.bind m x e)) c) σ := by
  apply Along.seq
  apply Along.bind
  · intro u τ hm
    rw [hu] at hm
    cases hm
  · intro g hg
    rw [he] at hg
    rw [List.mem_singleton.1 hg]
    exact h.weaken fun τ _ hk => (Store.keeps_set _ _ _).trans hk

theorem itemsOf_guarded {f : Filler} (hf : f.Guarded result) : Filler.Guarded result (itemsOf f) := by
  intro v list n σ hv
  apply Along.each (fun u τ hm => hv.guarded hm) _ (Store.Keeps.refl σ)
  intro g _
  obtain ⟨⟨t, ht⟩, _⟩ := g.exists_value
  rw [ht]
  exact (hf _ _ _ _ (.var (Store.isValue_set ..))).weaken fun _ _ _ => trivial

theorem debugText_guarded : Filler.Guarded result debugText :=
  fun _ list _ _ hv => quiet_append list fun _ _ hm => hv.guarded hm

theorem entriesOf_guarded {key value : Filler} (hk : key.Guarded result) (hv : value.Guarded result) :
    Filler.Guarded result (entriesOf key value) := by
  intro v list n σ hσ
  apply Along.eachPair (fun u τ hm => hσ.guarded hm) _ (Store.Keeps.refl σ)
  intro g _
  obtain ⟨_, ⟨t, ht⟩, ⟨u, hu⟩, _⟩ := g.exists_value
  rw [ht, hu]
  have hkey : Store.IsValue ((σ.set (n.fresh "k").1 (.value t)).set ((n.fresh "k").2.fresh "v").1 (.value u))
      (n.fresh "k").1 := Store.keeps_set _ _ _ _ (Store.isValue_set ..)
  have hentry : Store.IsValue ((σ.set (n.fresh "k").1 (.value t)).set ((n.fresh "k").2.fresh "v").1 (.value u))
      ((n.fresh "k").2.fresh "v").1 := Store.isValue_set ..
  apply Along.seq
  apply Along.bind (fun u τ hm => by cases hm)
  intro h hh
  rw [List.mem_singleton.1 hh]
  have hset := Store.keeps_set ((σ.set (n.fresh "k").1 (.value t)).set ((n.fresh "k").2.fresh "v").1 (.value u))
    (((n.fresh "k").2.fresh "v").2.fresh "pair").1 none
  apply Along.seq
  apply (hk _ _ _ _ (.var (hset _ hkey))).weaken
  intro ρ _ hρ
  exact (hv _ _ _ _ (.var (hρ _ (hset _ hentry)))).weaken fun _ _ _ => trivial

theorem sublist_guarded {f : Filler} (hf : f.Guarded result) : Filler.Guarded result (sublist f) :=
  fun _ _ _ _ hv => quiet_seq_bind rfl rfl (hf _ _ _ _ (hv.keeps (Store.keeps_set _ _ _)))

def PartsGuarded (result : Option Shape) (parts : List String → String → NameScope → Code × NameScope) : Prop :=
  ∀ xs list n σ, (∀ x ∈ xs, Store.IsValue σ x) → Quiet result (parts xs list n).1 σ

theorem partsOf_guarded {count : Nat} {parts : List String → String → NameScope → Code × NameScope}
    (hp : PartsGuarded result parts) : Filler.Guarded result (partsOf count parts) := by
  intro v list n σ hv
  apply Along.seq
  apply Along.line (fun u τ hm => hv.guarded hm)
  intro τ g hm
  obtain ⟨h, _, he⟩ := List.mem_map.1 hm
  obtain ⟨rfl, _⟩ := Prod.mk.inj he
  exact (hp _ _ _ _ fun x hx => Store.isValue_setParts hx ..).weaken fun _ _ hk => (Store.keeps_setParts _ _ _).trans hk

/-- The value of an option or a result, where there is one. -/
theorem present_guarded {v : Expr} {x : String} {c : Code} {m : Missing} {σ : Store} (hv : σ.Names v)
    (hc : ∀ τ, Store.Names τ (.var x) → Quiet result c τ) :
    Quiet result (.matchOption v x c m) σ ∧ Quiet result (.matchResult v x c m) σ := by
  have hbody : ∀ g ∈ v.held σ, Along Use.Guarded result c (σ.set x g.present) fun _ _ => True := by
    intro g _
    obtain ⟨_, _, _, t, ht⟩ := g.exists_value
    rw [ht]
    exact (hc _ (.var (Store.isValue_set ..))).weaken fun _ _ _ => trivial
  exact ⟨.matchOption (fun u τ hm => hv.guarded hm) hbody (Store.Keeps.refl σ),
    .matchResult (fun u τ hm => hv.guarded hm) hbody (Store.Keeps.refl σ)⟩

mutual

theorem append_guarded : (s : Shape) → Filler.Guarded result (append s)
  | .number _ | .unknown _ | .boolean | .text _ => fun _ list _ _ hv => quiet_append list fun _ _ hm => hv.guarded hm
  | .unit => fun _ _ _ σ _ => Along.idle rfl rfl (Store.Keeps.refl σ)
  | .vector t _ => sublist_guarded (itemsOf_guarded (append_guarded t))
  | .slice t _ _ => sublist_guarded fun _ list n σ hv =>
    itemsOf_guarded (append_guarded t) _ list n σ ⟨hv.plain, hv.values⟩
  | .tuple ts _ => sublist_guarded (partsOf_guarded (appendEach_guarded ts))
  | .mapping k v _ => by
    apply sublist_guarded
    apply entriesOf_guarded _ (append_guarded v)
    split
    · exact append_guarded k
    · exact debugText_guarded
  | .option t _ => fun _ _ _ _ hv => (present_guarded hv fun τ => append_guarded t _ _ _ τ).1
  | .result t _ => fun _ _ _ _ hv => (present_guarded hv fun τ => append_guarded t _ _ _ τ).2
  | .named s _ => fun _ list _ _ hv => quiet_append list fun _ _ hm => quiet_hand (v := .box _) ⟨hv.plain, hv.values⟩ s hm
  | .boxed t _ => by
    have ih := append_guarded t
    cases t with
    | named s _ => exact fun _ list _ _ hv => quiet_append list fun _ _ hm => quiet_hand hv s hm
    | _ => exact fun v list n σ hv => ih (.deref v) list n σ ⟨hv.plain, hv.values⟩
  | .reference t _ _ => fun v list n σ hv => append_guarded t (.clone v) list n σ ⟨hv.plain, hv.values⟩

theorem appendEach_guarded : (ts : List Shape) → PartsGuarded result (appendEach ts)
  | [] => fun _ _ _ σ _ => Along.skip (Store.Keeps.refl σ)
  | t :: ts => by
    intro xs list n σ hxs
    cases xs with
    | nil => exact Along.skip (Store.Keeps.refl σ)
    | cons x xs =>
      apply Along.seq
      apply (append_guarded t _ list n σ (.var (hxs x (List.mem_cons_self ..)))).weaken
      intro ρ _ hρ
      apply (appendEach_guarded ts xs list _ ρ fun y hy => hρ y (hxs y (List.mem_cons_of_mem x hy))).weaken
      exact fun _ _ hk => hρ.trans hk

end

theorem quiet_answer {σ : Store} {o : Outgoing} (h : ∀ u τ, (u, τ) ∈ o.uses σ → u.Guarded τ) :
    Quiet result (.line (.answer o)) σ := by
  apply Along.line (s := .answer o) h
  intro τ g hm
  obtain ⟨rfl, _⟩ := Prod.mk.inj (List.mem_singleton.1 hm)
  exact Store.Keeps.refl τ

theorem listOf_guarded {f : Filler} (hf : f.Guarded result) {v : Expr} {n : NameScope} {σ : Store} (hv : σ.Names v) :
    Quiet result (listOf f v n).1 σ := by
  apply quiet_seq_bind rfl rfl
  apply Along.seq
  apply (hf _ _ _ _ (hv.keeps (Store.keeps_set _ _ _))).weaken
  intro ρ _ hρ
  exact Along.idle rfl rfl hρ

theorem ofShape_guarded : (s : Shape) → ∀ v n σ, Store.Names σ v → Quiet result (ofShape s v n).1 σ
  | .number _ | .unknown _ | .boolean | .text _ => fun _ _ _ hv => quiet_answer fun _ _ hm => hv.guarded hm
  | .unit => fun _ _ σ _ => Along.skip (Store.Keeps.refl σ)
  | .vector t _ => fun _ _ _ hv => listOf_guarded (itemsOf_guarded (append_guarded t)) hv
  | .slice t _ _ => fun _ _ _ hv => listOf_guarded (itemsOf_guarded (append_guarded t)) ⟨hv.plain, hv.values⟩
  | .tuple ts _ => fun _ _ _ hv => listOf_guarded (partsOf_guarded (appendEach_guarded ts)) hv
  | .mapping k x _ => by
    intro v n σ hv
    apply listOf_guarded _ hv
    apply entriesOf_guarded _ (append_guarded x)
    split
    · exact append_guarded k
    · exact debugText_guarded
  | .option t _ => fun _ _ _ hv => (present_guarded hv fun τ => ofShape_guarded t _ _ τ).1
  | .result t _ => fun v n σ hv => by
    have ih := ofShape_guarded t
    cases t with
    | unit => exact Along.matchDone (fun u τ hm => hv.guarded hm) (Store.Keeps.refl σ)
    | _ => exact (present_guarded hv fun τ => ih _ ((n.fresh "val").2.fresh "e").2 τ).2
  | .named s _ => fun _ _ _ hv => quiet_answer fun _ _ hm => quiet_hand (v := .box _) ⟨hv.plain, hv.values⟩ s hm
  | .boxed t _ => by
    have ih := ofShape_guarded t
    cases t with
    | named s _ => exact fun _ _ _ hv => quiet_answer fun _ _ hm => quiet_hand hv s hm
    | _ => exact fun v n σ hv => ih (.deref v) n σ ⟨hv.plain, hv.values⟩
  | .reference t _ _ => fun v n σ hv => ofShape_guarded t (.clone v) n σ ⟨hv.plain, hv.values⟩

/-- After a call whose own uses are guarded, an answer is guarded throughout. -/
theorem ofCall_guarded (shape : Option Shape) {call : Call} (n : NameScope) {σ : Store}
    (h : ∀ u τ, (u, τ) ∈ call.uses σ → u.Guarded τ) :
    Along Use.Guarded result (ofCall shape call n).1 σ fun _ _ => True := by
  have hperform : Along Use.Guarded result (.line (.perform call)) σ fun _ _ => True :=
    Along.line (s := .perform call) h fun _ _ _ => trivial
  cases shape with
  | none => exact hperform
  | some s =>
    have hbind : Along Use.Guarded result (.seq (.line (.bindCall (n.fresh "result").1 call))
        (ofShape s (.var (n.fresh "result").1) (n.fresh "result").2).1) σ fun _ _ => True := by
      apply Along.seq
      apply Along.line (s := .bindCall (n.fresh "result").1 call) h
      intro τ g hm
      obtain ⟨rfl, _⟩ := Prod.mk.inj (List.mem_singleton.1 hm)
      exact (ofShape_guarded s _ _ _ (.var (Store.isValue_set ..))).weaken fun _ _ _ => trivial
    cases s with
    | unit => exact hperform
    | _ => exact hbind

end Answer
end RingBridge
