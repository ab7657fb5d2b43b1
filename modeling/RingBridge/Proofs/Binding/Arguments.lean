import RingBridge.Proofs.Binding.Items
/-!
Reading arguments: what the code of one parameter leaves bound. Of pointers, only one that was tested and is then
passed on stays; everything else that is bound is a value.
-/
namespace RingBridge
open Code

def Name.IsTemporary (z : String) : Prop := ∃ r, z = "__" ++ r

theorem NameScope.isTemporary_fresh (n : NameScope) (stem : String) : Name.IsTemporary (n.fresh stem).1 := by
  unfold fresh numbered
  split
  · exact ⟨stem, rfl⟩
  · exact ⟨stem ++ toString (n.stems.count stem), String.append_assoc ..⟩

namespace Store

/-- From `σ` to `τ`, only `names` and temporaries change, and what is new is a value or one of the pointers `ps`,
    tested and with the struct that stands beside it. -/
structure Settles (names : List String) (ps : List (String × String)) (σ τ : Store) : Prop where
  kept : ∀ z, z ∉ names → ¬ Name.IsTemporary z → τ z = σ z
  settled : ∀ z, τ z = σ z ∨ τ.IsValue z ∨ ∃ s, (z, s) ∈ ps ∧ τ z = some (.tested s)

namespace Settles
variable {names names' : List String} {ps ps' : List (String × String)} {σ ρ τ : Store}

theorem refl : Settles names ps σ σ := ⟨fun _ _ _ => rfl, fun _ => .inl rfl⟩

theorem trans (h : Settles names ps σ ρ) (h' : Settles names' ps' ρ τ) :
    Settles (names ++ names') (ps ++ ps') σ τ where
  kept z hz ht := by
    have hz : z ∉ names ∧ z ∉ names' := by simpa using hz
    rw [h'.kept z hz.2 ht, h.kept z hz.1 ht]
  settled z := by
    obtain hz | hz | ⟨s, hs, hz⟩ := h'.settled z
    · obtain hy | ⟨t, hy⟩ | ⟨s, hs, hy⟩ := h.settled z
      · exact .inl (hz.trans hy)
      · exact .inr (.inl ⟨t, hz.trans hy⟩)
      · exact .inr (.inr ⟨s, List.mem_append_left _ hs, hz.trans hy⟩)
    · exact .inr (.inl hz)
    · exact .inr (.inr ⟨s, List.mem_append_right _ hs, hz⟩)

theorem set_value (h : Settles names ps σ τ) {x : String} (hx : x ∈ names ∨ Name.IsTemporary x) (t : Option Shape) :
    Settles names ps σ (τ.set x (.value t)) where
  kept z hz ht := by
    have hne : z ≠ x := by
      intro he
      subst he
      cases hx with
      | inl hx => exact hz hx
      | inr hx => exact ht hx
    rw [set_of_ne _ _ hne, h.kept z hz ht]
  settled z := by
    by_cases hz : z = x
    · subst hz
      exact .inr (.inl (isValue_set ..))
    · have hs : τ.set x (.value t) z = τ z := set_of_ne _ _ hz
      simp only [IsValue, hs]
      exact h.settled z

theorem set_tested {x s : String} (hx : Name.IsTemporary x) (hs : (x, s) ∈ ps) :
    Settles names ps σ (σ.set x (.tested s)) where
  kept z _ ht := set_of_ne _ _ fun he => ht (he ▸ hx)
  settled z := by
    by_cases hz : z = x
    · subst hz
      exact .inr (.inr ⟨s, hs, set_self ..⟩)
    · exact .inl (set_of_ne _ _ hz)

end Settles
end Store

namespace Binding
variable {result : Option Shape} {σ ρ : Store}

theorem bind_value {P : Use → Store → Prop} {R : Store → Prop} {m : Bool} {x : String} {e : Expr} {t : Option Shape}
    (hu : e.uses ρ = []) (he : e.held ρ = [.value t]) (h : R (ρ.set x (.value t))) :
    Along P result (.line (.bind m x e)) ρ fun τ _ => R τ := by
  apply Along.bind
  · intro u τ hm
    rw [hu] at hm
    cases hm
  · intro g hg
    rw [he] at hg
    rw [List.mem_singleton.1 hg]
    exact h

/-- The code for a list leaves the vector bound, and temporaries. -/
theorem collect_along (names : List String) (ps : List (String × String)) {target : String}
    (ht : target ∈ names ∨ Name.IsTemporary target) (item : Shape) (idx : Int) (m : Bool) (n : NameScope) (σ : Store) :
    Along Use.Fits result (collect target item idx m n).1 σ
      fun τ _ => Store.Settles names ps σ τ ∧ τ.IsValue target := by
  have hlist : Store.Settles names ps σ (σ.set (n.fresh (stem target ++ "_list")).1 (.value none)) :=
    Store.Settles.refl.set_value (.inr (n.isTemporary_fresh _)) none
  unfold collect
  cases hv : item.isTextView with
  | true =>
    simp only [if_pos]
    apply Along.seq
    apply bind_value rfl rfl
    apply Along.seq
    apply (fill_guarded (reader_guarded false item 0) ..).weaken
    intro ρ _ hρ
    subst hρ
    apply Along.line
    · intro u τ hm
      cases hm
    · intro τ g hm
      obtain ⟨rfl, _⟩ := Prod.mk.inj (List.mem_singleton.1 hm)
      exact ⟨(hlist.set_value (.inr (NameScope.isTemporary_fresh ..)) none).set_value ht none, Store.isValue_set ..⟩
  | false =>
    simp only [Bool.false_eq_true, if_false]
    apply Along.seq
    apply bind_value rfl rfl
    apply Along.seq
    apply (fill_guarded (reader_guarded false item 0) ..).weaken
    intro ρ _ hρ
    subst hρ
    have hvec := hlist.set_value ht none
    cases m with
    | true =>
      apply bind_value (t := none) rfl (by simp [Expr.held])
      exact ⟨hvec.set_value ht none, Store.isValue_set ..⟩
    | false => exact Along.skip ⟨hvec, Store.isValue_set ..⟩

/-- One of three values, by the kind of the argument. -/
theorem choice_along {name : String} {slot : Slot} {kind : Kind} {body : Code}
    (h : Along Use.Fits result body σ fun _ g => ∃ t, g = .value t) :
    Along Use.Fits result (.letChain name (.isKind .string slot) (.line (.yield .none)) (.isKind kind slot) body
      (.line (.yield .none))) σ fun τ _ => ∃ t, τ = σ.set name (.value t) := by
  have hnone : Along Use.Fits result (.line (.yield .none)) σ fun _ g => ∃ t, σ.set name g = σ.set name (.value t) :=
    Along.yield (fun u τ hm => by cases hm) fun g hg => ⟨none, by rw [List.mem_singleton.1 hg]⟩
  apply Along.letChain hnone _ hnone
  exact h.weaken fun τ g ⟨t, ht⟩ => ⟨t, by rw [ht]⟩

theorem yield_value {P : Use → Store → Prop} {e : Expr} (hu : ∀ u τ, (u, τ) ∈ e.uses ρ → P u τ)
    (he : ∀ g ∈ e.held ρ, g = .value none) : Along P result (.line (.yield e)) ρ fun _ g => ∃ t, g = .value t :=
  Along.yield hu fun g hg => ⟨none, he g hg⟩

theorem optional_along (name : String) (s : Shape) (idx : Int) (n : NameScope) (σ : Store) :
    Along Use.Fits result (optional name s idx n).1 σ fun τ _ => ∃ t, τ = σ.set name (.value t) := by
  unfold optional
  generalize s.unbox = inner
  obtain ⟨s, boxes⟩ := inner
  dsimp only
  split
  · apply Along.letIf
    · apply Along.seq
      apply bind_value rfl rfl
      apply Along.yield
      · intro u τ hm
        split at hm <;> simp [Expr.uses, Expr.uses_boxes] at hm
      · intro g hg
        have hg : g = .value none := by simpa [Expr.held] using hg
        exact ⟨none, by rw [hg]⟩
    · exact Along.yield (fun u τ hm => by cases hm) fun g hg => ⟨none, by rw [List.mem_singleton.1 hg]⟩
  · apply choice_along
    apply Along.seq
    apply (collect_along [] [] (.inr (NameScope.isTemporary_fresh ..)) ..).weaken
    intro ρ _ _
    apply yield_value
    · intro u τ hm
      rw [Expr.uses, Expr.uses_boxes] at hm
      cases hm
    · simp [Expr.held]
  · exact choice_along (yield_value (fun u τ hm => Shape.scalar_fits hm) (by simp [Expr.held]))
  · exact choice_along (yield_value (fun u τ hm => Shape.scalar_fits hm) (by simp [Expr.held]))
  · split
    · next p _ =>
      apply choice_along
      apply Along.seq
      apply Along.bind
      · intro u τ hm
        cases hm
      · intro g hg
        rw [List.mem_singleton.1 hg]
        apply yield_value
        · intro u τ hm
          cases List.mem_append.1 hm with
          | inl hm => cases hm
          | inr hm => exact p.fits (.inr (by simp [Store.learn])) hm
        · simp [Expr.held]
    · exact choice_along (yield_value (fun u τ hm => by cases hm) (by simp [Expr.held]))

def pointers (name : String) : Shape → List (String × String)
  | .named s _ | .reference (.named s _) _ _ => [(pointerName name, s)]
  | .reference t _ _ | .boxed t _ => pointers name t
  | _ => []

theorem isTemporary_pointerName (name : String) : Name.IsTemporary (pointerName name) :=
  ⟨"ptr_" ++ name, by rw [pointerName, ← String.append_assoc]; rfl⟩

theorem isTemporary_sliceName (name : String) : Name.IsTemporary (sliceName name) :=
  ⟨name ++ "_vec", String.append_assoc ..⟩

def Follows (τ : Store) (p : String × String) : Prop := τ p.1 = some (.tested p.2) ∨ τ.IsValue p.1

theorem Follows.set_value {τ : Store} {p : String × String} (h : Follows τ p) (x : String) (t : Option Shape) :
    Follows (τ.set x (.value t)) p := by
  by_cases hx : p.1 = x
  · exact .inr ⟨t, by rw [hx, Store.set_self]⟩
  · simpa only [Follows, Store.IsValue, Store.set_of_ne _ _ hx] using h

/-- What the code of a parameter leaves. A parameter that is passed on under its own name is a value. -/
structure Bound (name : String) (s : Shape) (arg : Expr) (σ τ : Store) : Prop where
  settles : Store.Settles [name] (pointers name s) σ τ
  follows : ∀ p ∈ pointers name s, Follows τ p
  own : arg = .var name → τ.IsValue name

theorem guardedPointer_along (P : Use → Store → Prop) (ptr : String) (idx : Int) (struct : String) (σ : Store) :
    Along P result (guardedPointer ptr idx struct) σ fun τ _ => τ = σ.set ptr (.tested struct) := by
  apply Along.seq
  apply Along.bind
  · intro u τ hm
    cases hm
  · intro g hg
    rw [List.mem_singleton.1 hg]
    apply Along.when
    · apply Along.seq
      apply Along.idle rfl rfl
      exact Along.leave
    · exact Store.pass_set ..

abbrev Binds (result : Option Shape) (name : String) (idx : Int) (s : Shape) : Prop :=
  ∀ σ, Along Use.Fits result (ofList ((ofShape name idx s).gets.map fragment)) σ
    fun τ _ => Bound name s (ofShape name idx s).arg σ τ

theorem Bound.set_value {name : String} {s : Shape} {arg arg' : Expr} {τ : Store} (h : Bound name s arg σ τ)
    (t : Option Shape) : Bound name s arg' σ (τ.set name (.value t)) :=
  ⟨h.settles.set_value (.inl (List.mem_singleton_self name)) t, fun p hp => (h.follows p hp).set_value name t,
    fun _ => Store.isValue_set ..⟩

/-- A parameter that is read as a value. -/
theorem Bound.of_value {name : String} {s : Shape} {arg : Expr} {τ : Store}
    (h : Store.Settles [name] (pointers name s) σ τ) (hp : pointers name s = []) (hv : arg = .var name → τ.IsValue name) :
    Bound name s arg σ τ := by
  refine ⟨h, fun p hm => ?_, hv⟩
  rw [hp] at hm
  cases hm

theorem Bound.of_set {name : String} {s : Shape} {arg : Expr} (hp : pointers name s = []) (t : Option Shape) :
    Bound name s arg σ (σ.set name (.value t)) :=
  .of_value (Store.Settles.refl.set_value (.inl (List.mem_singleton_self name)) t) hp fun _ => Store.isValue_set ..

theorem Bound.of_tested {name struct : String} {s : Shape} {arg : Expr} (hp : pointers name s = [(pointerName name, struct)])
    (ha : arg ≠ .var name) : Bound name s arg σ (σ.set (pointerName name) (.tested struct)) := by
  refine ⟨.set_tested (isTemporary_pointerName name) ?_, fun p hm => ?_, fun he => absurd he ha⟩
  · rw [hp]
    exact List.mem_singleton_self _
  · rw [hp] at hm
    rw [List.mem_singleton.1 hm]
    exact .inl (Store.set_self ..)

theorem scalar_binds {name : String} {e : Expr} (s : Shape) (arg : Expr) (hu : ∀ ρ, e.uses ρ = [])
    (he : ∀ ρ, e.held ρ = [.value none]) (hp : pointers name s = []) (σ : Store) :
    Along Use.Fits result (ofList ([Code.line (.bind false name e)].map fragment)) σ fun τ _ => Bound name s arg σ τ :=
  Along.fragment (bind_value (hu σ) (he σ) (.of_set hp none))

/-- A reference to anything but a named type is read as what it refers to. -/
theorem reference_binds {name : String} {idx : Int} {t r : Shape} {m : Bool} (ih : Binds result name idx t)
    (hr : ofShape name idx r =
      ⟨(ofShape name idx t).checks, (ofShape name idx t).gets ++
        (if m && (ofShape name idx t).arg = .var name then [Code.line (.bind true name (.var name))] else []),
        .refer m (ofShape name idx t).arg⟩)
    (hp : pointers name r = pointers name t) : Binds result name idx r := by
  intro σ
  rw [hr, List.map_append]
  apply Along.ofList_append
  apply (ih σ).weaken
  intro ρ _ hρ
  have hρ' : Bound name r (.refer m (ofShape name idx t).arg) σ ρ :=
    ⟨hp ▸ hρ.settles, hp ▸ hρ.follows, fun he => by cases he⟩
  split
  · next hm =>
    have harg : (ofShape name idx t).arg = .var name := by simpa using (Bool.and_eq_true_iff.1 hm).2
    obtain ⟨u, hu⟩ := hρ.own harg
    apply Along.fragment
    apply bind_value (t := u) rfl
    · simp [Expr.held, hu]
    · exact hρ'.set_value u
  · exact Along.skip hρ'

theorem ofShape_binds (name : String) (idx : Int) : (s : Shape) → Binds result name idx s
  | .number _ | .boolean | .text _ | .unit | .result _ _ | .tuple _ _ | .mapping _ _ _ | .unknown _ =>
    scalar_binds _ _ (fun _ => rfl) (fun _ => rfl) rfl
  | .named s sp => by
    intro σ
    apply Along.fragment
    apply Along.seq
    apply (guardedPointer_along ..).weaken
    intro ρ _ hρ
    subst hρ
    apply Along.bind
    · intro u τ hm
      obtain ⟨rfl, rfl⟩ := Prod.mk.inj (List.mem_singleton.1 hm)
      exact .inr (Store.set_self ..)
    · intro g hg
      rw [List.mem_singleton.1 hg]
      have hptr : Bound name (.named s sp) .none σ _ := .of_tested rfl nofun
      exact hptr.set_value _
  | .vector t _ => by
    intro σ
    apply Along.fragment
    apply (collect_along [name] [] (.inl (List.mem_singleton_self name)) ..).weaken
    intro τ _ ⟨hs, hv⟩
    exact .of_value hs rfl fun _ => hv
  | .slice t m _ => by
    intro σ
    apply Along.fragment
    apply (collect_along [name] [] (.inr (isTemporary_sliceName name)) ..).weaken
    intro τ _ ⟨hs, _⟩
    exact .of_value hs rfl nofun
  | .option t _ => by
    intro σ
    apply Along.fragment
    apply (optional_along name t idx {} σ).weaken
    intro τ _ ⟨u, hu⟩
    rw [hu]
    exact .of_set rfl u
  | .boxed t _ => fun σ => (ofShape_binds name idx t σ).weaken fun τ _ h => ⟨h.settles, h.follows, nofun⟩
  | .reference t m _ => by
    have ih := ofShape_binds name idx t
    cases t with
    | named s _ =>
      intro σ
      apply Along.fragment
      apply (guardedPointer_along ..).weaken
      intro τ _ hτ
      rw [hτ]
      exact .of_tested rfl nofun
    | _ => exact reference_binds ih rfl rfl

/-- The argument that is passed on uses the pointers of its parameter and nothing else. -/
theorem ofShape_arg_uses (name : String) (idx : Int) (τ : Store) {u : Use} {ρ : Store} : (s : Shape) →
    (u, ρ) ∈ (ofShape name idx s).arg.uses τ → ρ = τ ∧ ∃ p ∈ pointers name s, u = .follow p.1 (some p.2)
  | .boxed t _ => ofShape_arg_uses name idx τ t
  | .reference t m _ => by
    have ih := ofShape_arg_uses name idx τ t (u := u) (ρ := ρ)
    cases t with
    | named s _ =>
      intro hm
      obtain ⟨rfl, rfl⟩ := Prod.mk.inj (List.mem_singleton.1 hm)
      exact ⟨rfl, _, List.mem_singleton_self _, rfl⟩
    | _ => exact ih
  | .text sp => by
    intro hm
    simp only [ofShape, textArg] at hm
    split at hm
    · cases hm
    · split at hm
      · cases hm
      · split at hm <;> cases hm
  | .number _ | .boolean | .unit | .result _ _ | .tuple _ _ | .mapping _ _ _ | .unknown _ | .named _ _ | .vector _ _
  | .slice _ _ _ | .option _ _ => fun hm => by cases hm

end Binding
end RingBridge
