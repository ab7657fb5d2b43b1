import RingBridge.Proofs.Code.Paths
/-!
Properties along all control paths of code, one rule for each construct. Code binds only the names that stand in it,
so a store agrees with the one before on all others.
-/
namespace RingBridge.Code

/-- Every use that is reached from `σ` satisfies `P`, and every end that is reached satisfies `Q`. -/
structure Along (P : Use → Store → Prop) (result : Option Shape) (c : Code) (σ : Store)
    (Q : Store → Held → Prop) : Prop where
  uses : ∀ {u τ}, Reaches result c σ u τ → P u τ
  falls : ∀ {τ h}, Falls result c σ τ h → Q τ h

namespace Along
variable {P P' : Use → Store → Prop} {result : Option Shape} {a b c : Code} {σ : Store} {Q Q' : Store → Held → Prop}

theorem mono (h : Along P result c σ Q) (hP : ∀ u τ, P u τ → P' u τ) (hQ : ∀ τ g, Q τ g → Q' τ g) :
    Along P' result c σ Q' :=
  ⟨fun hu => hP _ _ (h.uses hu), fun hf => hQ _ _ (h.falls hf)⟩

theorem weaken (h : Along P result c σ Q) (hQ : ∀ τ g, Q τ g → Q' τ g) : Along P result c σ Q' :=
  h.mono (fun _ _ hu => hu) hQ

theorem skip (h : Q σ .unit) : Along P result skip σ Q where
  uses hu := by cases hu
  falls hf := by
    cases hf
    exact h

theorem line {s : Stmt} (hu : ∀ u τ, (u, τ) ∈ s.uses σ → P u τ)
    (hf : ∀ τ g, (τ, g) ∈ s.outcomes result σ → Q τ g) : Along P result (line s) σ Q where
  uses h := by
    cases h with
    | line h => exact hu _ _ h
  falls h := by
    cases h with
    | line h => exact hf _ _ h

/-- A statement without uses that leaves the store as it is. -/
theorem idle {s : Stmt} (hu : s.uses σ = []) (ho : s.outcomes result σ = [(σ, .unit)]) (h : Q σ .unit) :
    Along P result (Code.line s) σ Q := by
  apply line
  · intro u τ hm
    rw [hu] at hm
    cases hm
  · intro τ g hm
    rw [ho] at hm
    obtain ⟨rfl, rfl⟩ := Prod.mk.inj (List.mem_singleton.1 hm)
    exact h

theorem leave : Along P result (Code.line .leave) σ Q :=
  line (fun _ _ h => by cases h) (fun _ _ h => by cases h)

theorem bind {m : Bool} {x : String} {e : Expr} (hu : ∀ u τ, (u, τ) ∈ e.uses σ → P u τ)
    (h : ∀ g ∈ e.held σ, Q (σ.set x g) .unit) : Along P result (Code.line (.bind m x e)) σ Q := by
  apply line (s := .bind m x e) hu
  intro τ g hm
  obtain ⟨k, hk, he⟩ := List.mem_map.1 hm
  obtain ⟨rfl, rfl⟩ := Prod.mk.inj he
  exact h k hk

theorem yield {e : Expr} (hu : ∀ u τ, (u, τ) ∈ e.uses σ → P u τ) (h : ∀ g ∈ e.held σ, Q σ g) :
    Along P result (Code.line (.yield e)) σ Q := by
  apply line (s := .yield e) hu
  intro τ g hm
  obtain ⟨k, hk, he⟩ := List.mem_map.1 hm
  obtain ⟨rfl, rfl⟩ := Prod.mk.inj he
  exact h k hk

theorem seq (h : Along P result a σ fun ρ _ => Along P result b ρ Q) : Along P result (seq a b) σ Q where
  uses hu := by
    cases hu with
    | first hu => exact h.uses hu
    | second hf hu => exact (h.falls hf).uses hu
  falls hf := by
    cases hf with
    | seq hf hg => exact (h.falls hf).falls hg

/-- What follows may use how the first part came to its end. -/
theorem seq_of_falls (ha : Along P result a σ fun _ _ => True)
    (hb : ∀ ρ g, Falls result a σ ρ g → Along P result b ρ Q) : Along P result (Code.seq a b) σ Q :=
  seq ⟨ha.uses, fun hf => hb _ _ hf⟩

theorem fragment (h : Along P result c σ Q) : Along P result (fragment c) σ Q where
  uses hu := by
    cases hu with
    | fragment hu => exact h.uses hu
  falls hf := by
    cases hf with
    | fragment hf => exact h.falls hf

theorem when {t : Test} (hc : Along P result c (σ.learn t true) fun _ _ => Q (σ.learn t true) .unit)
    (h : Q (σ.learn t false) .unit) : Along P result (when t c) σ Q where
  uses hu := by
    cases hu with
    | when hu => exact hc.uses hu
  falls hf := by
    cases hf with
    | whenYes hf => exact hc.falls hf
    | whenNo => exact h

theorem letIf {x : String} {t : Test} (ha : Along P result a (σ.learn t true) fun _ g => Q (σ.set x g) .unit)
    (hb : Along P result b (σ.learn t false) fun _ g => Q (σ.set x g) .unit) :
    Along P result (letIf x t a b) σ Q where
  uses hu := by
    cases hu with
    | letYes hu => exact ha.uses hu
    | letNo hu => exact hb.uses hu
  falls hf := by
    cases hf with
    | letYes hf => exact ha.falls hf
    | letNo hf => exact hb.falls hf

theorem letChain {x : String} {t₁ t₂ : Test} {a₁ a₂ : Code}
    (h₁ : Along P result a₁ (σ.learn t₁ true) fun _ g => Q (σ.set x g) .unit)
    (h₂ : Along P result a₂ ((σ.learn t₁ false).learn t₂ true) fun _ g => Q (σ.set x g) .unit)
    (h₃ : Along P result b ((σ.learn t₁ false).learn t₂ false) fun _ g => Q (σ.set x g) .unit) :
    Along P result (letChain x t₁ a₁ t₂ a₂ b) σ Q where
  uses hu := by
    cases hu with
    | chainFirst hu => exact h₁.uses hu
    | chainSecond hu => exact h₂.uses hu
    | chainLast hu => exact h₃.uses hu
  falls hf := by
    cases hf with
    | chainFirst hf => exact h₁.falls hf
    | chainSecond hf => exact h₂.falls hf
    | chainLast hf => exact h₃.falls hf

theorem items {i l : String} (hc : Along P result c (σ.set i (.value none)) fun _ _ => True) (h : Q σ .unit) :
    Along P result (items i l c) σ Q where
  uses hu := by
    cases hu with
    | items hu => exact hc.uses hu
  falls hf := by
    cases hf
    exact h

theorem each {x : String} {e : Expr} (hu : ∀ u τ, (u, τ) ∈ e.uses σ → P u τ)
    (hc : ∀ g ∈ e.held σ, Along P result c (σ.set x g.item) fun _ _ => True) (h : Q σ .unit) :
    Along P result (each x e c) σ Q where
  uses hr := by
    cases hr with
    | eachHead hm => exact hu _ _ hm
    | each hg hr => exact (hc _ hg).uses hr
  falls hf := by
    cases hf
    exact h

theorem eachPair {k v : String} {e : Expr} (hu : ∀ u τ, (u, τ) ∈ e.uses σ → P u τ)
    (hc : ∀ g ∈ e.held σ, Along P result c ((σ.set k g.key).set v g.entry) fun _ _ => True) (h : Q σ .unit) :
    Along P result (eachPair k v e c) σ Q where
  uses hr := by
    cases hr with
    | eachPairHead hm => exact hu _ _ hm
    | eachPair hg hr => exact (hc _ hg).uses hr
  falls hf := by
    cases hf
    exact h

theorem matchOption {x : String} {e : Expr} {m : Missing} (hu : ∀ u τ, (u, τ) ∈ e.uses σ → P u τ)
    (hc : ∀ g ∈ e.held σ, Along P result c (σ.set x g.present) fun _ _ => True) (h : Q σ .unit) :
    Along P result (matchOption e x c m) σ Q where
  uses hr := by
    cases hr with
    | matchOptionHead hm => exact hu _ _ hm
    | matchOption hg hr => exact (hc _ hg).uses hr
  falls hf := by
    cases hf
    exact h

theorem matchResult {x : String} {e : Expr} {m : Missing} (hu : ∀ u τ, (u, τ) ∈ e.uses σ → P u τ)
    (hc : ∀ g ∈ e.held σ, Along P result c (σ.set x g.present) fun _ _ => True) (h : Q σ .unit) :
    Along P result (matchResult e x c m) σ Q where
  uses hr := by
    cases hr with
    | matchResultHead hm => exact hu _ _ hm
    | matchResult hg hr => exact (hc _ hg).uses hr
  falls hf := by
    cases hf
    exact h

theorem matchDone {e : Expr} {m : Missing} (hu : ∀ u τ, (u, τ) ∈ e.uses σ → P u τ) (h : Q σ .unit) :
    Along P result (matchDone e m) σ Q where
  uses hr := by
    cases hr with
    | matchDone hm => exact hu _ _ hm
  falls hf := by
    cases hf
    exact h

theorem receive {x s : String} (hu : P (.receive s) σ) (h : Q (σ.set x (.tested s)) .unit) :
    Along P result (receive x s) σ Q where
  uses hr := by
    cases hr
    exact hu
  falls hf := by
    cases hf
    exact h

variable {R : Store → Prop}

theorem ofList_cons {cs : List Code} (h : Along P result c σ fun ρ _ => Along P result (ofList cs) ρ fun τ _ => R τ) :
    Along P result (ofList (c :: cs)) σ fun τ _ => R τ := by
  cases cs with
  | nil => exact h.weaken fun _ _ hs => hs.falls .skip
  | cons d ds => exact seq h

theorem ofList_append {cs ds : List Code}
    (h : Along P result (ofList cs) σ fun ρ _ => Along P result (ofList ds) ρ fun τ _ => R τ) :
    Along P result (ofList (cs ++ ds)) σ fun τ _ => R τ := by
  induction cs generalizing σ with
  | nil => exact h.falls .skip
  | cons c cs ih =>
    apply ofList_cons
    cases cs with
    | nil => exact h
    | cons d es =>
      have hc : Along P result c σ fun ρ _ => Along P result (ofList (d :: es)) ρ
          fun ρ _ => Along P result (ofList ds) ρ fun τ _ => R τ :=
        ⟨fun hu => h.uses (.first hu), fun hf => ⟨fun hu => h.uses (.second hf hu), fun hg => h.falls (.seq hf hg)⟩⟩
      exact hc.weaken fun ρ _ hρ => ih hρ

/-- Statements without uses that leave the store as it is. -/
theorem lines {ss : List Stmt} (hu : ∀ s ∈ ss, s.uses σ = [])
    (ho : ∀ s ∈ ss, s.outcomes result σ = [(σ, .unit)]) (h : R σ) :
    Along P result (Code.lines ss) σ fun τ _ => R τ := by
  induction ss with
  | nil => exact skip h
  | cons s ss ih =>
    apply ofList_cons
    apply idle (hu s (List.mem_cons_self ..)) (ho s (List.mem_cons_self ..))
    exact ih (fun r hr => hu r (List.mem_cons_of_mem s hr)) fun r hr => ho r (List.mem_cons_of_mem s hr)

end Along
end RingBridge.Code
