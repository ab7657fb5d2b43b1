import RingBridge.Proofs.Answer.Guarded
import RingBridge.Proofs.Code.Names
/-!
Answers hand out what they say: a value of some type is taken apart along that type, and each pointer that is given up
is a box of the struct that it is tagged with. No name may be bound twice, or a part could stand for another one.
-/
namespace RingBridge
open Code

/-- A box is handed out under the tag of what it holds, and a pointer is followed as the struct under whose tag it was
    read. -/
def Use.Agrees : Use → Store → Prop
  | hand b s, τ => ∃ sp sp', b.held τ = [.value (some (.boxed (.named s sp) sp'))]
  | follow ptr (some s), τ => ∀ h r, τ ptr = some h → h.source = some r → r = s
  | _, _ => True

structure Store.Types (σ : Store) (e : Expr) (t : Shape) : Prop where
  names : σ.Names e
  held : e.held σ = [.value (some t)]

theorem Expr.held_congr {e : Expr} (he : e.isPlain = true) {σ τ : Store} (h : ∀ x ∈ e.vars, τ x = σ x) :
    e.held τ = e.held σ := by
  induction e with
  | var x => rw [held, held, h x (List.mem_singleton_self x)]
  | clone e ih | deref e ih | toVec e ih | box e ih => rw [held, held, ih he h]
  | debug e ih => rfl
  | _ => cases he

namespace Store.Types
variable {σ τ : Store} {e : Expr} {t : Shape} {sp : String} {m : Bool}

theorem congr (h : σ.Types e t) (hv : ∀ x ∈ e.vars, τ x = σ x) : τ.Types e t where
  names := ⟨h.names.plain, fun x hx => by
    obtain ⟨u, hu⟩ := h.names.values x hx
    exact ⟨u, by rw [hv x hx, hu]⟩⟩
  held := by rw [Expr.held_congr h.names.plain hv, h.held]

theorem set (h : σ.Types e t) {x : String} (hx : x ∉ e.vars) (g : Held) : (σ.set x g).Types e t :=
  h.congr fun _ hy => Store.set_of_ne _ _ fun he => hx (he ▸ hy)

theorem var {x : String} (h : σ x = some (.value (some t))) : σ.Types (.var x) t where
  names := .var ⟨_, h⟩
  held := by rw [Expr.held, h]; rfl

theorem clone (h : σ.Types e (.reference t m sp)) : σ.Types (.clone e) t where
  names := ⟨h.names.plain, h.names.values⟩
  held := by rw [Expr.held, h.held]; rfl

theorem deref (h : σ.Types e (.boxed t sp)) : σ.Types (.deref e) t where
  names := ⟨h.names.plain, h.names.values⟩
  held := by rw [Expr.held, h.held]; rfl

theorem toVec (h : σ.Types e (.slice t m sp)) : ∃ sp', σ.Types (.toVec e) (.vector t sp') :=
  ⟨_, ⟨h.names.plain, h.names.values⟩, by rw [Expr.held, h.held]; rfl⟩

theorem agrees (h : σ.Types e t) {u : Use} (hm : (u, τ) ∈ e.uses σ) : u.Agrees τ := by
  obtain ⟨_, x, _, rfl⟩ := Expr.plain_uses h.names.plain hm
  trivial

/-- A box that is given up under the tag of its struct. -/
theorem agrees_boxed {s sp' : String} (h : σ.Types e (.boxed (.named s sp) sp')) {u : Use}
    (hm : (u, τ) ∈ (Outgoing.pointer e s).uses σ) : u.Agrees τ := by
  cases List.mem_append.1 hm with
  | inl hm => exact h.agrees hm
  | inr hm =>
    cases List.mem_singleton.1 hm
    exact ⟨sp, sp', h.held⟩

theorem box {s : String} (h : σ.Types e (.named s sp)) : ∃ sp', σ.Types (.box e) (.boxed (.named s sp) sp') :=
  ⟨_, ⟨h.names.plain, h.names.values⟩, by rw [Expr.held, h.held]; rfl⟩

end Store.Types

namespace Answer
variable {result : Option Shape}

abbrev Sound (result : Option Shape) (c : Code) (σ : Store) : Prop :=
  Along Use.Agrees result c σ fun _ _ => True

structure Fresh (e : Expr) (c : Code) : Prop where
  apart : ∀ x ∈ e.vars, x ∉ c.binders
  nodup : c.binders.Nodup

theorem Fresh.congr {e : Expr} {c d : Code} (h : Fresh e c) (hb : c.binders = d.binders) : Fresh e d :=
  ⟨hb ▸ h.apart, hb ▸ h.nodup⟩

theorem Fresh.of_cons {e : Expr} {c d : Code} {x : String} (h : Fresh e c) (hc : c.binders = x :: d.binders) :
    x ∉ e.vars ∧ Fresh (.var x) d ∧ Fresh e d := by
  have hnodup := h.nodup
  rw [hc] at hnodup
  obtain ⟨hx, hd⟩ := List.nodup_cons.1 hnodup
  have hapart : ∀ y ∈ e.vars, y ∉ x :: d.binders := fun y hy => hc ▸ h.apart y hy
  refine ⟨fun he => hapart x he (List.mem_cons_self ..), ⟨fun y hy => ?_, hd⟩,
    ⟨fun y hy hm => hapart y hy (List.mem_cons_of_mem x hm), hd⟩⟩
  rwa [List.mem_singleton.1 hy]

def Filler.Sound (result : Option Shape) (f : Filler) (t : Shape) : Prop :=
  ∀ v list n σ, Store.Types σ v t → Fresh v (f v list n).1 → Answer.Sound result (f v list n).1 σ

variable {f : Filler} {t : Shape}

theorem sound_append {σ : Store} (list : String) {o : Outgoing} (h : ∀ u τ, (u, τ) ∈ o.uses σ → u.Agrees τ) :
    Sound result (.line (.append list o)) σ :=
  Along.line (s := .append list o) h fun _ _ _ => trivial

theorem itemsOf_sound (hf : f.Sound result t) (sp : String) : Filler.Sound result (itemsOf f) (.vector t sp) := by
  intro v list n σ hv hfresh
  obtain ⟨_, hx, _⟩ := hfresh.of_cons rfl
  apply Along.each (fun u τ hm => hv.agrees hm) _ trivial
  intro g hg
  rw [hv.held] at hg
  rw [List.mem_singleton.1 hg]
  exact hf _ _ _ _ (.var (Store.set_self ..)) hx

theorem debugText_sound (t : Shape) : Filler.Sound result debugText t :=
  fun _ list _ _ hv _ => sound_append list fun _ _ hm => hv.agrees hm

theorem sublist_sound (hf : f.Sound result t) : Filler.Sound result (sublist f) t := by
  intro v list n σ hv hfresh
  obtain ⟨hx, _, hrest⟩ := hfresh.of_cons rfl
  apply Along.seq
  apply Along.bind (fun u τ hm => by cases hm)
  intro g _
  exact hf _ _ _ _ (hv.set hx g) hrest

/-- The key and the value of an entry, one after the other. -/
theorem entry_sound {k x pair list : String} {first second : Code} {r : Shape} {σ : Store}
    (hnodup : (k :: x :: pair :: (first.binders ++ second.binders)).Nodup)
    (hk : ∀ τ, Store.Types τ (.var k) r → Fresh (.var k) first → Sound result first τ)
    (hx : ∀ τ, Store.Types τ (.var x) t → Fresh (.var x) second → Sound result second τ) :
    Sound result (.seq (.line (.bind false pair (.subList list))) (.seq first second))
      ((σ.set k (.value (some r))).set x (.value (some t))) := by
  obtain ⟨hk₁, hrest⟩ := List.nodup_cons.1 hnodup
  obtain ⟨hx₁, hrest⟩ := List.nodup_cons.1 hrest
  obtain ⟨_, hrest⟩ := List.nodup_cons.1 hrest
  obtain ⟨hfirst, hsecond, _⟩ := List.nodup_append.1 hrest
  have hkx : k ≠ x := List.ne_of_not_mem_cons hk₁
  have hkpair : k ≠ pair := List.ne_of_not_mem_cons (List.not_mem_of_not_mem_cons hk₁)
  have hxpair : x ≠ pair := List.ne_of_not_mem_cons hx₁
  have hkcode : k ∉ first.binders := fun hm =>
    hk₁ (List.mem_cons_of_mem _ (List.mem_cons_of_mem _ (List.mem_append_left _ hm)))
  have hxcode : x ∉ first.binders ∧ x ∉ second.binders :=
    not_or.1 fun hm => hx₁ (List.mem_cons_of_mem _ (List.mem_append.2 hm))
  apply Along.seq
  apply Along.bind (fun u τ hm => by cases hm)
  intro h _
  apply Along.seq_of_falls
  · apply hk
    · apply Store.Types.var
      rw [Store.set_of_ne _ _ hkpair, Store.set_of_ne _ _ hkx, Store.set_self]
    · exact ⟨fun y hy => by rwa [List.mem_singleton.1 hy], hfirst⟩
  · intro ρ _ hf
    apply hx
    · apply Store.Types.var
      apply hf.keeps_value hxcode.1
      rw [Store.set_of_ne _ _ hxpair, Store.set_self]
    · refine ⟨fun y hy => ?_, hsecond⟩
      rw [List.mem_singleton.1 hy]
      exact hxcode.2

theorem entriesOf_sound {key value : Filler} {k : Shape} (hk : key.Sound result k) (ht : value.Sound result t)
    (sp : String) : Filler.Sound result (entriesOf key value) (.mapping k t sp) := by
  intro v list n σ hv hfresh
  apply Along.eachPair (fun u τ hm => hv.agrees hm) _ trivial
  intro g hg
  rw [hv.held] at hg
  rw [List.mem_singleton.1 hg]
  exact entry_sound hfresh.nodup (fun τ => hk _ _ _ τ) fun τ => ht _ _ _ τ

def NamesTyped (σ : Store) : List Shape → List String → Prop
  | t :: ts, x :: xs => σ x = some (.value (some t)) ∧ NamesTyped σ ts xs
  | _, _ => True

theorem namesTyped_setParts {xs : List String} (hx : xs.Nodup) (ts : List Shape) (σ : Store) :
    NamesTyped (σ.setParts xs ts) ts xs := by
  induction xs generalizing ts σ with
  | nil => cases ts <;> trivial
  | cons x xs ih =>
    obtain ⟨hx, hxs⟩ := List.nodup_cons.1 hx
    cases ts with
    | nil => trivial
    | cons t ts =>
      refine ⟨?_, ih hxs ts _⟩
      rw [Store.setParts, Store.setParts_of_notMem hx, Store.set_self]

theorem NamesTyped.keeps {σ τ : Store} {ts : List Shape} {xs : List String} (h : NamesTyped σ ts xs)
    (hk : ∀ x ∈ xs, ∀ t, σ x = some (.value t) → τ x = some (.value t)) : NamesTyped τ ts xs := by
  induction xs generalizing ts with
  | nil => cases ts <;> trivial
  | cons x xs ih =>
    cases ts with
    | nil => trivial
    | cons t ts => exact ⟨hk x (List.mem_cons_self ..) _ h.1, ih h.2 fun y hy => hk y (List.mem_cons_of_mem x hy)⟩

def PartsSound (result : Option Shape) (parts : List String → String → NameScope → Code × NameScope)
    (ts : List Shape) : Prop :=
  ∀ xs list n σ, NamesTyped σ ts xs → (∀ x ∈ xs, x ∉ (parts xs list n).1.binders) →
    (parts xs list n).1.binders.Nodup → Answer.Sound result (parts xs list n).1 σ

theorem partsOf_sound {count : Nat} {parts : List String → String → NameScope → Code × NameScope} {ts : List Shape}
    (hp : PartsSound result parts ts) (sp : String) : Filler.Sound result (partsOf count parts) (.tuple ts sp) := by
  intro v list n σ hv hfresh
  obtain ⟨hnames, hrest, hdisjoint⟩ := List.nodup_append.1 hfresh.nodup
  apply Along.seq
  apply Along.line (fun u τ hm => hv.agrees hm)
  intro τ g hm
  obtain ⟨h, hh, he⟩ := List.mem_map.1 hm
  rw [hv.held] at hh
  cases List.mem_singleton.1 hh
  cases he
  exact hp _ _ _ _ (namesTyped_setParts hnames ts σ) (fun x hx hm => hdisjoint x hx x hm rfl) hrest

theorem present_sound {v : Expr} {x : String} {c : Code} {m : Missing} {σ : Store} {sp : String}
    (hfresh : (x :: c.binders).Nodup)
    (hc : ∀ τ, Store.Types τ (.var x) t → Fresh (.var x) c → Sound result c τ) :
    (σ.Types v (.option t sp) → Sound result (.matchOption v x c m) σ) ∧
      (σ.Types v (.result t sp) → Sound result (.matchResult v x c m) σ) := by
  obtain ⟨hx, hd⟩ := List.nodup_cons.1 hfresh
  have hfr : Fresh (.var x) c := ⟨fun y hy => by rwa [List.mem_singleton.1 hy], hd⟩
  constructor
  · intro hv
    apply Along.matchOption (fun u τ hm => hv.agrees hm) _ trivial
    intro g hg
    rw [hv.held] at hg
    rw [List.mem_singleton.1 hg]
    exact hc _ (.var (Store.set_self ..)) hfr
  · intro hv
    apply Along.matchResult (fun u τ hm => hv.agrees hm) _ trivial
    intro g hg
    rw [hv.held] at hg
    rw [List.mem_singleton.1 hg]
    exact hc _ (.var (Store.set_self ..)) hfr

mutual

theorem append_sound : (s : Shape) → Filler.Sound result (append s) s
  | .number _ | .unknown _ | .boolean | .text _ => fun _ list _ _ hv _ => sound_append list fun _ _ hm => hv.agrees hm
  | .unit => fun _ _ _ _ _ _ => Along.idle rfl rfl trivial
  | .vector t sp => sublist_sound (itemsOf_sound (append_sound t) sp)
  | .slice t m sp => sublist_sound fun v list n σ hv hfresh => by
    obtain ⟨sp', hv⟩ := hv.toVec
    exact itemsOf_sound (append_sound t) sp' _ list n σ hv ⟨hfresh.apart, hfresh.nodup⟩
  | .tuple ts sp => sublist_sound (partsOf_sound (appendEach_sound ts) sp)
  | .mapping k v sp => by
    apply sublist_sound
    apply entriesOf_sound _ (append_sound v)
    split
    · exact append_sound k
    · exact debugText_sound k
  | .option t sp => fun _ _ _ _ hv hfresh => (present_sound hfresh.nodup fun τ => append_sound t _ _ _ τ).1 hv
  | .result t sp => fun _ _ _ _ hv hfresh => (present_sound hfresh.nodup fun τ => append_sound t _ _ _ τ).2 hv
  | .named s sp => fun _ list _ _ hv _ => by
    obtain ⟨sp', hv⟩ := hv.box
    exact sound_append list fun _ _ hm => hv.agrees_boxed hm
  | .boxed t _ => by
    have ih := append_sound t
    cases t with
    | named s sp => exact fun _ list _ _ hv _ => sound_append list fun _ _ hm => hv.agrees_boxed hm
    | _ => exact fun v list n σ hv hfresh => ih (.deref v) list n σ hv.deref ⟨hfresh.apart, hfresh.nodup⟩
  | .reference t _ _ => fun v list n σ hv hfresh =>
    append_sound t (.clone v) list n σ hv.clone ⟨hfresh.apart, hfresh.nodup⟩

theorem appendEach_sound : (ts : List Shape) → PartsSound result (appendEach ts) ts
  | [] => fun _ _ _ _ _ _ _ => Along.skip trivial
  | t :: ts => by
    intro xs list n σ hσ hxs hnodup
    cases xs with
    | nil => exact Along.skip trivial
    | cons x xs =>
      obtain ⟨hfirst, hrest, _⟩ := List.nodup_append.1 hnodup
      have hapart : ∀ y ∈ x :: xs, y ∉ (append t (.var x) list n).1.binders ∧
          y ∉ (appendEach ts xs list (append t (.var x) list n).2).1.binders :=
        fun y hy => not_or.1 fun h => hxs y hy (List.mem_append.2 h)
      apply Along.seq_of_falls
      · apply append_sound t _ _ _ _ (.var hσ.1)
        exact ⟨fun y hy => by
          rw [List.mem_singleton.1 hy]
          exact (hapart x (List.mem_cons_self ..)).1, hfirst⟩
      · intro ρ _ hf
        apply appendEach_sound ts xs list _ ρ _ (fun y hy => (hapart y (List.mem_cons_of_mem x hy)).2) hrest
        exact hσ.2.keeps fun y hy _ => hf.keeps_value (hapart y (List.mem_cons_of_mem x hy)).1

end

theorem sound_answer {σ : Store} {o : Outgoing} (h : ∀ u τ, (u, τ) ∈ o.uses σ → u.Agrees τ) :
    Sound result (.line (.answer o)) σ :=
  Along.line (s := .answer o) h fun _ _ _ => trivial

theorem listOf_sound (hf : f.Sound result t) {v : Expr} {n : NameScope} {σ : Store} (hv : σ.Types v t)
    (hfresh : Fresh v (listOf f v n).1) : Sound result (listOf f v n).1 σ := by
  obtain ⟨hx, _, hrest⟩ := hfresh.of_cons rfl
  apply Along.seq
  apply Along.bind (fun u τ hm => by cases hm)
  intro g _
  apply Along.seq_of_falls
  · apply hf _ _ _ _ (hv.set hx g)
    exact hrest.congr (List.append_nil _)
  · exact fun _ _ _ => Along.idle rfl rfl trivial

theorem ofShape_sound : (s : Shape) → ∀ v n σ, Store.Types σ v s → Fresh v (ofShape s v n).1 →
    Sound result (ofShape s v n).1 σ
  | .number _ | .unknown _ | .boolean | .text _ => fun _ _ _ hv _ => sound_answer fun _ _ hm => hv.agrees hm
  | .unit => fun _ _ _ _ _ => Along.skip trivial
  | .vector t sp => fun _ _ _ hv hfresh => listOf_sound (itemsOf_sound (append_sound t) sp) hv hfresh
  | .slice t m sp => fun v n σ hv hfresh => by
    obtain ⟨sp', hv⟩ := hv.toVec
    exact listOf_sound (itemsOf_sound (append_sound t) sp') hv ⟨hfresh.apart, hfresh.nodup⟩
  | .tuple ts sp => fun _ _ _ hv hfresh => listOf_sound (partsOf_sound (appendEach_sound ts) sp) hv hfresh
  | .mapping k x sp => by
    intro v n σ hv hfresh
    apply listOf_sound _ hv hfresh
    apply entriesOf_sound _ (append_sound x)
    split
    · exact append_sound k
    · exact debugText_sound k
  | .option t sp => fun _ _ _ hv hfresh => (present_sound hfresh.nodup fun τ => ofShape_sound t _ _ τ).1 hv
  | .result t sp => fun v n σ hv hfresh => by
    have ih := ofShape_sound t
    cases t with
    | unit => exact Along.matchDone (fun u τ hm => hv.agrees hm) trivial
    | _ => exact (present_sound hfresh.nodup fun τ => ih _ ((n.fresh "val").2.fresh "e").2 τ).2 hv
  | .named s sp => fun _ _ _ hv _ => by
    obtain ⟨sp', hv⟩ := hv.box
    exact sound_answer fun _ _ hm => hv.agrees_boxed hm
  | .boxed t _ => by
    have ih := ofShape_sound t
    cases t with
    | named s sp => exact fun _ _ _ hv _ => sound_answer fun _ _ hm => hv.agrees_boxed hm
    | _ => exact fun v n σ hv hfresh => ih (.deref v) n σ hv.deref ⟨hfresh.apart, hfresh.nodup⟩
  | .reference t _ _ => fun v n σ hv hfresh => ofShape_sound t (.clone v) n σ hv.clone ⟨hfresh.apart, hfresh.nodup⟩

/-- The answer to a call that returns what its shape says. -/
theorem ofCall_sound (shape : Option Shape) {call : Call} (n : NameScope) {σ : Store}
    (h : ∀ u τ, (u, τ) ∈ call.uses σ → u.Agrees τ) (hnodup : (ofCall shape call n).1.binders.Nodup) :
    Sound shape (ofCall shape call n).1 σ := by
  have hperform : Sound shape (.line (.perform call)) σ := Along.line (s := .perform call) h fun _ _ _ => trivial
  cases shape with
  | none => exact hperform
  | some s =>
    have hbind (hnodup : ((n.fresh "result").1 ::
        (ofShape s (.var (n.fresh "result").1) (n.fresh "result").2).1.binders).Nodup) :
        Sound (some s) (.seq (.line (.bindCall (n.fresh "result").1 call))
          (ofShape s (.var (n.fresh "result").1) (n.fresh "result").2).1) σ := by
      obtain ⟨hx, hrest⟩ := List.nodup_cons.1 hnodup
      apply Along.seq
      apply Along.line (s := .bindCall (n.fresh "result").1 call) h
      intro τ g hm
      cases List.mem_singleton.1 hm
      apply ofShape_sound s _ _ _ (.var (Store.set_self ..))
      exact ⟨fun y hy => by rwa [List.mem_singleton.1 hy], hrest⟩
    cases s with
    | unit => exact hperform
    | _ => exact hbind hnodup

end Answer
end RingBridge
