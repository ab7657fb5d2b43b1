import RingBridge.Answer
import RingBridge.Proofs.Binding.Limits
/-!
Answers do nothing with the arguments of the call, and hand out pointers only under the tags of the named types in
the shape of the result.
-/
namespace RingBridge.Answer
open Code

variable {L : Limits}

def Filler.Within (L : Limits) (f : Filler) : Prop :=
  ∀ v list n, v.Within L → L.Allows list → (f v list n).1.Within L

theorem itemsOf_within {f : Filler} (hf : f.Within L) : Filler.Within L (itemsOf f) := by
  intro v list n hv hlist
  have hx : L.Allows (n.fresh "item").1 := Limits.allows_fresh_word _ (by decide)
  exact ⟨hx, hv, hf _ _ _ hx hlist⟩

theorem debugText_within : Filler.Within L debugText := fun _ _ _ hv hlist => ⟨hlist, hv⟩

theorem entriesOf_within {key value : Filler} (hk : key.Within L) (hv : value.Within L) :
    Filler.Within L (entriesOf key value) := by
  intro v list n hsource hlist
  have hkey : L.Allows (n.fresh "k").1 := Limits.allows_fresh_word _ (by decide)
  have hvalue : L.Allows ((n.fresh "k").2.fresh "v").1 := Limits.allows_fresh_word _ (by decide)
  have hpair : L.Allows (((n.fresh "k").2.fresh "v").2.fresh "pair").1 := Limits.allows_fresh_word _ (by decide)
  exact ⟨hkey, hvalue, hsource, ⟨hpair, hlist⟩, hk _ _ _ hkey hpair, hv _ _ _ hvalue hpair⟩

theorem sublist_within {f : Filler} (hf : f.Within L) : Filler.Within L (sublist f) := by
  intro v list n hv hlist
  have hsub : L.Allows (n.fresh "sub").1 := Limits.allows_fresh_word _ (by decide)
  exact ⟨⟨hsub, hlist⟩, hf _ _ _ hv hsub⟩

def PartsWithin (L : Limits) (parts : List String → String → NameScope → Code × NameScope) : Prop :=
  ∀ xs list n, (∀ x ∈ xs, L.Allows x) → L.Allows list → (parts xs list n).1.Within L

theorem partsOf_within {count : Nat} {parts : List String → String → NameScope → Code × NameScope}
    (hp : PartsWithin L parts) : Filler.Within L (partsOf count parts) := by
  intro v list n hv hlist
  have hstems : ∀ x ∈ (List.range count).map fun i => s!"t{i}", L.Allows x := by
    intro x hx
    obtain ⟨i, _, rfl⟩ := List.mem_map.1 hx
    exact Limits.allows_append.2 ⟨Limits.allows_of_word (x := "t") (by decide), Limits.allows_toString i⟩
  have hnames := Limits.allows_freshEach hstems n
  exact ⟨⟨hnames, hv⟩, hp _ _ _ hnames hlist⟩

mutual

theorem append_within : (s : Shape) → s.Within L → Filler.Within L (append s)
  | .number _, _ | .unknown _, _ | .boolean, _ | .text _, _ => fun _ _ _ hv hlist => ⟨hlist, hv⟩
  | .unit, _ => fun _ _ _ _ hlist => hlist
  | .vector t _, hs => sublist_within (itemsOf_within (append_within t hs))
  | .slice t _ _, hs => sublist_within fun v => itemsOf_within (append_within t hs) (.toVec v)
  | .tuple ts _, hs => sublist_within (partsOf_within (appendEach_within ts hs))
  | .mapping k v _, hs => by
    have hs := List.forall_mem_append.1 hs
    apply sublist_within
    apply entriesOf_within _ (append_within v hs.2)
    split
    · exact append_within k hs.1
    · exact debugText_within
  | .option t _, hs | .result t _, hs => by
    intro v list n hv hlist
    have hx : L.Allows (n.fresh "val").1 := Limits.allows_fresh_word _ (by decide)
    exact ⟨hv, hx, append_within t hs _ _ _ hx hlist, hlist⟩
  | .named s _, hs => by
    obtain ⟨htag, -, hstruct⟩ := hs s (List.mem_singleton_self _)
    exact fun _ _ _ hv hlist => ⟨hlist, hv, htag, hstruct⟩
  | .boxed t _, hs => by
    have ih := append_within t hs
    cases t with
    | named s _ =>
      obtain ⟨htag, -, hstruct⟩ := hs s (List.mem_singleton_self _)
      exact fun _ _ _ hv hlist => ⟨hlist, hv, htag, hstruct⟩
    | _ => exact fun v => ih (.deref v)
  | .reference t _ _, hs => fun v => append_within t hs (.clone v)

theorem appendEach_within : (ts : List Shape) → (∀ x ∈ Shape.namesEach ts, L.tags x ∧ L.borrows x ∧ L.Allows x) →
    PartsWithin L (appendEach ts)
  | [], _ => fun _ _ _ _ _ => trivial
  | t :: ts, hs => by
    have hs := List.forall_mem_append.1 hs
    intro xs list n hxs hlist
    cases xs with
    | nil => trivial
    | cons x xs =>
      have hxs := List.forall_mem_cons.1 hxs
      exact ⟨append_within t hs.1 _ _ _ hxs.1 hlist, appendEach_within ts hs.2 _ _ _ hxs.2 hlist⟩

end

theorem listOf_within {f : Filler} (hf : f.Within L) {v : Expr} (n : NameScope) (hv : v.Within L) :
    (listOf f v n).1.Within L := by
  have hlist : L.Allows (n.fresh "list").1 := Limits.allows_fresh_word _ (by decide)
  exact ⟨⟨hlist, trivial⟩, hf _ _ _ hv hlist, hlist⟩

theorem ofShape_within : (s : Shape) → s.Within L → ∀ v n, v.Within L → (ofShape s v n).1.Within L
  | .number _, _ | .unknown _, _ | .boolean, _ | .text _, _ => fun _ _ hv => hv
  | .unit, _ => fun _ _ _ => trivial
  | .vector t _, hs => fun _ n hv => listOf_within (itemsOf_within (append_within t hs)) n hv
  | .slice t _ _, hs => fun v n hv => listOf_within (v := .toVec v) (itemsOf_within (append_within t hs)) n hv
  | .tuple ts _, hs => fun _ n hv => listOf_within (partsOf_within (appendEach_within ts hs)) n hv
  | .mapping k x _, hs => by
    have hs := List.forall_mem_append.1 hs
    intro v n hv
    apply listOf_within _ n hv
    apply entriesOf_within _ (append_within x hs.2)
    split
    · exact append_within k hs.1
    · exact debugText_within
  | .option t _, hs => by
    intro v n hv
    have hx : L.Allows (n.fresh "val").1 := Limits.allows_fresh_word _ (by decide)
    exact ⟨hv, hx, ofShape_within t hs _ _ hx, trivial⟩
  | .result t _, hs => by
    intro v n hv
    have hx : L.Allows (n.fresh "val").1 := Limits.allows_fresh_word _ (by decide)
    have he : L.Allows ((n.fresh "val").2.fresh "e").1 := Limits.allows_fresh_word _ (by decide)
    have ih := ofShape_within t hs (.var (n.fresh "val").1) ((n.fresh "val").2.fresh "e").2 hx
    cases t with
    | unit => exact ⟨hv, he⟩
    | _ => exact ⟨hv, hx, ih, he⟩
  | .named s _, hs => by
    obtain ⟨htag, -, hstruct⟩ := hs s (List.mem_singleton_self _)
    exact fun _ _ hv => ⟨hv, htag, hstruct⟩
  | .boxed t _, hs => by
    have ih := ofShape_within t hs
    cases t with
    | named s _ =>
      obtain ⟨htag, -, hstruct⟩ := hs s (List.mem_singleton_self _)
      exact fun _ _ hv => ⟨hv, htag, hstruct⟩
    | _ => exact fun v => ih (.deref v)
  | .reference t _ _, hs => fun v => ofShape_within t hs (.clone v)

/-- An answer stays within limits if the call does and the result may be tagged. -/
theorem ofCall_within {shape : Option Shape} (hs : ∀ s ∈ shape, s.Within L) {call : Call} (hcall : call.Within L)
    (n : NameScope) : (ofCall shape call n).1.Within L := by
  have hx : L.Allows (n.fresh "result").1 := Limits.allows_fresh_word _ (by decide)
  cases shape with
  | none => exact hcall
  | some s =>
    have hbind : (Code.seq (.line (.bindCall (n.fresh "result").1 call))
        (ofShape s (.var (n.fresh "result").1) (n.fresh "result").2).1).Within L :=
      ⟨⟨hx, hcall⟩, ofShape_within s (hs s rfl) _ _ hx⟩
    cases s with
    | unit => exact hcall
    | _ => exact hbind

end RingBridge.Answer
