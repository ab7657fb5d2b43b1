import RingBridge.Proofs.Answer.Guarded
import RingBridge.Proofs.Spelling.Head
import RingBridge.Proofs.Wrapper.Calls
/-!
In a module without handlers, every pointer is tested before it is followed and the receiver is received before it is
used, along every path of every wrapper.
-/
namespace RingBridge
open Code Wrapper

theorem Use.Fits.guarded {u : Use} {τ : Store} (h : u.Fits τ) : u.Guarded τ := by
  cases u with
  | follow ptr s =>
    cases s with
    | none => cases h
    | some s =>
      cases h with
      | inl h => exact .inl ⟨_, h⟩
      | inr h => exact .inl ⟨_, h⟩
  | _ => cases h

/-- Once tested, a pointer stays tested or gives way to a value. -/
theorem Binding.Parameter.spares_guarded (p : Binding.Parameter) (q : String × String) :
    p.Spares (fun τ q => Use.Guarded (.follow q.1 q.2) τ) q := by
  intro σ τ hs hq
  obtain hk | hv | ⟨s, _, ht⟩ := hs.settled q.1
  · simpa only [Use.Guarded, Store.IsValue, hk] using hq
  · exact .inr hv
  · exact .inl ⟨s, ht⟩

variable {result : Option Shape} {c : Converter}

namespace Wrapper.Operation

theorem guarded (hc : c.IsBare) {o : Operation} (ho : o.IsRegular)
    (hmember : ∀ args, (o.call args).isMember = true → o.receiver ≠ none) :
    Along Use.Guarded result (wrapper c o).body Store.empty fun _ _ => True := by
  have hspares : o.parameters.Pairwise fun p p' => ∀ q ∈ p.pointers,
      p'.Spares (fun τ q => Use.Guarded (.follow q.1 q.2) τ) q :=
    List.pairwise_iff_getElem.2 fun _ j _ _ _ q _ => o.parameters[j].spares_guarded q
  apply along hc o (fun _ _ h => h.guarded) (fun _ _ => trivial) (fun _ _ h => h.imp_left fun h => ⟨_, h⟩) hspares
  intro τ hptrs hobj
  apply Answer.ofCall_guarded
  intro u ρ hm
  obtain ⟨rfl, ⟨q, hq, rfl⟩ | ⟨hobject, rfl⟩⟩ := uses_call ho hm
  · exact hptrs q hq
  · cases h : o.receiver with
    | none => exact absurd h (hmember _ hobject)
    | some s =>
      rw [h] at hobj
      exact ⟨s, hobj.trans (Store.set_self ..)⟩

end Wrapper.Operation

/-- Every wrapper is guarded, unless it is for a receiver of a struct without a name. -/
theorem Export.guarded (hc : c.IsBare) (name : String) (e : Export) (hne : e.owner? ≠ some "") :
    Along Use.Guarded result (e.wrapperAs c name).body Store.empty fun _ _ => True := by
  apply along_of_calls
  · exact fun struct _ h => .inl ⟨struct, h⟩
  · exact fun _ _ => trivial
  · exact fun o ho => Operation.guarded hc ho.regular (ho.member hne)

namespace Settings
variable {s : Settings} {d : Document Value} {given : Option String} {m : Module}

/-- Along every path of every wrapper of a module without handlers, whatever its calls return, pointers are tested
    before they are followed, and the receiver is used where there is one. Names of structs and impls must be more
    than a path and generic arguments. -/
theorem generate_guarded (h : s.generate d given = .ok m)
    (hbare : (s.moduleFor m.modulePrefix).handlers.entries = [])
    (hnames : ∀ decl ∈ d.decls, ∀ n, decl.owner? = some (.text n) → Spelling.baseName n ≠ "") :
    ∀ w ∈ m.wrappers, ∀ result u τ, w.body.Reaches result Store.empty u τ → u.Guarded τ := by
  intro w hw result u τ hu
  obtain ⟨es, hes, hwrappers⟩ := exports_of_generate h
  rw [hwrappers] at hw
  obtain ⟨e, he, rfl⟩ := List.mem_map.1 hw
  have hne : e.owner? ≠ some "" := by
    intro hown
    obtain ⟨decl, hd, hfrom⟩ := comesFrom_of_exports hes he
    obtain ⟨n, hn, hempty⟩ := hfrom.owner "" hown
    exact hnames decl hd n hn hempty.symm
  exact (Export.guarded (Converter.isBare_converter hbare _) _ e hne).uses hu

def pointDocument : Document Value where
  decls := [.struct { name := .text "Point", fields := [⟨.text "x", .text "f64", .boolean true⟩] },
    .func { name := .text "norm", params := [⟨.text "a", .text "&Point"⟩], result := some (.text "f64") }]

theorem baseName_point : Spelling.baseName "Point" = "Point" :=
  (Spelling.baseName_plain (by decide)).trans (by decide)

/-- Here the destructor follows the pointer that it frees. -/
theorem generate_guarded_points : ∃ m, generate {} pointDocument none = .ok m ∧
    (∃ w ∈ m.wrappers, ∃ τ, w.body.Reaches none Store.empty (.follow "ptr" (some "Point")) τ) ∧
    ∀ w ∈ m.wrappers, ∀ result u τ, w.body.Reaches result Store.empty u τ → u.Guarded τ := by
  obtain ⟨ws, hm⟩ : ∃ ws, generate {} pointDocument none =
      .ok ⟨.text "", "", (Export.destructor (Spelling.baseName "Point")).wrapper {} :: ws⟩ := ⟨_, rfl⟩
  refine ⟨_, hm, ⟨_, List.mem_cons_self .., ?_⟩, generate_guarded hm rfl ?_⟩
  · rw [baseName_point]
    obtain ⟨τ, _, h⟩ := Export.reaches_free {} "Point"
    exact ⟨τ, h⟩
  · intro decl hd n hn
    have hpoint : n = "Point" := by
      cases List.mem_cons.1 hd with
      | inl hd => rw [hd] at hn; cases hn; rfl
      | inr hd => rw [List.mem_singleton.1 hd] at hn; cases hn
    rw [hpoint, baseName_point]
    decide

end Settings
end RingBridge
