import Mathlib.Data.List.Forall2
import RingBridge.Proofs.Module.Index
import RingBridge.Proofs.Wrapper.Spellings
/-!
Methods with other types. A module does not change if the types of methods are written differently, as long as they
have the same shapes for the struct that the methods belong to.
-/
namespace RingBridge

theorem map_eq_of_forall₂ {α β γ : Type} {R : α → β → Prop} {as : List α} {bs : List β} {f : α → γ} {g : β → γ}
    (h : List.Forall₂ R as bs) (hf : ∀ a b, R a b → f a = g b) : as.map f = bs.map g :=
  List.forall₂_eq_eq_eq ▸ List.rel_map (fun _ _ hab => hf _ _ hab) h

inductive Except.Agree {ε α β : Type} (R : α → β → Prop) : Except ε α → Except ε β → Prop
  | error (e : ε) : Agree R (.error e) (.error e)
  | ok {a : α} {b : β} (h : R a b) : Agree R (.ok a) (.ok b)

namespace Except.Agree
variable {ε α β γ δ : Type} {R : α → β → Prop} {Q : γ → δ → Prop} {x : Except ε α} {y : Except ε β}

theorem refl {R : α → α → Prop} (h : ∀ a, R a a) (x : Except ε α) : Agree R x x := by
  cases x with
  | error e => exact .error e
  | ok a => exact .ok (h a)

theorem eq {y : Except ε α} (h : Agree (· = ·) x y) : x = y := by
  cases h with
  | error e => rfl
  | ok h => exact congrArg Except.ok h

theorem bind {f : α → Except ε γ} {g : β → Except ε δ} (h : Agree R x y) (hf : ∀ a b, R a b → Agree Q (f a) (g b)) :
    Agree Q (x >>= f) (y >>= g) := by
  cases h with
  | error e => exact .error e
  | ok h => exact hf _ _ h

theorem map {f : α → γ} {g : β → δ} (h : Agree R x y) (hf : ∀ a b, R a b → Q (f a) (g b)) :
    Agree Q (x.map f) (y.map g) := by
  cases h with
  | error e => exact .error e
  | ok h => exact .ok (hf _ _ h)

theorem mapM {as : List γ} {bs : List δ} {f : γ → Except ε α} {g : δ → Except ε β} (h : List.Forall₂ Q as bs)
    (hf : ∀ a b, Q a b → Agree R (f a) (g b)) : Agree (List.Forall₂ R) (as.mapM f) (bs.mapM g) := by
  induction h with
  | nil => exact .ok .nil
  | cons hab _ ih =>
    rw [List.mapM_cons, List.mapM_cons]
    exact (hf _ _ hab).bind fun c d hcd => ih.bind fun cs ds hcs => .ok (.cons hcd hcs)

theorem mapM_option {o : Option γ} {p : Option δ} {f : γ → Except ε α} {g : δ → Except ε β} (h : Option.Rel Q o p)
    (hf : ∀ a b, Q a b → Agree R (f a) (g b)) : Agree (Option.Rel R) (o.mapM f) (p.mapM g) := by
  cases h with
  | none => exact .ok .none
  | some hab => exact (hf _ _ hab).map fun a b h => .some h

end Except.Agree

def Param.Retyped {ν : Type} (R : ν → ν → Prop) (p q : Param ν) : Prop := p.name = q.name ∧ R p.type q.type

structure Function.Retyped {ν : Type} (R : ν → ν → Prop) (f g : Function ν) : Prop where
  name : f.name = g.name
  params : List.Forall₂ (Param.Retyped R) f.params g.params
  result : Option.Rel R f.result g.result
  isPublic : f.isPublic = g.isPublic
  receiver : f.receiver = g.receiver
  comment : f.comment = g.comment

theorem Function.Retyped.imp {ν : Type} {R Q : ν → ν → Prop} {f g : Function ν} (h : f.Retyped R g)
    (hRQ : ∀ v w, R v w → Q v w) : f.Retyped Q g where
  name := h.name
  params := h.params.imp fun _ _ hp => ⟨hp.1, hRQ _ _ hp.2⟩
  result := by
    have hresult := h.result
    generalize f.result = a, g.result = b at hresult ⊢
    cases hresult with
    | none => exact .none
    | some hr => exact .some (hRQ _ _ hr)
  isPublic := h.isPublic
  receiver := h.receiver
  comment := h.comment

namespace Document
variable {R : Value → Value → Prop} {Q : String → String → Prop}

theorem paramNames_eq (ps : List (Param Value)) : paramNames ps = (ps.map Param.name).mapM paramText := by
  rw [paramNames, List.mapM_map]
  rfl

theorem retyped_params {names types types' : List String} (h : List.Forall₂ Q types types') :
    List.Forall₂ (Param.Retyped Q) (List.zipWith Param.mk names types) (List.zipWith Param.mk names types') := by
  induction h generalizing names with
  | nil => cases names <;> exact .nil
  | cons hab _ ih =>
    cases names with
    | nil => exact .nil
    | cons n ns => exact .cons ⟨rfl, hab⟩ ih

/-- Functions with other types are read as text with other types, or fail with the same error. -/
theorem agree_functionText (hR : ∀ v w, R v w → Except.Agree Q (typeText v) (typeText w)) {f g : Function Value}
    (h : f.Retyped R g) : Except.Agree (Function.Retyped Q) (functionText f) (functionText g) := by
  have hnames : paramNames f.params = paramNames g.params := by
    rw [paramNames_eq, paramNames_eq, map_eq_of_forall₂ h.params fun _ _ hp => hp.1]
  unfold functionText
  rw [← h.name, ← hnames, ← h.isPublic, ← h.receiver, ← h.comment]
  refine (Except.Agree.refl Eq.refl _).bind fun name _ hname => ?_
  refine (Except.Agree.mapM h.params fun _ _ hp => hR _ _ hp.2).bind fun types types' htypes => ?_
  refine (Except.Agree.mapM_option h.result hR).bind fun result result' hresult => ?_
  refine (Except.Agree.refl Eq.refl _).bind fun names _ hnames => ?_
  subst hname hnames
  exact .ok ⟨rfl, retyped_params htypes, hresult, rfl, rfl, rfl⟩

end Document

namespace Export
open Wrapper

def ownShape (struct type : String) : Shape := ((Shape.ofSpelling type).resolveSelf (some struct)).unspelled

theorem declared_method (struct : String) (f : Function String) :
    Converter.shapeOf f.result (methodResult struct f) = methodResult struct f := by
  rw [Converter.shapeOf, methodResult]
  cases f.result with
  | some t => rfl
  | none => rw [Option.map_none, Option.or_none]

/-- The wrapper of a method depends on its types only through their shapes. -/
theorem wrapper_retyped {c : Converter} (hc : c.IsBare) {struct : String} {f g : Function String}
    (h : f.Retyped (fun a b => ownShape struct a = ownShape struct b) g) :
    (method struct f).wrapper c = (method struct g).wrapper c := by
  have hnames : f.params.map (fun p => Param.mk p.name "") = g.params.map fun p => Param.mk p.name "" :=
    map_eq_of_forall₂ h.params fun _ _ hp => congrArg (Param.mk · "") hp.1
  have hshapes : f.params.map (fun p => ownShape struct p.type) = g.params.map fun p => ownShape struct p.type :=
    map_eq_of_forall₂ h.params fun _ _ hp => hp.2
  have hresult : (methodResult struct f).map Shape.unspelled = (methodResult struct g).map Shape.unspelled := by
    obtain ⟨hname, -, hresult, -, hreceiver, -⟩ := h
    unfold methodResult
    generalize f.result = a, g.result = b at hresult
    cases hresult with
    | none => simp only [hname, hreceiver]
    | some h => exact congrArg some h
  rw [wrapper, wrapper, wrapperAs, wrapperAs, ← Operation.wrapper_unspelled hc]
  refine (congrArg (Operation.wrapper c) ?_).trans (Operation.wrapper_unspelled hc _)
  simp only [Operation.unspelled, Operation.declared, declared_method, List.map_map, Operation.mk.injEq, name, h.name,
    h.receiver, h.comment]
  exact ⟨trivial, hnames, hshapes, trivial, trivial, hresult, trivial, trivial, trivial⟩

end Export

inductive Value.Alike (struct : String) : Value → Value → Prop
  | same (v : Value) : Alike struct v v
  | text {a b : String} (h : Export.ownShape struct a = Export.ownShape struct b) : Alike struct (.text a) (.text b)

theorem Value.Alike.agree_typeText {struct : String} {v w : Value} (h : v.Alike struct w) :
    Except.Agree (fun a b => Export.ownShape struct a = Export.ownShape struct b) (Document.typeText v)
      (Document.typeText w) := by
  cases h with
  | same v => exact .refl (fun a => Eq.refl (Export.ownShape struct a)) _
  | text h => exact .ok h

inductive Declaration.Retyped : Declaration Value → Declaration Value → Prop
  | same (decl : Declaration Value) : Retyped decl decl
  | impl {name : String} {fs gs : List (Function Value)}
    (h : List.Forall₂ (Function.Retyped (Value.Alike (Spelling.baseName name))) fs gs) :
    Retyped (.impl ⟨.text name, fs⟩) (.impl ⟨.text name, gs⟩)

/-- The declarations have methods with the same names. -/
theorem Document.methodNames_retyped {d : Document Value} {decls : List (Declaration Value)}
    (h : List.Forall₂ Declaration.Retyped d.decls decls) :
    Document.methodNames { d with decls } = d.methodNames := by
  have himpls : List.Forall₂
      (fun i j : Impl Value => i.methods.map (fun f => (i.name, f.name)) = j.methods.map fun f => (j.name, f.name))
      d.impls (Document.impls { d with decls }) := by
    refine List.rel_filterMap (fun decl decl' h => ?_) h
    cases h with
    | same =>
      cases decl with
      | impl i => exact .some rfl
      | struct t | func f => exact .none
    | impl h => exact .some (map_eq_of_forall₂ h fun _ _ h => congrArg (Prod.mk _) h.name)
  rw [methodNames, methodNames, List.flatMap_def, List.flatMap_def, map_eq_of_forall₂ himpls fun _ _ h => h]

namespace Plan
variable {c : Converter}

theorem agree_methods (hc : c.IsBare) (p : Plan) {struct : String} {name : Value} {fs gs : List (Function Value)}
    (h : List.Forall₂ (Function.Retyped (Value.Alike struct)) fs gs) :
    List.Forall₂ (Except.Agree fun e e' => e.wrapper c = e'.wrapper c) (p.methods struct ⟨name, fs⟩)
      (p.methods struct ⟨name, gs⟩) := by
  have hselects : ∀ ⦃f g : Function Value⦄, f.Retyped (Value.Alike struct) g →
      (p.selectsMethod struct f = true ↔ p.selectsMethod struct g = true) := by
    intro f g h
    rw [selectsMethod, selectsMethod, h.name, h.isPublic]
  refine List.rel_map (fun f g h => ?_) (List.rel_filter hselects h)
  exact (Document.agree_functionText (fun _ _ => Value.Alike.agree_typeText) h).map fun _ _ => Export.wrapper_retyped hc

/-- Declarations with types that are alike offer exports with the same wrappers. -/
theorem agree_exports (hc : c.IsBare) (p : Plan) {decl decl' : Declaration Value} (h : decl.Retyped decl') :
    List.Forall₂ (Except.Agree fun e e' => e.wrapper c = e'.wrapper c) (p.exports decl) (p.exports decl') := by
  cases h with
  | same => exact List.forall₂_same.2 fun _ _ => .refl (fun e => Eq.refl (e.wrapper c)) _
  | @impl name fs gs h =>
    show List.Forall₂ _ (if p.ignores (Spelling.baseName name) then [] else p.methods (Spelling.baseName name) _)
      (if p.ignores (Spelling.baseName name) then [] else p.methods (Spelling.baseName name) _)
    split
    · exact .nil
    · exact agree_methods hc p h

end Plan

/-- The module of a document with types that are alike is the same. -/
theorem Settings.generate_retyped {s : Settings} {d : Document Value} {given : Option String}
    (hbare : ∀ joined, d.joinedPrefix given = .ok joined → (s.moduleFor joined).handlers.entries = [])
    {decls : List (Declaration Value)} (h : List.Forall₂ Declaration.Retyped d.decls decls) :
    s.generate { d with decls } given = s.generate d given := by
  have hplan : ∀ joined, s.plan { d with decls } joined = s.plan d joined := by
    intro joined
    rw [plan, plan, MethodIndex.ofDocument_eq, MethodIndex.ofDocument_eq, Document.methodNames_retyped h]
  cases hjoined : d.joinedPrefix given with
  | error e =>
    have hjoined' : Document.joinedPrefix { d with decls } given = .error e := hjoined
    rw [generate, generate, hjoined, hjoined']
    rfl
  | ok joined =>
    have hjoined' : Document.joinedPrefix { d with decls } given = .ok joined := hjoined
    have hc := Converter.isBare_converter (hbare joined hjoined) joined
    have hexports : Except.Agree
        (List.Forall₂ fun e e' => e.wrapper (converter (s.moduleFor joined) joined) =
          e'.wrapper (converter (s.moduleFor joined) joined))
        (s.exports d joined) (s.exports { d with decls } joined) := by
      rw [exports, exports, hplan]
      refine (Except.Agree.refl Eq.refl _).bind fun p _ hp => ?_
      subst hp
      exact .mapM (List.rel_flatMap h fun _ _ => p.agree_exports hc) fun _ _ h => h
    rw [generate, generate, hjoined, hjoined']
    refine (hexports.bind fun es es' hes => .ok ?_).eq.symm
    exact congrArg (Module.mk d.moduleName joined) (map_eq_of_forall₂ hes fun _ _ h => h)

end RingBridge
