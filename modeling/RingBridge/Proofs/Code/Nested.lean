import RingBridge.Proofs.Code.Rows
import RingBridge.Proofs.Layout.Nested
/-!
The rows of code are nested. Known code with names that have no braces closes every brace that it opens, in one
statement or over the rows of one construct, and where no line starts with a blank, each row goes in by its braces.
-/
namespace RingBridge
open Layout Text

namespace Text

theorem Fronted.between {a s b : String} (h : Fronted a) : Fronted (a ++ s ++ b) := (h.append s).append b

theorem Fronted.around {a s b t c : String} (h : Fronted a) : Fronted (a ++ s ++ b ++ t ++ c) :=
  ((h.between).append t).append c

end Text

namespace Limits

/-- All code is known, and no name has a brace in it. -/
structure IsUnbraced (L : Limits) : Prop where
  known : ¬ L.accesses .unknown
  chars : ∀ c, L.chars c → c ≠ '\x7b' ∧ c ≠ '\x7d'

variable {L : Limits}

theorem IsUnbraced.name (h : L.IsUnbraced) {x : String} (hx : L.Allows x) : IsBraceless x :=
  ⟨fun hm => (h.chars _ (hx _ hm)).1 rfl, fun hm => (h.chars _ (hx _ hm)).2 rfl⟩

theorem IsUnbraced.isLevel (h : L.IsUnbraced) {x : String} (hx : L.Allows x) : IsLevel x := (h.name hx).isLevel

end Limits

theorem Spelling.isBraceless_baseName {x : String} (h : IsBraceless x) : IsBraceless (Spelling.baseName x) := by
  refine h.of_mem fun d _ hm => ?_
  rw [Spelling.baseName, onText, String.toList_ofList] at hm
  exact (Spelling.stripPath_suffix _).subset ((List.takeWhile_prefix _).subset hm)

theorem Name.isBraceless_tag {s : String} (h : IsBraceless s) : IsBraceless (Name.tag s) :=
  (Spelling.isBraceless_baseName h).upper.append (by decide)

variable {L : Limits} (hL : L.IsUnbraced)

theorem Cast.isLevel_code (c : Cast) : IsLevel c.code := by
  cases c with
  | number w => cases w <;> decide
  | truth | inferred => decide

theorem Kind.isLevel_check (k : Kind) : IsLevel k.check ∧ IsLevel k.argumentTest ∧ IsLevel k.itemTest := by
  cases k <;> decide

theorem isLevel_toString (n : Int) : IsLevel (toString n) := (isBraceless_toString n).isLevel

include hL

theorem Name.isLevel_tag {s : String} (h : L.Allows s) : IsLevel (Name.tag s) :=
  (Name.isBraceless_tag (hL.name h)).isLevel

theorem Index.isLevel_code {i : Index} (h : i.Within L) : IsLevel i.code := by
  cases i with
  | var x => exact hL.isLevel h
  | first => decide

theorem Test.isLevel_code {t : Test} (h : t.Within L) : IsLevel t.code := by
  cases t with
  | isKind k s =>
    cases s with
    | argument i => exact (k.isLevel_check.2.1.append (by decide)).between (isLevel_toString i) (by decide)
    | item l i =>
      have hhead := k.isLevel_check.2.2.between (s := "(") (by decide) (hL.isLevel h.1)
      exact (hhead.append (by decide)).between (i.isLevel_code hL h.2) (by decide)
  | isNull x | isEmpty x => exact (hL.isLevel h).append (by decide)
  | notNull x => exact IsLevel.between (by decide) (hL.isLevel h) (by decide)

theorem Expr.isLevel_code {e : Expr} (h : e.Within L) : IsLevel e.code := by
  induction e with
  | var x => exact hL.isLevel h
  | verbatim c ss => exact absurd h.1 hL.known
  | number s c =>
    have hc := c.isLevel_code
    cases s with
    | argument i => exact (IsLevel.between (by decide) (isLevel_toString i) (by decide)).append hc
    | item l i =>
      exact (IsLevel.around (by decide) (hL.isLevel h.1) (by decide) (i.isLevel_code hL h.2) (by decide)).append hc
  | text s | list s =>
    cases s with
    | argument i => exact IsLevel.between (by decide) (isLevel_toString i) (by decide)
    | item l i => exact IsLevel.around (by decide) (hL.isLevel h.1) (by decide) (i.isLevel_code hL h.2) (by decide)
  | handle i s =>
    exact IsLevel.around (by decide) (isLevel_toString i) (by decide) (Name.isLevel_tag hL h.2.2) (by decide)
  | itemPointer l i => exact IsLevel.around (by decide) (hL.isLevel h.1) (by decide) (i.isLevel_code hL h.2) (by decide)
  | nullPointer | none | newVec | newList => decide
  | some e ih | box e ih | deref e ih => exact IsLevel.between (by decide) (ih h) (by decide)
  | debug e ih => exact IsLevel.between (a := "format!(\"\x7b:?\x7d\", ") (by decide) (ih h) (by decide)
  | owned e ih | full e ih | clone e ih | toVec e ih => exact (ih h).append (by decide)
  | refer m e ih => cases m <;> exact IsLevel.append (by decide) (ih h)
  | cond t a b iha ihb =>
    have htest : Turns 0 1 ("if " ++ t.code ++ " \x7b ") :=
      Turns.between (j := 0) (by decide) (t.isLevel_code hL h.1) (by decide)
    have hyes : Turns 0 1 ("if " ++ t.code ++ " \x7b " ++ a.code ++ " \x7d else \x7b ") :=
      htest.between (iha h.2.1) (by decide)
    exact hyes.between (ihb h.2.2) (by decide)
  | views x | defaultOf x => exact (hL.isLevel h).append (by decide)
  | borrow x s m =>
    cases m <;>
      exact Turns.around (j := 1) (k := 1) (by decide) (hL.isLevel h.2.1) (by decide) (hL.isLevel h.2.2) (by decide)
  | duplicate x s =>
    exact Turns.around (j := 1) (k := 1) (by decide) (hL.isLevel h.2.1) (by decide) (hL.isLevel h.2.2) (by decide)
  | subList l => exact IsLevel.between (by decide) (hL.isLevel h) (by decide)

theorem Call.isLevel_code {c : Call} (h : c.Within L) : IsLevel c.code := by
  have hargs : ∀ {args : List Expr}, (∀ e ∈ args, e.Within L) → IsLevel (argsCode args) := by
    intro args h
    apply IsLevel.intercalate (by decide)
    intro l hl
    obtain ⟨e, he, rfl⟩ := List.mem_map.1 hl
    exact e.isLevel_code hL (h e he)
  cases c with
  | verbatim c => exact absurd h.1 hL.known
  | function x args => exact ((hL.isLevel h.1).append (by decide)).between (hargs h.2) (by decide)
  | associated s x args =>
    have hname := (hL.isLevel h.1).between (s := "::") (by decide) (hL.isLevel h.2.1)
    exact (hname.append (by decide)).between (hargs h.2.2) (by decide)
  | method v x args =>
    have hreceiver : IsLevel (receiverCode v) := by cases v <;> decide
    have hname := hreceiver.between (s := ".") (by decide) (hL.isLevel h.1)
    exact (hname.append (by decide)).between (hargs h.2) (by decide)
  | getField x => exact IsLevel.between (by decide) (hL.isLevel h) (by decide)
  | setField x e =>
    exact (IsLevel.between (by decide) (hL.isLevel h.1) (by decide)).append (e.isLevel_code hL h.2)

theorem Outgoing.isLevel_answerCode {o : Outgoing} (h : o.Within L) : IsLevel o.answerCode := by
  cases o with
  | number e | text e => exact IsLevel.between (by decide) (e.isLevel_code hL h) (by decide)
  | truth e => exact IsLevel.between (by decide) (e.isLevel_code hL h) (b := " \x7b 1.0 \x7d else \x7b 0.0 \x7d);") (by decide)
  | pointer e s =>
    exact IsLevel.around (by decide) (e.isLevel_code hL h.1) (by decide) (Name.isLevel_tag hL h.2.2) (by decide)

theorem Outgoing.isLevel_appendCode {o : Outgoing} (h : o.Within L) {l : String} (hl : IsLevel l) :
    IsLevel (o.appendCode l) := by
  cases o with
  | number e | truth e | text e => exact IsLevel.around (by decide) hl (by decide) (e.isLevel_code hL h) (by decide)
  | pointer e s =>
    have hbox := IsLevel.around (a := "ring_list_addcpointer(") (b := ", Box::into_raw(") (by decide) hl (by decide)
      (e.isLevel_code hL h.1) (c := ") as *mut std::ffi::c_void, ") (by decide)
    exact hbox.between (Name.isLevel_tag hL h.2.2) (by decide)

theorem Stmt.isLevel_code {s : Stmt} (h : s.Within L) : IsLevel s.code := by
  have hlet : ∀ m, IsLevel (letCode m) := by decide
  cases s with
  | verbatim c ss => exact absurd h.1 hL.known
  | checkCount n => exact IsLevel.between (by decide) (isBraceless_natToString n).isLevel (by decide)
  | check k i => exact (k.isLevel_check.1.append (by decide)).between (isLevel_toString i) (by decide)
  | bind m x e =>
    have hname := (hlet m).between (s := " ") (by decide) (hL.isLevel h.1)
    exact (hname.append (by decide)).between (e.isLevel_code hL h.2) (by decide)
  | bindViews m x v =>
    have hname := (hlet m).between (s := " ") (by decide) (hL.isLevel h.1)
    exact (hname.append (by decide)).between (Expr.isLevel_code hL (e := .views v) h.2) (by decide)
  | bindTuple xs e =>
    have hnames : ∀ x ∈ xs, IsLevel x := fun x hx => hL.isLevel (h.1 x hx)
    have hpattern : IsLevel (tuplePattern xs) := by
      unfold tuplePattern
      split
      · next x => exact IsLevel.between (by decide) (hnames x (List.mem_singleton_self x)) (by decide)
      · exact IsLevel.between (by decide) (IsLevel.intercalate (by decide) hnames) (by decide)
    exact IsLevel.around (by decide) hpattern (by decide) (e.isLevel_code hL h.2) (by decide)
  | bindCall x c => exact IsLevel.around (by decide) (hL.isLevel h.1) (by decide) (c.isLevel_code hL h.2) (by decide)
  | perform c => exact (Call.isLevel_code hL h).append (by decide)
  | push v e => exact ((hL.isLevel h.1).append (by decide)).between (e.isLevel_code hL h.2) (by decide)
  | yield e => exact Expr.isLevel_code hL h
  | invalidPointer s =>
    have hmessage : IsBraceless s!"Invalid {s} pointer" :=
      (IsBraceless.append (s := "Invalid ") (by decide) (hL.name h)).append (by decide)
    exact IsLevel.between (by decide) hmessage.quoteLiteral.isLevel (by decide)
  | leave | clearHandle => decide
  | free x s =>
    exact Turns.around (j := 1) (k := 1) (by decide) (hL.isLevel h.2.1) (by decide) (hL.isLevel h.2.2) (by decide)
  | answer v => exact Outgoing.isLevel_answerCode hL h
  | append l v => exact v.isLevel_appendCode hL h.2 (hL.isLevel h.1)
  | answerList l | appendHole l => exact IsLevel.between (by decide) (hL.isLevel h) (by decide)

theorem Missing.isLevel_code {m : Missing} (h : m.Within L) {pattern : String} (hp : IsLevel pattern) :
    IsLevel (m.code pattern) := by
  cases m with
  | nothing => exact hp.append (by decide)
  | hole l => exact (hp.append (by decide)).between (hL.isLevel h) (by decide)
  | raise e => exact (hp.append (by decide)).between (hL.isLevel h) (by decide)

theorem Missing.isLevel_errorPattern {m : Missing} (h : m.Within L) : IsLevel m.errorPattern := by
  cases m with
  | raise e => exact IsLevel.between (by decide) (hL.isLevel h) (by decide)
  | nothing => decide
  | hole l =>
    have hplain : IsLevel "Err(_)" := by decide
    exact hplain

omit hL

namespace Expr

@[simp] theorem fronted_itemPointer (list : String) (i : Index) : Fronted (itemPointer list i).code :=
  Fronted.around (by decide)

@[simp] theorem fronted_nullPointer : Fronted nullPointer.code := by decide

@[simp] theorem fronted_none : Fronted none.code := by decide

@[simp] theorem fronted_some (e : Expr) : Fronted (some e).code := Fronted.between (by decide)

@[simp] theorem fronted_cond (t : Test) (a b : Expr) : Fronted (cond t a b).code :=
  (Fronted.around (by decide)).between

end Expr

namespace Stmt

theorem fronted_checkCount (n : Nat) : Fronted (checkCount n).code := Fronted.between (by decide)

theorem fronted_check (k : Kind) (i : Int) : Fronted (check k i).code := by
  cases k <;> exact (Fronted.append (by decide) _).between

@[simp] theorem fronted_bind (m : Bool) (x : String) (e : Expr) : Fronted (bind m x e).code := by
  cases m <;> exact ((Fronted.between (by decide)).append _).between

@[simp] theorem fronted_bindViews (m : Bool) (x v : String) : Fronted (bindViews m x v).code := by
  cases m <;> exact ((Fronted.between (by decide)).append _).between

@[simp] theorem fronted_bindTuple (xs : List String) (e : Expr) : Fronted (bindTuple xs e).code :=
  Fronted.around (by decide)

@[simp] theorem fronted_bindCall (x : String) (c : Call) : Fronted (bindCall x c).code := Fronted.around (by decide)

theorem fronted_push {vec : String} (h : Fronted vec) (e : Expr) : Fronted (push vec e).code := (h.append _).between

@[simp] theorem fronted_yield {e : Expr} : Fronted (yield e).code ↔ Fronted e.code := Iff.rfl

@[simp] theorem fronted_invalidPointer (s : String) : Fronted (invalidPointer s).code := Fronted.between (by decide)

@[simp] theorem fronted_leave : Fronted leave.code := by decide

@[simp] theorem fronted_free (x s : String) : Fronted (free x s).code := Fronted.around (by decide)

@[simp] theorem fronted_clearHandle : Fronted clearHandle.code := by decide

@[simp] theorem fronted_answer (o : Outgoing) : Fronted (answer o).code := by
  cases o with
  | number e | truth e | text e => exact Fronted.between (by decide)
  | pointer e s => exact Fronted.around (by decide)

@[simp] theorem fronted_answerList (l : String) : Fronted (answerList l).code := Fronted.between (by decide)

@[simp] theorem fronted_append (l : String) (o : Outgoing) : Fronted (append l o).code := by
  cases o with
  | number e | truth e | text e => exact Fronted.around (by decide)
  | pointer e s => exact (Fronted.around (by decide)).between

@[simp] theorem fronted_appendHole (l : String) : Fronted (appendHole l).code := Fronted.between (by decide)

end Stmt

namespace Code

@[simp] def Upright : Code → Prop
  | skip | matchDone _ _ | receive _ _ => True
  | line s => Fronted s.code
  | fragment c | when _ c | items _ _ c | each _ _ c | eachPair _ _ _ c | matchOption _ _ c _ | matchResult _ _ c _ =>
    c.Upright
  | seq a b | letIf _ _ a b => a.Upright ∧ b.Upright
  | letChain _ _ a₁ _ a₂ b => a₁.Upright ∧ a₂.Upright ∧ b.Upright

theorem upright_ofList {cs : List Code} : (ofList cs).Upright ↔ ∀ c ∈ cs, c.Upright := by
  induction cs with
  | nil => simp [ofList]
  | cons c cs ih =>
    cases cs with
    | nil => simp [ofList]
    | cons d ds =>
      have hsplit : (ofList (c :: d :: ds)).Upright ↔ c.Upright ∧ (ofList (d :: ds)).Upright := Iff.rfl
      rw [hsplit, ih, List.forall_mem_cons (a := c)]

/-- The rows of known code whose names have no braces, and none of whose statements starts with a blank. -/
theorem nested_rows (hL : L.IsUnbraced) {c : Code} (h : c.Within L) (hu : c.Upright) : Nested 0 c.rows 0 := by
  have helse : Row.Fits 1 1 ⟨0, "\x7d else \x7b"⟩ := fits_closing (by decide) (by decide)
  have hmissing : ∀ {m : Missing} {pattern : String}, m.Within L → IsLevel pattern → Fronted pattern →
      Row.Fits 0 0 ⟨0, m.code pattern⟩ := by
    intro m pattern hm hp hfront
    refine fits_outer (m.isLevel_code hL hm hp) ?_
    cases m with
    | nothing => exact hfront.append _
    | hole l | raise e => exact (hfront.append _).between
  have herror : ∀ {m : Missing}, m.Within L → Row.Fits 0 0 ⟨0, m.code m.errorPattern⟩ := by
    intro m hm
    refine hmissing hm (m.isLevel_errorPattern hL hm) ?_
    cases m with
    | raise e => exact Fronted.between (by decide)
    | nothing | hole l => exact Fronted.append (s := "Err(_)") (by decide) ""
  induction c with
  | skip => exact .nil 0
  | line s => exact (fits_outer (s.isLevel_code hL h) hu).nested
  | seq a b iha ihb => exact (iha h.1 hu.1).append (ihb h.2 hu.2)
  | fragment c ih =>
    rw [rows]
    split
    · exact .nil 0
    · exact ih h hu
  | when t c ih =>
    have hheader : Turns 0 1 s!"if {t.code} \x7b" :=
      Turns.between (j := 0) (by decide) (t.isLevel_code hL h.1) (by decide)
    exact (ih h.2 hu).deeper.block hheader (Fronted.between (by decide)) (by decide)
  | letIf x t a b iha ihb =>
    obtain ⟨hx, ht, ha, hb⟩ := h
    have hheader : Turns 0 1 s!"let {x} = if {t.code} \x7b" :=
      Turns.around (j := 0) (k := 0) (by decide) (hL.isLevel hx) (by decide) (t.isLevel_code hL ht) (by decide)
    have hbranches := ((iha ha hu.1).deeper.append helse.nested).append (ihb hb hu.2).deeper
    exact hbranches.block hheader (Fronted.around (by decide)) (by decide)
  | letChain x t₁ a₁ t₂ a₂ b iha₁ iha₂ ihb =>
    obtain ⟨hx, ht₁, ha₁, ht₂, ha₂, hb⟩ := h
    have hheader : Turns 0 1 s!"let {x} = if {t₁.code} \x7b" :=
      Turns.around (j := 0) (k := 0) (by decide) (hL.isLevel hx) (by decide) (t₁.isLevel_code hL ht₁) (by decide)
    have hturn : Turns 1 1 s!"\x7d else if {t₂.code} \x7b" :=
      Turns.between (j := 0) (by decide) (t₂.isLevel_code hL ht₂) (by decide)
    have hclose : (s!"\x7d else if {t₂.code} \x7b").toList.head? = some '\x7d' := by
      rw [String.toList_append, String.toList_append]
      rfl
    have hfirst := ((iha₁ ha₁ hu.1).deeper.append (fits_closing hturn hclose).nested).append (iha₂ ha₂ hu.2.1).deeper
    exact ((hfirst.append helse.nested).append (ihb hb hu.2.2).deeper).block hheader (Fronted.around (by decide))
      (by decide)
  | items i l c ih =>
    have hheader : Turns 0 1 s!"for {i} in 1..=ring_list_getsize({l}) \x7b" :=
      Turns.around (j := 0) (k := 0) (by decide) (hL.isLevel h.1) (by decide) (hL.isLevel h.2.1) (by decide)
    exact (ih h.2.2 hu).deeper.block hheader (Fronted.around (by decide)) (by decide)
  | each x e c ih =>
    have hheader : Turns 0 1 s!"for {x} in {e.code} \x7b" :=
      Turns.around (j := 0) (k := 0) (by decide) (hL.isLevel h.1) (by decide) (e.isLevel_code hL h.2.1) (by decide)
    exact (ih h.2.2 hu).deeper.block hheader (Fronted.around (by decide)) (by decide)
  | eachPair k v e c ih =>
    obtain ⟨hk, hv, he, hc⟩ := h
    have hnames : Turns 0 0 s!"for ({k}, {v}) in " :=
      IsLevel.around (by decide) (hL.isLevel hk) (by decide) (hL.isLevel hv) (by decide)
    have hheader : Turns 0 1 s!"for ({k}, {v}) in {e.code} \x7b" := hnames.between (e.isLevel_code hL he) (by decide)
    exact (ih hc hu).deeper.block hheader (Fronted.around (by decide)).between (by decide)
  | matchOption e x c m ih =>
    obtain ⟨he, hx, hc, hm⟩ := h
    have hheader : Turns 0 1 s!"match {e.code} \x7b" :=
      Turns.between (j := 0) (by decide) (e.isLevel_code hL he) (by decide)
    have harm : Turns 0 1 s!"Some({x}) => \x7b" := Turns.between (j := 0) (by decide) (hL.isLevel hx) (by decide)
    have hsome := (ih hc hu).deeper.block harm (Fronted.between (by decide)) turns_brace
    exact (hsome.append (hmissing hm (by decide) (by decide)).nested).deeper.block hheader
      (Fronted.between (by decide)) (by decide)
  | matchResult e x c m ih =>
    obtain ⟨he, hx, hc, hm⟩ := h
    have hheader : Turns 0 1 s!"match {e.code} \x7b" :=
      Turns.between (j := 0) (by decide) (e.isLevel_code hL he) (by decide)
    have harm : Turns 0 1 s!"Ok({x}) => \x7b" := Turns.between (j := 0) (by decide) (hL.isLevel hx) (by decide)
    have hok := (ih hc hu).deeper.block harm (Fronted.between (by decide)) turns_brace
    exact (hok.append (herror hm).nested).deeper.block hheader (Fronted.between (by decide)) (by decide)
  | matchDone e m =>
    obtain ⟨he, hm⟩ := h
    have hheader : Turns 0 1 s!"match {e.code} \x7b" :=
      Turns.between (j := 0) (by decide) (e.isLevel_code hL he) (by decide)
    have hdone : Row.Fits 0 0 ⟨0, "Ok(_) => \x7b\x7d"⟩ := fits_outer (by decide) (by decide)
    exact (hdone.nested.append (herror hm).nested).deeper.block hheader (Fronted.between (by decide)) (by decide)
  | receive x s =>
    obtain ⟨hx, _, _, hs⟩ := h
    have hinvalid : Row.Fits 0 0 ⟨0, (Stmt.invalidPointer s).code⟩ :=
      fits_outer (Stmt.isLevel_code hL hs) (Stmt.fronted_invalidPointer s)
    have hleave : Row.Fits 0 0 ⟨0, Stmt.leave.code⟩ := fits_outer (by decide) (by decide)
    have harm : Turns 0 1 "None => \x7b" := by decide
    have hnone := (hinvalid.nested.append hleave.nested).deeper.block harm (by decide) turns_brace
    have hread : Turns 0 0 s!"let {x} = match ring_get_pointer!(p, 1, {s}, " :=
      IsLevel.around (by decide) (hL.isLevel hx) (by decide) (hL.isLevel hs) (by decide)
    have hheader : Turns 0 1 s!"let {x} = match ring_get_pointer!(p, 1, {s}, {Name.tag s}) \x7b" :=
      hread.between (Name.isLevel_tag hL hs) (by decide)
    have hsome : Row.Fits 0 0 ⟨0, s!"Some({x}) => {x},"⟩ :=
      fits_outer (IsLevel.around (by decide) (hL.isLevel hx) (by decide) (hL.isLevel hx) (by decide))
        (Fronted.around (by decide))
    exact (hsome.nested.append hnone).deeper.block hheader (Fronted.around (by decide)).between (by decide)

end Code

end RingBridge
