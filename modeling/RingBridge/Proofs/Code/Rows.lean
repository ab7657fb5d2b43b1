import RingBridge.Proofs.Code.Limits
import RingBridge.Proofs.Layout.Rows
import RingBridge.Proofs.Spelling.Parts
/-!
The rows that code is laid out in. Where no name has a line feed in it, every row is one line, and code writes its
rows wherever it stands, fragments included.
-/
namespace RingBridge
open Layout Text

namespace Text

theorem isLine_between {a s b : String} (ha : IsLine a) (hs : IsLine s) (hb : IsLine b) : IsLine (a ++ s ++ b) :=
  isLine_append.2 ⟨isLine_append.2 ⟨ha, hs⟩, hb⟩

theorem isLine_around {a s b t c : String} (ha : IsLine a) (hs : IsLine s) (hb : IsLine b) (ht : IsLine t)
    (hc : IsLine c) : IsLine (a ++ s ++ b ++ t ++ c) :=
  isLine_between (isLine_between ha hs hb) ht hc

theorem isLine_natToString (n : Nat) : IsLine (toString n) := by
  intro hm
  have hdigit := Nat.isDigit_of_mem_toDigits (b := 10) (c := '\n') (n := n) (by decide) (by decide) (by simpa using hm)
  exact absurd hdigit (by decide)

theorem isLine_toString : (n : Int) → IsLine (toString n)
  | .ofNat n => isLine_natToString n
  | .negSucc n => isLine_append.2 ⟨by decide, isLine_natToString (n + 1)⟩

end Text

namespace Limits
variable {L : Limits}

def IsPlain (L : Limits) : Prop := ∀ c, L.chars c → c ≠ '\n'

theorem IsPlain.isLine (h : L.IsPlain) {x : String} (hx : L.Allows x) : IsLine x := fun hm => h _ (hx _ hm) rfl

end Limits

theorem Spelling.isLine_baseName {x : String} (h : IsLine x) : IsLine (Spelling.baseName x) := by
  rw [Spelling.baseName, onText, isLine_ofList]
  exact fun hm => h ((Spelling.stripPath_suffix _).subset ((List.takeWhile_prefix _).subset hm))

theorem Name.isLine_tag {s : String} (h : IsLine s) : IsLine (Name.tag s) :=
  isLine_append.2 ⟨isLine_upper (Spelling.isLine_baseName h), by decide⟩

variable {L : Limits} (hL : L.IsPlain)

theorem Cast.isLine_code (c : Cast) : IsLine c.code := by
  cases c with
  | number w => cases w <;> decide
  | truth | inferred => decide

theorem Kind.isLine_check (k : Kind) : IsLine k.check ∧ IsLine k.argumentTest ∧ IsLine k.itemTest := by
  cases k <;> decide

include hL

theorem Index.isLine_code {i : Index} (h : i.Within L) : IsLine i.code := by
  cases i with
  | var x => exact hL.isLine h
  | first => decide

theorem Test.isLine_code {t : Test} (h : t.Within L) : IsLine t.code := by
  cases t with
  | isKind k s =>
    cases s with
    | argument i => exact isLine_between (isLine_append.2 ⟨k.isLine_check.2.1, by decide⟩) (isLine_toString i) (by decide)
    | item l i =>
      have hhead := isLine_between (a := k.itemTest) (s := "(") k.isLine_check.2.2 (by decide) (hL.isLine h.1)
      exact isLine_between (isLine_append.2 ⟨hhead, by decide⟩) (i.isLine_code hL h.2) (by decide)
  | isNull x | isEmpty x => exact isLine_append.2 ⟨hL.isLine h, by decide⟩
  | notNull x => exact isLine_between (by decide) (hL.isLine h) (by decide)

theorem Expr.isLine_code {e : Expr} (h : e.Within L) : IsLine e.code := by
  induction e with
  | var x => exact hL.isLine h
  | verbatim c ss => exact hL.isLine h.2.2
  | number s c =>
    have hc := c.isLine_code
    cases s with
    | argument i => exact isLine_append.2 ⟨isLine_between (by decide) (isLine_toString i) (by decide), hc⟩
    | item l i =>
      exact isLine_append.2 ⟨isLine_around (by decide) (hL.isLine h.1) (by decide) (i.isLine_code hL h.2) (by decide), hc⟩
  | text s | list s =>
    cases s with
    | argument i => exact isLine_between (by decide) (isLine_toString i) (by decide)
    | item l i => exact isLine_around (by decide) (hL.isLine h.1) (by decide) (i.isLine_code hL h.2) (by decide)
  | handle i s =>
    exact isLine_around (by decide) (isLine_toString i) (by decide) (Name.isLine_tag (hL.isLine h.2.2)) (by decide)
  | itemPointer l i => exact isLine_around (by decide) (hL.isLine h.1) (by decide) (i.isLine_code hL h.2) (by decide)
  | nullPointer | none | newVec | newList => decide
  | some e ih | box e ih | deref e ih | debug e ih => exact isLine_between (by decide) (ih h) (by decide)
  | owned e ih | full e ih | clone e ih | toVec e ih => exact isLine_append.2 ⟨ih h, by decide⟩
  | refer m e ih => cases m <;> exact isLine_append.2 ⟨by decide, ih h⟩
  | cond t a b iha ihb =>
    exact isLine_append.2 ⟨isLine_append.2 ⟨isLine_around (by decide) (t.isLine_code hL h.1) (by decide) (iha h.2.1)
      (by decide), ihb h.2.2⟩, by decide⟩
  | views x | defaultOf x => exact isLine_append.2 ⟨hL.isLine h, by decide⟩
  | borrow x s m =>
    cases m <;> exact isLine_around (by decide) (hL.isLine h.2.1) (by decide) (hL.isLine h.2.2) (by decide)
  | duplicate x s => exact isLine_around (by decide) (hL.isLine h.2.1) (by decide) (hL.isLine h.2.2) (by decide)
  | subList l => exact isLine_between (by decide) (hL.isLine h) (by decide)

theorem Call.isLine_code {c : Call} (h : c.Within L) : IsLine c.code := by
  have hargs : ∀ {args : List Expr}, (∀ e ∈ args, e.Within L) → IsLine (argsCode args) := by
    intro args h
    apply IsLine.intercalate (by decide)
    intro l hl
    obtain ⟨e, he, rfl⟩ := List.mem_map.1 hl
    exact e.isLine_code hL (h e he)
  cases c with
  | verbatim c => exact hL.isLine h.2
  | function x args =>
    exact isLine_between (isLine_append.2 ⟨hL.isLine h.1, by decide⟩) (hargs h.2) (by decide)
  | associated s x args =>
    have hname := isLine_between (s := "::") (hL.isLine h.1) (by decide) (hL.isLine h.2.1)
    exact isLine_between (isLine_append.2 ⟨hname, by decide⟩) (hargs h.2.2) (by decide)
  | method v x args =>
    have hreceiver : IsLine (receiverCode v) := by cases v <;> decide
    have hname := isLine_between (s := ".") hreceiver (by decide) (hL.isLine h.1)
    exact isLine_between (isLine_append.2 ⟨hname, by decide⟩) (hargs h.2) (by decide)
  | getField x => exact isLine_between (by decide) (hL.isLine h) (by decide)
  | setField x e =>
    exact isLine_append.2 ⟨isLine_between (by decide) (hL.isLine h.1) (by decide), e.isLine_code hL h.2⟩

theorem Outgoing.isLine_answerCode {o : Outgoing} (h : o.Within L) : IsLine o.answerCode := by
  cases o with
  | number e | truth e | text e => exact isLine_between (by decide) (e.isLine_code hL h) (by decide)
  | pointer e s =>
    exact isLine_around (by decide) (e.isLine_code hL h.1) (by decide) (Name.isLine_tag (hL.isLine h.2.2)) (by decide)

theorem Outgoing.isLine_appendCode {o : Outgoing} (h : o.Within L) {l : String} (hl : IsLine l) :
    IsLine (o.appendCode l) := by
  cases o with
  | number e | truth e | text e => exact isLine_around (by decide) hl (by decide) (e.isLine_code hL h) (by decide)
  | pointer e s =>
    have hbox := isLine_around (a := "ring_list_addcpointer(") (b := ", Box::into_raw(") (by decide) hl (by decide)
      (e.isLine_code hL h.1) (c := ") as *mut std::ffi::c_void, ") (by decide)
    exact isLine_between hbox (Name.isLine_tag (hL.isLine h.2.2)) (by decide)

theorem Stmt.isLine_code {s : Stmt} (h : s.Within L) : IsLine s.code := by
  have hlet : ∀ m, IsLine (letCode m) := by decide
  cases s with
  | verbatim c ss => exact hL.isLine h.2.2
  | checkCount n => exact isLine_between (by decide) (isLine_natToString n) (by decide)
  | check k i => exact isLine_between (isLine_append.2 ⟨k.isLine_check.1, by decide⟩) (isLine_toString i) (by decide)
  | bind m x e =>
    have hname := isLine_between (s := " ") (hlet m) (by decide) (hL.isLine h.1)
    exact isLine_between (isLine_append.2 ⟨hname, by decide⟩) (e.isLine_code hL h.2) (by decide)
  | bindViews m x v =>
    have hname := isLine_between (s := " ") (hlet m) (by decide) (hL.isLine h.1)
    exact isLine_between (isLine_append.2 ⟨hname, by decide⟩) (Expr.isLine_code hL (e := .views v) h.2) (by decide)
  | bindTuple xs e =>
    have hnames : ∀ x ∈ xs, IsLine x := fun x hx => hL.isLine (h.1 x hx)
    have hpattern : IsLine (tuplePattern xs) := by
      unfold tuplePattern
      split
      · next x => exact isLine_between (by decide) (hnames x (List.mem_singleton_self x)) (by decide)
      · exact isLine_between (by decide) (IsLine.intercalate (by decide) hnames) (by decide)
    exact isLine_around (by decide) hpattern (by decide) (e.isLine_code hL h.2) (by decide)
  | bindCall x c => exact isLine_around (by decide) (hL.isLine h.1) (by decide) (c.isLine_code hL h.2) (by decide)
  | perform c => exact isLine_append.2 ⟨Call.isLine_code hL h, by decide⟩
  | push v e =>
    exact isLine_between (isLine_append.2 ⟨hL.isLine h.1, by decide⟩) (e.isLine_code hL h.2) (by decide)
  | yield e => exact Expr.isLine_code hL h
  | invalidPointer s =>
    exact isLine_between (by decide) (isLine_quoteLiteral (isLine_between (by decide) (hL.isLine h) (by decide)))
      (by decide)
  | leave | clearHandle => decide
  | free x s => exact isLine_around (by decide) (hL.isLine h.2.1) (by decide) (hL.isLine h.2.2) (by decide)
  | answer v => exact Outgoing.isLine_answerCode hL h
  | append l v => exact v.isLine_appendCode hL h.2 (hL.isLine h.1)
  | answerList l | appendHole l => exact isLine_between (by decide) (hL.isLine h) (by decide)

theorem Missing.isLine_code {m : Missing} (h : m.Within L) {pattern : String} (hp : IsLine pattern) :
    IsLine (m.code pattern) := by
  cases m with
  | nothing => exact isLine_append.2 ⟨hp, by decide⟩
  | hole l => exact isLine_between (isLine_append.2 ⟨hp, by decide⟩) (hL.isLine h) (by decide)
  | raise e => exact isLine_between (isLine_append.2 ⟨hp, by decide⟩) (hL.isLine h) (by decide)

theorem Missing.isLine_errorPattern {m : Missing} (h : m.Within L) : IsLine m.errorPattern := by
  cases m with
  | raise e => exact isLine_between (by decide) (hL.isLine h) (by decide)
  | nothing => decide
  | hole l =>
    have hplain : IsLine "Err(_)" := by decide
    exact hplain

omit hL

namespace Code

def rows : Code → List Row
  | skip => []
  | line s => [⟨0, s.code⟩]
  | seq a b => a.rows ++ b.rows
  | fragment c => if (write c.ops).isEmpty then [] else c.rows
  | when t c => block s!"if {t.code} \x7b" "\x7d" (c.rows.map Row.deeper)
  | letIf x t a b =>
    block s!"let {x} = if {t.code} \x7b" "\x7d;"
      (a.rows.map Row.deeper ++ [⟨0, "\x7d else \x7b"⟩] ++ b.rows.map Row.deeper)
  | letChain x t₁ a₁ t₂ a₂ b =>
    block s!"let {x} = if {t₁.code} \x7b" "\x7d;"
      (a₁.rows.map Row.deeper ++ [⟨0, s!"\x7d else if {t₂.code} \x7b"⟩] ++ a₂.rows.map Row.deeper
        ++ [⟨0, "\x7d else \x7b"⟩] ++ b.rows.map Row.deeper)
  | items i l c => block s!"for {i} in 1..=ring_list_getsize({l}) \x7b" "\x7d" (c.rows.map Row.deeper)
  | each x e c => block s!"for {x} in {e.code} \x7b" "\x7d" (c.rows.map Row.deeper)
  | eachPair k v e c => block s!"for ({k}, {v}) in {e.code} \x7b" "\x7d" (c.rows.map Row.deeper)
  | matchOption e x c m =>
    block s!"match {e.code} \x7b" "\x7d"
      ((block s!"Some({x}) => \x7b" "\x7d" (c.rows.map Row.deeper) ++ [Row.mk 0 (m.code "None")]).map Row.deeper)
  | matchResult e x c m =>
    block s!"match {e.code} \x7b" "\x7d"
      ((block s!"Ok({x}) => \x7b" "\x7d" (c.rows.map Row.deeper) ++ [Row.mk 0 (m.code m.errorPattern)]).map Row.deeper)
  | matchDone e m =>
    block s!"match {e.code} \x7b" "\x7d" [⟨1, "Ok(_) => \x7b\x7d"⟩, ⟨1, m.code m.errorPattern⟩]
  | receive x struct =>
    block s!"let {x} = match ring_get_pointer!(p, 1, {struct}, {Name.tag struct}) \x7b" "\x7d;"
      (([Row.mk 0 s!"Some({x}) => {x},"] ++ block "None => \x7b" "\x7d"
        [⟨1, (Stmt.invalidPointer struct).code⟩, ⟨1, Stmt.leave.code⟩]).map Row.deeper)

/-- Where no name has a line feed in it, every row is one line. -/
theorem areLines_rows (hL : L.IsPlain) {c : Code} (h : c.Within L) : AreLines c.rows := by
  have helse : IsLine "\x7d else \x7b" := by decide
  induction c with
  | skip => nofun
  | line s => exact areLines_row (s.isLine_code hL h) 0
  | seq a b iha ihb => exact (iha h.1).append (ihb h.2)
  | fragment c ih =>
    rw [rows]
    split
    · nofun
    · exact ih h
  | when t c ih => exact (ih h.2).deeper.block (isLine_between (by decide) (t.isLine_code hL h.1) (by decide)) (by decide)
  | letIf x t a b iha ihb =>
    obtain ⟨hx, ht, ha, hb⟩ := h
    exact (((iha ha).deeper.append (areLines_row helse 0)).append (ihb hb).deeper).block
      (isLine_around (by decide) (hL.isLine hx) (by decide) (t.isLine_code hL ht) (by decide)) (by decide)
  | letChain x t₁ a₁ t₂ a₂ b iha₁ iha₂ ihb =>
    obtain ⟨hx, ht₁, ha₁, ht₂, ha₂, hb⟩ := h
    have hturn : IsLine s!"\x7d else if {t₂.code} \x7b" := isLine_between (by decide) (t₂.isLine_code hL ht₂) (by decide)
    exact (((((iha₁ ha₁).deeper.append (areLines_row hturn 0)).append (iha₂ ha₂).deeper).append
      (areLines_row helse 0)).append (ihb hb).deeper).block
      (isLine_around (by decide) (hL.isLine hx) (by decide) (t₁.isLine_code hL ht₁) (by decide)) (by decide)
  | items i l c ih =>
    exact (ih h.2.2).deeper.block
      (isLine_around (by decide) (hL.isLine h.1) (by decide) (hL.isLine h.2.1) (by decide)) (by decide)
  | each x e c ih =>
    exact (ih h.2.2).deeper.block
      (isLine_around (by decide) (hL.isLine h.1) (by decide) (e.isLine_code hL h.2.1) (by decide)) (by decide)
  | eachPair k v e c ih =>
    have hnames := isLine_around (a := "for (") (b := ", ") (c := ") in ") (by decide) (hL.isLine h.1) (by decide)
      (hL.isLine h.2.1) (by decide)
    exact (ih h.2.2.2).deeper.block (isLine_between hnames (e.isLine_code hL h.2.2.1) (by decide)) (by decide)
  | matchOption e x c m ih =>
    obtain ⟨he, hx, hc, hm⟩ := h
    have hsome : AreLines (block s!"Some({x}) => \x7b" "\x7d" (c.rows.map Row.deeper)) := (ih hc).deeper.block
      (isLine_between (by decide) (hL.isLine hx) (by decide)) (by decide)
    exact (hsome.append (areLines_row (m.isLine_code hL hm (by decide)) 0)).deeper.block
      (isLine_between (by decide) (e.isLine_code hL he) (by decide)) (by decide)
  | matchResult e x c m ih =>
    obtain ⟨he, hx, hc, hm⟩ := h
    have hok : AreLines (block s!"Ok({x}) => \x7b" "\x7d" (c.rows.map Row.deeper)) := (ih hc).deeper.block
      (isLine_between (by decide) (hL.isLine hx) (by decide)) (by decide)
    exact (hok.append (areLines_row (m.isLine_code hL hm (m.isLine_errorPattern hL hm)) 0)).deeper.block
      (isLine_between (by decide) (e.isLine_code hL he) (by decide)) (by decide)
  | matchDone e m =>
    obtain ⟨he, hm⟩ := h
    have hdone : IsLine "Ok(_) => \x7b\x7d" := by decide
    exact ((areLines_row hdone 1).append (areLines_row (m.isLine_code hL hm (m.isLine_errorPattern hL hm)) 1)).block
      (isLine_between (by decide) (e.isLine_code hL he) (by decide)) (by decide)
  | receive x s =>
    obtain ⟨hx, _, _, hs⟩ := h
    have hinvalid : IsLine (Stmt.invalidPointer s).code := Stmt.isLine_code hL hs
    have hx := hL.isLine hx
    have hs := hL.isLine hs
    have hleave : IsLine Stmt.leave.code := by decide
    have hnone : AreLines (block "None => \x7b" "\x7d" ([⟨1, (Stmt.invalidPointer s).code⟩] ++ [⟨1, Stmt.leave.code⟩])) :=
      ((areLines_row hinvalid 1).append (areLines_row hleave 1)).block (by decide) (by decide)
    have hheader := isLine_around (a := "let ") (b := " = match ring_get_pointer!(p, 1, ") (c := ", ") (by decide) hx
      (by decide) hs (by decide)
    exact ((areLines_row (isLine_around (by decide) hx (by decide) hx (by decide)) 0).append hnone).deeper.block
      (isLine_between hheader (Name.isLine_tag hs) (by decide)) (by decide)

/-- Code writes its rows. -/
theorem writes_ops (hL : L.IsPlain) {c : Code} (h : c.Within L) : Writes c.ops c.rows := by
  induction c with
  | skip => exact writes_nil
  | line s => exact writes_line s.code
  | seq a b iha ihb => exact (iha h.1).append (ihb h.2)
  | fragment c ih =>
    -- Text of no characters is spliced in as no line, while code of no rows and one empty row both write such text.
    rw [rows]
    split
    · next he =>
      intro p
      rw [ops, Page.addRows_nil]
      simp [Page.run, Page.step, Page.spliced, he]
    · next he => exact (ih h).splice (areLines_rows hL h) (by simpa using he)
  | when t c ih => exact (ih h.2).inside.block _ _
  | letIf x t a b iha ihb =>
    exact (((iha h.2.2.1).inside.append (writesInside_turn _)).append (ihb h.2.2.2).inside).block _ _
  | letChain x t₁ a₁ t₂ a₂ b iha₁ iha₂ ihb =>
    obtain ⟨_, _, ha₁, _, ha₂, hb⟩ := h
    exact (((((iha₁ ha₁).inside.append (writesInside_turn _)).append (iha₂ ha₂).inside).append
      (writesInside_turn _)).append (ihb hb).inside).block _ _
  | items i l c ih | each x e c ih => exact (ih h.2.2).inside.block _ _
  | eachPair k v e c ih => exact (ih h.2.2.2).inside.block _ _
  | matchOption e x c m ih =>
    have hsome := ((ih h.2.2.1).inside.block s!"Some({x}) => \x7b" "\x7d").append (writes_line (m.code "None"))
    have hops := hsome.inside.block s!"match {e.code} \x7b" "\x7d"
    simp only [List.cons_append, List.append_assoc] at hops
    exact hops
  | matchResult e x c m ih =>
    have hok := ((ih h.2.2.1).inside.block s!"Ok({x}) => \x7b" "\x7d").append (writes_line (m.code m.errorPattern))
    have hops := hok.inside.block s!"match {e.code} \x7b" "\x7d"
    simp only [List.cons_append, List.append_assoc] at hops
    exact hops
  | matchDone e m => exact (writes_lines ["Ok(_) => \x7b\x7d", m.code m.errorPattern]).inside.block _ _
  | receive x struct =>
    have hnone := (writes_lines [(Stmt.invalidPointer struct).code, Stmt.leave.code]).inside.block "None => \x7b" "\x7d"
    exact ((writes_line s!"Some({x}) => {x},").append hnone).inside.block _ _

/-- Any code writes rows. Those of a fragment are the lines that its text is read back in. -/
theorem exists_writes (c : Code) : ∃ rs, Writes c.ops rs := by
  induction c with
  | skip => exact ⟨_, writes_nil⟩
  | line s => exact ⟨_, writes_line s.code⟩
  | seq a b iha ihb =>
    obtain ⟨_, ha⟩ := iha
    obtain ⟨_, hb⟩ := ihb
    exact ⟨_, ha.append hb⟩
  | fragment c ih => exact ⟨_, writes_splice _⟩
  | when t c ih | items i l c ih | each x e c ih | eachPair k v e c ih =>
    obtain ⟨_, hc⟩ := ih
    exact ⟨_, hc.inside.block _ _⟩
  | letIf x t a b iha ihb =>
    obtain ⟨_, ha⟩ := iha
    obtain ⟨_, hb⟩ := ihb
    exact ⟨_, ((ha.inside.append (writesInside_turn _)).append hb.inside).block _ _⟩
  | letChain x t₁ a₁ t₂ a₂ b iha₁ iha₂ ihb =>
    obtain ⟨_, ha₁⟩ := iha₁
    obtain ⟨_, ha₂⟩ := iha₂
    obtain ⟨_, hb⟩ := ihb
    exact ⟨_, ((((ha₁.inside.append (writesInside_turn _)).append ha₂.inside).append (writesInside_turn _)).append
      hb.inside).block _ _⟩
  | matchOption e x c m ih =>
    obtain ⟨_, hc⟩ := ih
    have hops := ((hc.inside.block s!"Some({x}) => \x7b" "\x7d").append (writes_line (m.code "None"))).inside.block
      s!"match {e.code} \x7b" "\x7d"
    simp only [List.cons_append, List.append_assoc] at hops
    exact ⟨_, hops⟩
  | matchResult e x c m ih =>
    obtain ⟨_, hc⟩ := ih
    have hops := ((hc.inside.block s!"Ok({x}) => \x7b" "\x7d").append
      (writes_line (m.code m.errorPattern))).inside.block s!"match {e.code} \x7b" "\x7d"
    simp only [List.cons_append, List.append_assoc] at hops
    exact ⟨_, hops⟩
  | matchDone e m => exact ⟨_, (writes_lines ["Ok(_) => \x7b\x7d", m.code m.errorPattern]).inside.block _ _⟩
  | receive x struct =>
    have hnone := (writes_lines [(Stmt.invalidPointer struct).code, Stmt.leave.code]).inside.block "None => \x7b" "\x7d"
    exact ⟨_, ((writes_line s!"Some({x}) => {x},").append hnone).inside.block _ _⟩

end Code

end RingBridge
