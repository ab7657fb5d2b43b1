import RingBridge.Proofs.Source.Reads
/-!
Steps that do not see lines, nor what stands outside of their range. From cursors with the same marks a step reads the
same and leaves the same marks, or fails for the same cause, though perhaps on another line.
-/
namespace RingBridge.Source

def Fault.unplaced : Fault → Fault
  | .error cause _ => .error cause 0
  | .noGroup => .noGroup
  | .nothingLeft => .nothingLeft

def CellsAlike (cs ds : List Cell) : Prop := cs.map Cell.mark = ds.map Cell.mark

namespace CellsAlike
variable {cs ds : List Cell} {c d : Cell}

theorem nil_right (h : CellsAlike [] ds) : ds = [] := List.map_eq_nil_iff.1 h.symm

theorem exists_cons (h : CellsAlike (c :: cs) ds) : ∃ d r, ds = d :: r ∧ c.mark = d.mark ∧ CellsAlike cs r := by
  obtain ⟨d, r, rfl, hd, hr⟩ := List.map_eq_cons_iff.1 h.symm
  exact ⟨d, r, rfl, hd.symm, hr.symm⟩

theorem cons (hc : c.mark = d.mark) (h : CellsAlike cs ds) : CellsAlike (c :: cs) (d :: ds) := by
  rw [CellsAlike, List.map_cons, List.map_cons, hc, h]

theorem tail (h : CellsAlike cs ds) : CellsAlike cs.tail ds.tail := by rw [CellsAlike, List.map_tail, List.map_tail, h]

theorem drop (h : CellsAlike cs ds) (n : Nat) : CellsAlike (cs.drop n) (ds.drop n) := by
  rw [CellsAlike, List.map_drop, List.map_drop, h]

theorem take (h : CellsAlike cs ds) (n : Nat) : CellsAlike (cs.take n) (ds.take n) := by
  rw [CellsAlike, List.map_take, List.map_take, h]

theorem words (h : CellsAlike cs ds) : (cs.map Cell.token).map Token.word = (ds.map Cell.token).map Token.word := by
  have hwords := congrArg (List.map Mark.word) h
  rw [List.map_map, List.map_map] at hwords ⊢
  exact hwords

theorem isAt (h : CellsAlike cs ds) (text : String) (k : Nat) : isAt cs text k = isAt ds text k := by
  rw [isAt_eq h, isAt_eq rfl]

theorem isEmpty (h : CellsAlike cs ds) : cs.isEmpty = ds.isEmpty := by
  rw [← List.isEmpty_map (f := Cell.mark), h, List.isEmpty_map]

end CellsAlike

theorem Cell.word_of_mark {c d : Cell} (h : c.mark = d.mark) : c.token.word = d.token.word := congrArg Mark.word h

theorem Cell.text_of_mark {c d : Cell} (h : c.mark = d.mark) : c.token.text = d.token.text :=
  congrArg Word.text (word_of_mark h)

theorem Cell.kind_of_mark {c d : Cell} (h : c.mark = d.mark) : c.token.kind = d.token.kind :=
  congrArg Word.kind (word_of_mark h)

theorem Cell.inside_of_mark {c d : Cell} (h : c.mark = d.mark) : c.inside = d.inside := congrArg Mark.inside h

theorem Cell.isNamed_of_mark {c d : Cell} (h : c.mark = d.mark) (text : String) :
    c.token.isNamed text = d.token.isNamed text := by
  rw [Token.isNamed, Token.isNamed, text_of_mark h, kind_of_mark h]

structure Cursor.Alike (s t : Cursor) : Prop where
  cells : CellsAlike s.cells t.cells
  notices : s.notices = t.notices

/-- Outcomes in a relation, or failures for the same cause. -/
inductive OutcomesAlike {α : Type} (R : α → α → Prop) : Except Fault α → Except Fault α → Prop
  | ok {a b : α} (h : R a b) : OutcomesAlike R (.ok a) (.ok b)
  | error {f g : Fault} (h : f.unplaced = g.unplaced) : OutcomesAlike R (.error f) (.error g)

inductive ResultsAlike {α β : Type} (R : α → β → Prop) :
    EStateM.Result Fault Cursor α → EStateM.Result Fault Cursor β → Prop
  | ok {a : α} {b : β} {s t : Cursor} (h : R a b) (hs : s.Alike t) : ResultsAlike R (.ok a s) (.ok b t)
  | error {f g : Fault} {s t : Cursor} (h : f.unplaced = g.unplaced) (hn : s.notices = t.notices) :
    ResultsAlike R (.error f s) (.error g t)

namespace Read
variable {α β γ δ : Type} {R : α → β → Prop} {Q : γ → δ → Prop} {m m' : Read α} {n n' : Read β}

/-- Steps that from like cursors come to like results. -/
def Alike (R : α → β → Prop) (m : Read α) (n : Read β) : Prop := ∀ s t : Cursor, s.Alike t → ResultsAlike R (m s) (n t)

abbrev Unplaced (m : Read α) : Prop := Alike Eq m m

theorem Alike.bind {f : α → Read γ} {g : β → Read δ} (h : Alike R m n) (hf : ∀ a b, R a b → Alike Q (f a) (g b)) :
    Alike Q (m >>= f) (n >>= g) := by
  intro s t hst
  simp only [Bind.bind, EStateM.bind]
  have hres := h s t hst
  generalize m s = x at hres ⊢
  generalize n t = y at hres ⊢
  cases hres with
  | ok hab hu => exact hf _ _ hab _ _ hu
  | error hfg hn => exact .error hfg hn

theorem Unplaced.bind {f g : α → Read β} (h : Unplaced m) (hf : ∀ a, Alike Eq (f a) (g a)) :
    Alike Eq (m >>= f) (m >>= g) :=
  Alike.bind h fun a _ hab => hab ▸ hf a

theorem Alike.pure {a : α} {b : β} (h : R a b) : Alike R (Pure.pure a) (Pure.pure b) := fun _ _ hst => .ok h hst

theorem Alike.ite {c d : Prop} [Decidable c] [Decidable d] (hcd : c ↔ d) (hm : Alike R m n) (hm' : Alike R m' n') :
    Alike R (if c then m else m') (if d then n else n') := by
  by_cases hc : c
  · rw [if_pos hc, if_pos (hcd.1 hc)]
    exact hm
  · rw [if_neg hc, if_neg fun hd => hc (hcd.2 hd)]
    exact hm'

theorem alike_fail {f g : Fault} (h : f.unplaced = g.unplaced) : Alike R (fail f) (fail g) :=
  fun _ _ hst => .error h hst.notices

theorem alike_failHere (cause : Cause) : Alike R (failHere cause) (failHere cause) := fun _ _ hst => .error rfl hst.notices

theorem alike_cells : Alike CellsAlike cells cells := fun _ _ hst => .ok hst.cells hst

theorem unplaced_at (text : String) (k : Nat) : Unplaced (at_ text k) := fun _ _ hst => .ok (hst.cells.isAt text k) hst

theorem unplaced_atEnd : Unplaced atEnd := fun _ _ hst => .ok hst.cells.isEmpty hst

theorem unplaced_note (notice : Notice) : Unplaced (note notice) :=
  fun _ _ hst => .ok rfl ⟨hst.cells, congrArg (· ++ [notice]) hst.notices⟩

theorem unplaced_skip : Unplaced skip := fun _ _ hst => .ok rfl ⟨hst.cells.tail, hst.notices⟩

/-- A step that is told whether a word stands next. -/
theorem Alike.at {text : String} {k : Nat} (hm : Alike R m n) (hm' : Alike R m' n') :
    Alike R (at_ text k >>= fun b => if b = true then m else m') (at_ text k >>= fun b => if b = true then n else n') := by
  refine Alike.bind (unplaced_at text k) fun a b hab => ?_
  subst hab
  exact .ite Iff.rfl hm hm'

def TokensAlike (t u : Token) : Prop := t.word = u.word

/-- A step that looks at its first cell. -/
theorem Alike.of_head
    (hnil : ∀ s t : Cursor, s.cells = [] → t.cells = [] → s.notices = t.notices → ResultsAlike R (m s) (n t))
    (hcons : ∀ (s t : Cursor) (c d : Cell) (r u : List Cell), s.cells = c :: r → t.cells = d :: u → c.mark = d.mark →
      CellsAlike r u → s.notices = t.notices → ResultsAlike R (m s) (n t)) : Alike R m n := by
  intro s t ⟨hcells, hn⟩
  cases hs : s.cells with
  | nil =>
    rw [hs] at hcells
    exact hnil s t hs hcells.nil_right hn
  | cons c r =>
    rw [hs] at hcells
    obtain ⟨d, u, ht, hd, hu⟩ := hcells.exists_cons
    exact hcons s t c d r u hs ht hd hu hn

theorem alike_next : Alike TokensAlike next next := by
  refine .of_head (fun s t hs ht hn => ?_) fun s t c d r u hs ht hd hu hn => ?_
  · simp only [next, hs, ht]
    exact .error rfl hn
  · simp only [next, hs, ht]
    exact .ok (Cell.word_of_mark hd) ⟨hu, hn⟩

theorem alike_expect (text : String) : Alike TokensAlike (expect text) (expect text) := by
  refine .of_head (fun s t hs ht hn => ?_) fun s t c d r u hs ht hd hu hn => ?_
  · simp only [expect, hs, ht]
    exact .error rfl hn
  · simp only [expect, hs, ht, Cell.text_of_mark hd]
    split
    · exact .ok (Cell.word_of_mark hd) ⟨hu, hn⟩
    · exact .error rfl hn

theorem alike_expectIdent (what : String) : Alike TokensAlike (expectIdent what) (expectIdent what) := by
  refine .of_head (fun s t hs ht hn => ?_) fun s t c d r u hs ht hd hu hn => ?_
  · simp only [expectIdent, hs, ht]
    exact .error rfl hn
  · simp only [expectIdent, hs, ht, Cell.kind_of_mark hd]
    split
    · exact .ok (Cell.word_of_mark hd) ⟨hu, hn⟩
    · exact .error rfl hn

/-- The inside of a group is alike, wherever the group stands. -/
theorem alike_skipGroup : Alike Cursor.Alike skipGroup skipGroup := by
  refine .of_head (fun s t hs ht hn => ?_) fun s t c d r u hs ht hd hu hn => ?_
  · simp only [skipGroup, hs, ht]
    exact .error rfl hn
  · simp only [skipGroup, hs, ht, Cell.inside_of_mark hd]
    cases d.inside with
    | none => exact .error rfl hn
    | some k => exact .ok ⟨hu.take k, rfl⟩ ⟨hu.drop (k + 1), hn⟩

theorem Alike.within {i j : Cursor} (hij : i.Alike j) (h : Alike R m n) : Alike R (within i m) (within j n) := by
  intro s t hst
  unfold Read.within
  have hres := h i j hij
  generalize m i = x at hres ⊢
  generalize n j = y at hres ⊢
  cases hres with
  | ok hab hu => exact .ok hab hst
  | error hfg hn => exact .error hfg hst.notices

/-- A step over a group, the inside of which is read. -/
theorem Alike.group {k : Cursor → Read γ} {l : Cursor → Read δ} (h : ∀ i j, i.Alike j → Alike Q (k i) (l j)) :
    Alike Q (skipGroup >>= k) (skipGroup >>= l) := .bind alike_skipGroup h

-- Each scan goes on behind a token or behind a group, and which of the two is told by the mark.
theorem anglesEnd_alike (depth : Int) : ∀ {cs ds : List Cell}, CellsAlike cs ds →
    Option.Rel CellsAlike (anglesEnd? depth cs) (anglesEnd? depth ds)
  | [], ds, h => by
    rw [h.nil_right, anglesEnd?]
    exact .none
  | c :: r, ds, h => by
    obtain ⟨d, u, rfl, hd, hu⟩ := h.exists_cons
    rw [anglesEnd?, anglesEnd?, Cell.inside_of_mark hd, Cell.text_of_mark hd]
    split
    · exact anglesEnd_alike depth (hu.drop _)
    · split
      · exact anglesEnd_alike _ hu
      · split
        · split
          · exact .some hu
          · exact anglesEnd_alike _ hu
        · exact anglesEnd_alike _ hu
termination_by cs => cs.length
decreasing_by
  all_goals simp only [List.length_cons, List.length_drop]
  all_goals omega

theorem unplaced_skipAngles : Unplaced skipAngles := by
  intro s t hst
  have hend := anglesEnd_alike 0 hst.cells
  unfold skipAngles
  generalize anglesEnd? 0 s.cells = o at hend ⊢
  generalize anglesEnd? 0 t.cells = p at hend ⊢
  cases hend with
  | none => exact .error rfl hst.notices
  | some h => exact .ok rfl ⟨h, hst.notices⟩

theorem statementEnd_alike : ∀ {cs ds : List Cell}, CellsAlike cs ds →
    Option.Rel CellsAlike (statementEnd? cs) (statementEnd? ds)
  | [], ds, h => by
    rw [h.nil_right, statementEnd?]
    exact .none
  | c :: r, ds, h => by
    obtain ⟨d, u, rfl, hd, hu⟩ := h.exists_cons
    rw [statementEnd?, statementEnd?, Cell.inside_of_mark hd, Cell.text_of_mark hd]
    split
    · exact statementEnd_alike (hu.drop _)
    · split
      · exact .some hu
      · exact statementEnd_alike hu
termination_by cs => cs.length
decreasing_by
  all_goals simp only [List.length_cons, List.length_drop]
  all_goals omega

theorem unplaced_skipStatement : Unplaced skipStatement := by
  intro s t hst
  have hend := statementEnd_alike hst.cells
  unfold skipStatement
  generalize statementEnd? s.cells = o at hend ⊢
  generalize statementEnd? t.cells = p at hend ⊢
  cases hend with
  | none => exact .error rfl hst.notices
  | some h => exact .ok rfl ⟨h, hst.notices⟩

theorem itemEnd_alike : ∀ {cs ds : List Cell}, CellsAlike cs ds →
    OutcomesAlike CellsAlike (itemEnd cs) (itemEnd ds)
  | [], ds, h => by
    rw [h.nil_right, itemEnd]
    exact .ok rfl
  | c :: r, ds, h => by
    obtain ⟨d, u, rfl, hd, hu⟩ := h.exists_cons
    rw [itemEnd, itemEnd, Cell.inside_of_mark hd, Cell.text_of_mark hd]
    split
    · split
      · exact .ok (hu.drop _)
      · exact itemEnd_alike (hu.drop _)
    · split
      · exact .error rfl
      · split
        · exact .ok hu
        · exact itemEnd_alike hu
termination_by cs => cs.length
decreasing_by
  all_goals simp only [List.length_cons, List.length_drop]
  all_goals omega

theorem unplaced_skipItem : Unplaced skipItem := by
  intro s t hst
  have hend := itemEnd_alike hst.cells
  unfold skipItem
  generalize itemEnd s.cells = x at hend ⊢
  generalize itemEnd t.cells = y at hend ⊢
  cases hend with
  | ok h => exact .ok rfl ⟨h, hst.notices⟩
  | error h => exact .error h hst.notices

theorem whereEnd_alike : ∀ {cs ds : List Cell}, CellsAlike cs ds →
    OutcomesAlike CellsAlike (whereEnd cs) (whereEnd ds)
  | [], ds, h => by
    rw [h.nil_right, whereEnd]
    exact .ok rfl
  | c :: r, ds, h => by
    obtain ⟨d, u, rfl, hd, hu⟩ := h.exists_cons
    rw [whereEnd, whereEnd, Cell.isNamed_of_mark hd, Cell.isNamed_of_mark hd, Cell.inside_of_mark hd,
      Cell.text_of_mark hd]
    split
    · exact .ok h
    · split
      · split
        · exact whereEnd_alike (hu.drop _)
        · exact .error rfl
      · exact whereEnd_alike hu
termination_by cs => cs.length
decreasing_by
  all_goals simp only [List.length_cons, List.length_drop]
  all_goals omega

theorem unplaced_skipWhere : Unplaced skipWhere := by
  intro s t hst
  have hend := whereEnd_alike hst.cells
  unfold skipWhere
  rw [hst.cells.isAt]
  split
  · generalize whereEnd s.cells = x at hend ⊢
    generalize whereEnd t.cells = y at hend ⊢
    cases hend with
    | ok h => exact .ok rfl ⟨h, hst.notices⟩
    | error h => exact .error h hst.notices
  · exact .ok rfl hst

theorem typeParts_alike (stops : List String) (depth : Int) {cs ds : List Cell} (h : CellsAlike cs ds) :
    (typeParts stops depth cs).1 = (typeParts stops depth ds).1 ∧
      CellsAlike (typeParts stops depth cs).2 (typeParts stops depth ds).2 := by
  induction cs generalizing ds depth with
  | nil =>
    rw [h.nil_right]
    exact ⟨rfl, rfl⟩
  | cons c r ih =>
    obtain ⟨d, u, rfl, hd, hu⟩ := h.exists_cons
    have hstop : isStop stops c.token = isStop stops d.token := by
      rw [isStop, isStop, Cell.kind_of_mark hd, Cell.text_of_mark hd]
    rw [typeParts, typeParts, hstop, Cell.text_of_mark hd]
    split
    · exact ⟨rfl, h⟩
    · exact ⟨congrArg (_ :: ·) (ih _ hu).1, (ih _ hu).2⟩

theorem unplaced_readType (stops : List String) (what : String) : Unplaced (readType stops what) := by
  intro s t hst
  obtain ⟨hparts, hrest⟩ := typeParts_alike stops 0 hst.cells
  simp only [readType, hparts]
  split
  · exact .error rfl hst.notices
  · exact .ok rfl ⟨hrest, hst.notices⟩

theorem unplaced_skipMacroBody : Unplaced skipMacroBody := by
  refine Alike.bind alike_cells fun cs ds hcs => ?_
  cases cs with
  | nil =>
    rw [hcs.nil_right]
    exact alike_failHere _
  | cons c r =>
    obtain ⟨d, u, rfl, hd, -⟩ := hcs.exists_cons
    dsimp only [List.head?]
    refine .ite (by rw [Cell.text_of_mark hd]) (.group fun _ _ _ => ?_) (alike_failHere _)
    exact .at unplaced_skip (.pure rfl)

theorem unplaced_skipMacro : Unplaced skipMacro := by
  refine Unplaced.bind unplaced_skip fun _ => Unplaced.bind unplaced_skip fun _ => ?_
  refine Alike.bind alike_cells fun cs ds hcs => ?_
  have hhead : cs.head?.map (fun c => c.token.kind) = ds.head?.map (fun c => c.token.kind) := by
    cases cs with
    | nil => rw [hcs.nil_right]
    | cons c r =>
      obtain ⟨d, u, rfl, hd, -⟩ := hcs.exists_cons
      exact congrArg some (Cell.kind_of_mark hd)
  rw [hhead]
  exact .ite Iff.rfl (Unplaced.bind unplaced_skip fun _ => unplaced_skipMacroBody) unplaced_skipMacroBody

end Read
end RingBridge.Source
