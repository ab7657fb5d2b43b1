import RingBridge.Command.Failure
import RingBridge.Proofs.Source.Broken
import RingBridge.Proofs.Source.Complete
import RingBridge.Proofs.Source.Matching
/-!
Where a reading fails. Steps report the line of a token that is left, of one they took, or of the last one of a range or
a group. So a failure is on the line of a token; or else the text is not cut into tokens, and the failure is on the line
where a comment or a literal starts that is broken.
-/
namespace RingBridge.Source

variable {L : Nat → Prop}

structure Cursor.Lines (L : Nat → Prop) (s : Cursor) : Prop where
  tokens : ∀ c ∈ s.cells, L c.token.line
  last : L s.lastLine

namespace Cursor.Lines
variable {s t : Cursor}

theorem line (h : s.Lines L) : L s.line := by
  unfold Cursor.line
  split
  · next c r hcells => exact h.tokens c (hcells ▸ List.mem_cons_self)
  · exact h.last

theorem suffix (h : s.Lines L) (hcells : t.cells <:+ s.cells) (hlast : t.lastLine = s.lastLine) : t.Lines L :=
  ⟨fun c hc => h.tokens c (hcells.subset hc), hlast ▸ h.last⟩

/-- The inside of a group. An empty one has the line of the token that opens it. -/
theorem inner {c : Cell} {r : List Cell} (hc : L c.token.line) (hr : ∀ d ∈ r, L d.token.line) (n : Nat)
    (notices : List Notice) : Lines L ⟨r.take n, ((r.take n).getLast?.getD c).token.line, notices⟩ := by
  refine ⟨fun d hd => hr d (List.mem_of_mem_take hd), ?_⟩
  show L ((r.take n).getLast?.getD c).token.line
  cases hlast : (r.take n).getLast? with
  | none => exact hc
  | some d => exact hr d (List.mem_of_mem_take (List.mem_of_getLast? hlast))

end Cursor.Lines

def Fault.On (L : Nat → Prop) : Fault → Prop
  | error _ line => L line
  | noGroup => True
  | nothingLeft => True

namespace Read
variable {α β : Type} {P : α → Prop} {Q : β → Prop} {m n : Read α} {f : α → Read β}

/-- From a range with lines among some, the step leads to such a range and to a value of a kind, or it reports one of
    these lines. -/
def Located (L : Nat → Prop) (m : Read α) (P : α → Prop) : Prop :=
  ∀ s : Cursor, s.Lines L →
    match m s with
    | .ok a t => P a ∧ t.Lines L
    | .error fault _ => fault.On L

namespace Located

theorem bind (hm : Located L m P) (hf : ∀ a, P a → Located L (f a) Q) : Located L (m >>= f) Q := by
  intro s hs
  have hfirst := hm s hs
  simp only [Bind.bind, EStateM.bind]
  cases e : m s with
  | ok a t =>
    rw [e] at hfirst
    exact hf a hfirst.1 t hfirst.2
  | error fault t =>
    rw [e] at hfirst
    exact hfirst

theorem pure {a : α} (h : P a) : Located L (Pure.pure a) P := fun _ hs => ⟨h, hs⟩

theorem ite {c : Prop} [Decidable c] (hm : Located L m P) (hn : Located L n P) : Located L (if c then m else n) P := by
  split <;> assumption

theorem within {inner : Cursor} (hinner : inner.Lines L) (hm : Located L m P) : Located L (within inner m) P := by
  intro s hs
  have hrun := hm inner hinner
  unfold Read.within
  cases e : m inner with
  | ok a t =>
    rw [e] at hrun
    exact ⟨hrun.1, hs⟩
  | error fault t =>
    rw [e] at hrun
    exact hrun

theorem collect {step : Bool → Read (Option α)} {h : ∀ first, Advances (step first)}
    (hstep : ∀ first, Located L (step first) fun _ => True) (first : Bool) :
    Located L (collect step h first) fun _ => True := by
  intro s hs
  fun_induction Read.collect step h first s with
  | case1 => exact ⟨trivial, hs⟩
  | case2 first s c r hc fault t e =>
    have hrun := hstep first s hs
    rw [e] at hrun
    exact hrun
  | case3 first s c r hc t e =>
    have hrun := hstep first s hs
    rw [e] at hrun
    exact hrun
  | case4 first s c r hc a t e fault u hu ih =>
    have hrun := hstep first s hs
    rw [e] at hrun
    have hrest := ih hrun.2
    rw [hu] at hrest
    exact hrest
  | case5 first s c r hc a t e as u hu ih =>
    have hrun := hstep first s hs
    rw [e] at hrun
    have hrest := ih hrun.2
    rw [hu] at hrest
    exact hrest

end Located

theorem located_fail {cause : Cause} {line : Nat} (h : L line) : Located L (fail (.error cause line)) P := fun _ _ => h

theorem located_failHere (cause : Cause) : Located L (failHere cause) P := fun _ hs => hs.line

theorem located_cells : Located L cells fun cs => ∀ c ∈ cs, L c.token.line := fun _ hs => ⟨hs.tokens, hs⟩

theorem located_at (text : String) (offset : Nat) : Located L (at_ text offset) fun _ => True :=
  fun _ hs => ⟨trivial, hs⟩

theorem located_atEnd : Located L atEnd fun _ => True := fun _ hs => ⟨trivial, hs⟩

theorem located_note (n : Notice) : Located L (note n) fun _ => True :=
  fun _ hs => ⟨trivial, hs.suffix (List.suffix_refl _) rfl⟩

theorem located_skip : Located L skip fun _ => True := fun _ hs => ⟨trivial, hs.suffix (List.tail_suffix _) rfl⟩

theorem located_seekFn : Located L seekFn fun _ => True :=
  fun _ hs => ⟨trivial, hs.suffix (List.dropWhile_suffix _) rfl⟩

/-- A step that takes the next token, or else fails where it stands. -/
theorem located_taking {m : Read Token} (h : ∀ s, (∃ cause, m s = .error (.error cause s.line) s) ∨
    ∃ c r, s.cells = c :: r ∧ m s = .ok c.token { s with cells := r }) : Located L m fun t => L t.line := by
  intro s hs
  obtain ⟨cause, e⟩ | ⟨c, r, hcells, e⟩ := h s
  · rw [e]
    exact hs.line
  · rw [e]
    exact ⟨hs.tokens c (hcells ▸ List.mem_cons_self), hs.suffix (hcells ▸ List.suffix_cons c r) rfl⟩

theorem located_next : Located L next fun t => L t.line := by
  refine located_taking fun s => ?_
  unfold next
  split
  · next c r hcells => exact .inr ⟨c, r, hcells, rfl⟩
  · next hcells => exact .inl ⟨_, by rw [Cursor.line, hcells]⟩

theorem located_expect (text : String) : Located L (expect text) fun t => L t.line := by
  refine located_taking fun s => ?_
  unfold expect
  split
  · next c r hcells =>
    split
    · exact .inr ⟨c, r, hcells, rfl⟩
    · exact .inl ⟨_, rfl⟩
  · exact .inl ⟨_, rfl⟩

theorem located_expectIdent (what : String) : Located L (expectIdent what) fun t => L t.line := by
  refine located_taking fun s => ?_
  unfold expectIdent
  split
  · next c r hcells =>
    split
    · exact .inr ⟨c, r, hcells, rfl⟩
    · exact .inl ⟨_, rfl⟩
  · exact .inl ⟨_, rfl⟩

theorem located_skipGroup : Located L skipGroup (Cursor.Lines L) := by
  intro s hs
  unfold skipGroup
  cases hcells : s.cells with
  | nil => trivial
  | cons c r =>
    have hc : L c.token.line := hs.tokens c (hcells ▸ List.mem_cons_self)
    have hr : ∀ d ∈ r, L d.token.line := fun d hd => hs.tokens d (hcells ▸ List.mem_cons_of_mem c hd)
    cases hinside : c.inside with
    | none =>
      simp only [hinside]
      trivial
    | some n =>
      simp only [hinside]
      have hrest : r.drop (n + 1) <:+ s.cells := hcells ▸ (List.drop_suffix _ r).trans (List.suffix_cons c r)
      exact ⟨.inner hc hr n [], hs.suffix hrest rfl⟩

theorem itemEnd_noGroup {cs : List Cell} {fault : Fault} (h : itemEnd cs = .error fault) : fault = .noGroup := by
  fun_induction itemEnd cs with
  | case1 => cases h
  | case2 => cases h
  | case3 _ _ _ _ _ ih => exact ih h
  | case4 =>
    cases h
    rfl
  | case5 => cases h
  | case6 _ _ _ _ _ ih => exact ih h

theorem whereEnd_noGroup {cs : List Cell} {fault : Fault} (h : whereEnd cs = .error fault) : fault = .noGroup := by
  fun_induction whereEnd cs with
  | case1 => cases h
  | case2 => cases h
  | case3 _ _ _ _ _ _ ih => exact ih h
  | case4 =>
    cases h
    rfl
  | case5 _ _ _ _ ih => exact ih h

theorem attributeList_on {lastLine : Nat} {cs : List Cell} {fault : Fault} (hcs : ∀ c ∈ cs, L c.token.line)
    (hlast : L lastLine) (h : attributeList lastLine cs = .error fault) : fault.On L := by
  fun_induction attributeList lastLine cs with
  | case1 => cases h
  | case2 => cases h
  | case3 c r _ fault' hr ih =>
    cases h
    exact ih (fun d hd => hcs d (List.mem_cons_of_mem c hd)) hr
  | case4 =>
    cases h
    exact hlast
  | case5 c r _ _ b t hb _ n _ ih =>
    have hr : b :: t <:+ r := hb ▸ suffix_afterBang r
    have ht : t.drop (n + 1) <:+ r := (List.drop_suffix _ t).trans ((List.suffix_cons b t).trans hr)
    exact ih (fun d hd => hcs d (List.mem_cons_of_mem c (ht.subset hd))) h
  | case6 =>
    cases h
    trivial
  | case7 c r _ _ b t hb =>
    cases h
    exact hcs b (List.mem_cons_of_mem c ((suffix_afterBang r).subset (hb ▸ List.mem_cons_self)))
  | case8 => cases h

theorem located_skipAngles : Located L skipAngles fun _ => True := by
  intro s hs
  unfold skipAngles
  cases hend : anglesEnd? 0 s.cells with
  | none => exact hs.line
  | some r => exact ⟨trivial, hs.suffix (suffix_anglesEnd hend).1 rfl⟩

theorem located_skipStatement : Located L skipStatement fun _ => True := by
  intro s hs
  unfold skipStatement
  cases hend : statementEnd? s.cells with
  | none => exact hs.last
  | some r => exact ⟨trivial, hs.suffix (suffix_statementEnd hend).1 rfl⟩

theorem located_skipItem : Located L skipItem fun _ => True := by
  intro s hs
  unfold skipItem
  cases hend : itemEnd s.cells with
  | error fault =>
    rw [itemEnd_noGroup hend]
    trivial
  | ok r => exact ⟨trivial, hs.suffix (suffix_itemEnd hend).1 rfl⟩

theorem located_skipWhere : Located L skipWhere fun _ => True := by
  intro s hs
  unfold skipWhere
  cases hwhere : isAt s.cells "where" with
  | false => exact ⟨trivial, hs⟩
  | true =>
    cases hend : whereEnd s.cells with
    | error fault =>
      rw [whereEnd_noGroup hend]
      trivial
    | ok r => exact ⟨trivial, hs.suffix (suffix_whereEnd hend) rfl⟩

theorem located_readType (stops : List String) (what : String) : Located L (readType stops what) fun _ => True := by
  intro s hs
  simp only [readType]
  cases (typeParts stops 0 s.cells).1.isEmpty with
  | true => exact hs.line
  | false => exact ⟨trivial, hs.suffix (suffix_typeParts stops 0 s.cells) rfl⟩

theorem located_attributes : Located L attributes fun _ => True := by
  intro s hs
  unfold attributes
  cases hlist : attributeList s.lastLine s.cells with
  | error fault => exact attributeList_on hs.tokens hs.last hlist
  | ok p => exact ⟨trivial, hs.suffix (suffix_attributeList hlist) rfl⟩

theorem located_paramTokens : Located L paramTokens fun ts => ∀ t ∈ ts, L t.line := by
  intro s hs
  refine ⟨fun t ht => ?_, hs.suffix (suffix_paramCut 0 s.cells).1 rfl⟩
  obtain ⟨front, rest, hcells, hfront, -⟩ := exists_of_paramCut 0 s.cells
  obtain ⟨c, hc, rfl⟩ := List.mem_map.1 (hfront ▸ ht)
  exact hs.tokens c (hcells ▸ List.mem_append_left rest hc)

theorem located_optional (text : String) : Located L (optional text) fun _ => True :=
  .bind (located_at _ _) fun _ _ => .ite located_skip (.pure trivial)

theorem located_generics : Located L generics fun _ => True :=
  .bind (located_at _ _) fun _ _ => .ite located_skipAngles (.pure trivial)

theorem located_visibility : Located L visibility fun _ => True := by
  refine .bind (located_at _ _) fun _ _ => .ite (.bind located_skip fun _ _ => ?_) (.pure trivial)
  exact .bind (located_at _ _) fun _ _ => .ite (.bind located_skipGroup fun _ _ => .pure trivial) (.pure trivial)

theorem located_skipMacroBody : Located L skipMacroBody fun _ => True := by
  refine .bind located_cells fun cs _ => ?_
  split
  · refine .ite (.bind located_skipGroup fun _ _ => ?_) (located_failHere _)
    exact .bind (located_at _ _) fun _ _ => .ite located_skip (.pure trivial)
  · exact located_failHere _

theorem located_skipMacro : Located L skipMacro fun _ => True := by
  refine .bind located_skip fun _ _ => .bind located_skip fun _ _ => .bind located_cells fun _ _ => ?_
  split
  · exact .bind located_skip fun _ _ => located_skipMacroBody
  · exact located_skipMacroBody

theorem located_field : Located L field fun _ => True := by
  refine .bind located_attributes fun _ _ => .bind located_atEnd fun _ _ => .ite (.pure trivial) ?_
  refine .bind located_visibility fun _ _ => .bind (located_expectIdent _) fun _ _ => ?_
  refine .bind (located_expect _) fun _ _ => .bind (located_readType _ _) fun _ _ => ?_
  exact .bind (located_optional _) fun _ _ => .pure trivial

theorem located_structBody : Located L structBody fun _ => True := by
  refine .bind (located_at _ _) fun _ _ => .ite ?_ (.bind (located_at _ _) fun _ _ => .ite ?_ ?_)
  · exact .bind located_skipGroup fun inner hinner => .within hinner (.collect (fun _ => located_field) true)
  · refine .bind located_skipGroup fun _ _ => .bind located_skipWhere fun _ _ => ?_
    exact .bind (located_expect _) fun _ _ => .pure trivial
  · exact .bind (located_expect _) fun _ _ => .pure trivial

theorem located_struct (isPublic : Bool) (docs : List String) : Located L (struct isPublic docs) fun _ => True := by
  refine .bind (located_expect _) fun _ _ => .bind (located_expectIdent _) fun _ _ => .bind located_generics fun _ _ => ?_
  exact .bind located_skipWhere fun _ _ => .bind located_structBody fun _ _ => .pure trivial

theorem located_param (first : Bool) : Located L (param first) fun _ => True := by
  refine .bind located_attributes fun _ _ => .bind located_paramTokens fun ts hts => ?_
  split
  · exact .pure trivial
  · next t _ =>
    split
    · exact .pure trivial
    · exact located_fail (hts t List.mem_cons_self)

theorem located_paramGroup (name : String) : Located L (paramGroup name) fun _ => True := by
  refine .bind (located_at _ _) fun _ _ => .ite (.bind located_skipGroup fun inner hinner => ?_) (located_failHere _)
  exact .within hinner (.collect located_param true)

theorem located_result (name : String) : Located L (result name) fun _ => True := by
  refine .bind (located_at _ _) fun _ _ => .ite (.bind located_skip fun _ _ => ?_) (.pure trivial)
  exact .bind (located_readType _ _) fun _ _ => .pure trivial

theorem located_functionBody : Located L functionBody fun _ => True :=
  .bind (located_at _ _) fun _ _ => .ite (.bind located_skipGroup fun _ _ => .pure trivial)
    (.bind (located_expect _) fun _ _ => .pure trivial)

theorem located_function (isPublic : Bool) (docs : List String) : Located L (function isPublic docs) fun _ => True := by
  refine .bind located_seekFn fun _ _ => .bind (located_expect _) fun _ _ => .bind (located_expectIdent _) fun _ _ => ?_
  refine .bind located_generics fun _ _ => .bind (located_paramGroup _) fun _ _ => .bind (located_result _) fun _ _ => ?_
  exact .bind located_skipWhere fun _ _ => .bind located_functionBody fun _ _ => .pure trivial

theorem located_member (isPublic : Bool) (docs : List String) : Located L (member isPublic docs) fun _ => True := by
  refine .bind located_cells fun cs hcs => .ite (.bind (located_function _ _) fun _ _ => .pure trivial) ?_
  split
  · exact fun _ _ => trivial
  · next c _ =>
    refine .ite (.bind located_skipStatement fun _ _ => .pure trivial) (.ite ?_ ?_)
    · exact .bind located_skipMacro fun _ _ => .pure trivial
    · exact located_fail (hcs c List.mem_cons_self)

theorem located_method : Located L method fun _ => True := by
  refine .bind located_attributes fun _ _ => .bind located_atEnd fun _ _ => .ite (.pure trivial) ?_
  exact .bind located_visibility fun _ _ => .bind (located_member _ _) fun _ _ => .pure trivial

theorem located_implBody : Located L implBody (Cursor.Lines L) :=
  .bind (located_at _ _) fun _ _ => .ite located_skipGroup (located_failHere _)

theorem located_traitImpl (trait : String) : Located L (traitImpl trait) fun _ => True := by
  refine .bind located_skip fun _ _ => .bind (located_readType _ _) fun _ _ => .bind located_skipWhere fun _ _ => ?_
  exact .bind located_implBody fun _ _ => .bind (located_note _) fun _ _ => .pure trivial

theorem located_inherentImpl {line : Nat} (hline : L line) (type : String) :
    Located L (inherentImpl line type) fun _ => True := by
  refine .bind located_skipWhere fun _ _ => .bind located_implBody fun inner hinner => .ite (located_fail hline) ?_
  exact .bind (.within hinner (.collect (fun _ => located_method) true)) fun _ _ => .pure trivial

theorem located_impl : Located L impl fun _ => True := by
  refine .bind (located_optional _) fun _ _ => .bind (located_expect _) fun keyword hkeyword => ?_
  refine .bind located_generics fun _ _ => .bind (located_optional _) fun _ _ => ?_
  refine .bind (located_readType _ _) fun _ _ => .bind (located_at _ _) fun _ _ => ?_
  exact .ite (located_traitImpl _) (located_inherentImpl hkeyword _)

theorem located_noteAll (n : Option Notice) : Located L (noteAll n) fun _ => True := by
  cases n with
  | none => exact .pure trivial
  | some n => exact located_note n

theorem located_itemBody (isPublic : Bool) (docs : List String) {c : Cell} (hc : L c.token.line) (cs : List Cell) :
    Located L (itemBody isPublic docs c cs) fun _ => True := by
  unfold itemBody
  split
  · exact .bind (located_struct _ _) fun _ _ => .pure trivial
  · exact .bind located_impl fun _ _ => .pure trivial
  · exact .bind (located_function _ _) fun _ _ => .pure trivial
  · exact .bind located_skipStatement fun _ _ => .pure trivial
  · exact .bind (located_noteAll _) fun _ _ => .bind located_skipItem fun _ _ => .pure trivial
  · exact .bind located_skipMacro fun _ _ => .pure trivial
  · exact located_fail hc

theorem located_item : Located L item fun _ => True := by
  refine .bind (P := fun _ => True) ?_ fun h _ => .bind located_atEnd fun _ _ => .ite (.pure trivial) ?_
  · exact .bind located_attributes fun _ _ => .bind located_visibility fun _ _ => .pure trivial
  · refine .bind located_cells fun cs hcs => ?_
    cases cs with
    | nil => exact .pure trivial
    | cons c r => exact .bind (located_itemBody _ _ (hcs c List.mem_cons_self) _) fun _ _ => .pure trivial

theorem located_prefixDirective : Located L prefixDirective fun _ => True := by
  refine .bind (located_expect _) fun _ _ => .bind (located_expect _) fun _ _ => .bind located_next fun t ht => ?_
  exact .ite (.bind (located_expect _) fun _ _ => .pure trivial) (located_fail ht)

theorem located_file : Located L file fun _ => True := by
  refine .collect (fun _ => .bind (P := fun _ => True) ?_ fun _ _ => .pure trivial) true
  exact .bind located_cells fun _ _ => .ite located_prefixDirective located_item

end Read

def LineOf (ts : List Token) (line : Nat) : Prop := (∃ t ∈ ts, t.line = line) ∨ ts = [] ∧ line = 1

theorem line_of_mem {line : Nat} {cs : List Char} {ts : List Token} (h : tokensFrom line cs = .ok ts) {t : Token}
    (ht : t ∈ ts) : line ≤ t.line ∧ t.line ≤ line + cs.count '\n' := by
  fun_induction tokensFrom line cs generalizing ts with
  | case1 =>
    cases h
    cases ht
  | case2 => cases h
  | case3 => cases h
  | case4 line c r l hl us hrest ih =>
    cases h
    rw [← (starts_lexeme hl).append, List.count_append]
    obtain ht | ht := List.mem_append.1 ht
    · obtain ⟨k, -, rfl⟩ := Option.map_eq_some_iff.1 (Option.mem_toList.1 ht)
      exact ⟨Nat.le_refl _, Nat.le_add_right _ _⟩
    · have hline := ih hrest ht
      omega

theorem exists_token_of_groupError {ts : List Token} {e : GroupError} (h : cells ts = .error e) :
    ∃ t ∈ ts, t.line = e.line := by
  have hgrouping := grouping_groups ts
  unfold cells at h
  split at h
  · cases h
  · next hgroups =>
    cases h
    rw [hgroups] at hgrouping
    obtain ⟨⟨k, hline, -⟩, -⟩ := hgrouping
    obtain ⟨t, ht, hline⟩ := Option.map_eq_some_iff.1 hline
    exact ⟨t, List.mem_of_getElem? ht, hline⟩

theorem lines_of_extension {notices : List Notice} {cs : List Cell} {s : Cursor} (hcs : ∀ c ∈ cs, L c.token.line)
    (h : extension? notices cs = some (.ok s)) : s.Lines L := by
  fun_induction extension? notices cs with
  | case1 c b o r _ n hn =>
    cases h
    exact .inner (hcs o (by simp)) (fun d hd => hcs d (by simp [hd])) n notices
  | case2 => cases h
  | case3 c b o r _ ih => exact ih (fun d hd => hcs d (List.mem_cons_of_mem c hd)) h
  | case4 => cases h

theorem lines_readingRange {cs : List Cell} {s : Cursor} (h : readingRange cs = .ok s) :
    s.Lines (LineOf (cs.map Cell.token)) := by
  have hmem : ∀ c ∈ cs, LineOf (cs.map Cell.token) c.token.line :=
    fun c hc => .inl ⟨c.token, List.mem_map_of_mem hc, rfl⟩
  rw [readingRange, Option.getD_eq_iff] at h
  obtain hext | ⟨-, hall⟩ := h
  · exact lines_of_extension hmem hext
  · cases hall
    refine ⟨hmem, ?_⟩
    show LineOf _ ((cs.getLast?.map fun c => c.token.line).getD 1)
    cases hlast : cs.getLast? with
    | none => exact .inr ⟨by rw [List.getLast?_eq_none_iff.1 hlast, List.map_nil], rfl⟩
    | some c => exact hmem c (List.mem_of_getLast? hlast)

theorem extension_noGroup {notices : List Notice} {cs : List Cell} {fault : Fault}
    (h : extension? notices cs = some (.error fault)) : fault = .noGroup := by
  fun_induction extension? notices cs with
  | case1 => cases h
  | case2 =>
    cases h
    rfl
  | case3 _ _ _ _ _ ih => exact ih h
  | case4 => cases h

theorem readingRange_noGroup {cs : List Cell} {fault : Fault} (h : readingRange cs = .error fault) :
    fault = .noGroup := by
  rw [readingRange, Option.getD_eq_iff] at h
  obtain hext | ⟨-, hall⟩ := h
  · exact extension_noGroup hext
  · cases hall

theorem readCells_on {moduleName : String} {cs : List Cell} {fault : Fault}
    (h : (readCells moduleName cs).document = .error fault) : fault.On (LineOf (cs.map Cell.token)) := by
  unfold readCells at h
  split at h
  · next hrange =>
    cases h
    rw [readingRange_noGroup hrange]
    trivial
  · next s hrange =>
    have hfile := Read.located_file s (lines_readingRange hrange)
    split at h
    · cases h
    · next hrun =>
      cases h
      rw [hrun] at hfile
      exact hfile

/-- What a line in the report of a failure stands for: a token of the text; the start of a text that has no tokens; or,
    for a text that is not cut into tokens, the place behind some lexemes where a comment or a literal is broken. -/
inductive PointsInto (text : String) : Cause → Nat → Prop
  | token {ts : List Token} {t : Token} (cause : Cause) (hts : tokenize text = .ok ts) (ht : t ∈ ts) :
    PointsInto text cause t.line
  | empty (cause : Cause) (hts : tokenize text = .ok []) : PointsInto text cause 1
  | broken {front back : List Char} {cause : LexCause} (htext : text.toList = front ++ back) (hfront : Lexed front back)
    (hback : Broken cause back) : PointsInto text (.lex cause) (1 + front.count '\n')

theorem LineOf.pointsInto {text : String} {ts : List Token} {line : Nat} (hts : tokenize text = .ok ts)
    (h : LineOf ts line) (cause : Cause) : PointsInto text cause line := by
  obtain ⟨t, ht, rfl⟩ | ⟨rfl, rfl⟩ := h
  · exact .token cause hts ht
  · exact .empty cause hts

theorem PointsInto.range {text : String} {cause : Cause} {line : Nat} (h : PointsInto text cause line) :
    1 ≤ line ∧ line ≤ 1 + text.toList.count '\n' := by
  cases h with
  | token _ hts ht => exact line_of_mem hts ht
  | empty => exact ⟨Nat.le_refl _, Nat.le_add_right _ _⟩
  | broken htext =>
    rw [htext, List.count_append]
    omega

theorem pointsInto_of_readSource {text moduleName : String} {cause : Cause} {line : Nat}
    (h : (readSource text moduleName).document = .error (.error cause line)) : PointsInto text cause line := by
  unfold readSource cellsOf at h
  cases htokens : tokenize text with
  | error e =>
    rw [htokens] at h
    cases h
    obtain ⟨front, back, heq, hlexed, hline, hbroken⟩ := exists_broken htokens
    exact hline ▸ .broken heq hlexed hbroken
  | ok ts =>
    rw [htokens] at h
    cases hcells : cells ts with
    | error e =>
      simp only [hcells] at h
      cases h
      obtain ⟨t, ht, hline⟩ := exists_token_of_groupError hcells
      exact hline ▸ .token _ htokens ht
    | ok cs =>
      simp only [hcells] at h
      obtain ⟨-, -, rfl⟩ := Balanced.exists_of_cells hcells
      exact (readCells_on h).pointsInto htokens cause

/-- A failed reading that is reported is reported with a line, which points into the text and is one of its lines. -/
theorem readSource_located {text moduleName : String} {fault : Fault} {report : Report}
    (h : (readSource text moduleName).document = .error fault) (hreport : (Failure.source fault).report? = some report) :
    ∃ cause line, fault = .error cause line ∧ report = ⟨cause.message, some line⟩ ∧ PointsInto text cause line ∧
      1 ≤ line ∧ line ≤ 1 + text.toList.count '\n' := by
  cases fault with
  | error cause line =>
    cases hreport
    have hpoints := pointsInto_of_readSource h
    exact ⟨cause, line, rfl, rfl, hpoints, hpoints.range⟩
  | noGroup => cases hreport
  | nothingLeft => cases hreport

theorem eq_error_of_beq {α : Type} {x : Except Fault α} {fault : Fault}
    (h : (match x with | .ok _ => false | .error f => f == fault) = true) : x = .error fault := by
  cases x with
  | ok a => cases h
  | error f => exact congrArg _ (beq_iff_eq.1 h)

/-- A type is missing at the end of a group, and a comment in a comment is not closed. -/
theorem readSource_located_nested :
    (∃ cause line, Fault.error (.missing "type of field x") 2 = .error cause line ∧
      (⟨"expected type of field x", some 2⟩ : Report) = ⟨cause.message, some line⟩ ∧
      PointsInto "struct A \x7b\n x:\n\n\x7d" cause line ∧
      1 ≤ line ∧ line ≤ 1 + "struct A \x7b\n x:\n\n\x7d".toList.count '\n') ∧
    ∃ cause line, Fault.error (.lex .blockComment) 2 = .error cause line ∧
      (⟨"unterminated block comment", some 2⟩ : Report) = ⟨cause.message, some line⟩ ∧
      PointsInto "fn f\n/* /*\n*/" cause line ∧
      1 ≤ line ∧ line ≤ 1 + "fn f\n/* /*\n*/".toList.count '\n' := by
  have hfield : (readSource "struct A \x7b\n x:\n\n\x7d").document = .error (.error (.missing "type of field x") 2) :=
    eq_error_of_beq (by decide +kernel)
  have hcomment : (readSource "fn f\n/* /*\n*/").document = .error (.error (.lex .blockComment) 2) :=
    eq_error_of_beq (by decide +kernel)
  exact ⟨readSource_located hfield rfl, readSource_located hcomment rfl⟩

end RingBridge.Source
