import RingBridge.Proofs.Source.Grouped
import RingBridge.Proofs.Source.Reads
/-!
How a reading can fail. It ends in a fault that is not reported in two cases only: a doc comment whose text is an
opening delimiter is stepped over as if it opened a group, or the body of an impl ends behind a visibility.
-/
namespace RingBridge.Source

def IsVisibility (ws : List Word) : Prop :=
  ∃ w : Word, w.isNamed "pub" = true ∧
    (ws = [w] ∨ ∃ b : Balanced, ws = w :: .opening .paren :: (b.words ++ [.closing .paren]))

def HasBareVisibility (ws : List Word) : Prop :=
  ∃ front vis back, IsVisibility vis ∧ ws = front ++ vis ++ .closing .brace :: back

theorem HasBareVisibility.of_infix {ws us : List Word} (h : HasBareVisibility us) (hi : us <:+: ws) :
    HasBareVisibility ws := by
  obtain ⟨front, vis, back, hvis, rfl⟩ := h
  obtain ⟨before, after, rfl⟩ := hi
  exact ⟨before ++ front, vis, back ++ after, hvis, by simp⟩

/-- Reported, or due to one of two causes: `fake` says that a doc comment looks like an opening delimiter, and `bare` that
    a closing brace stands right behind a visibility. -/
def Fault.IsDueTo (fake bare : Prop) : Fault → Prop
  | error _ _ => True
  | noGroup => fake
  | nothingLeft => bare

/-- A range in which the two causes are not met, unless they hold. -/
structure Sound (fake bare : Prop) (ms : List Mark) : Prop where
  grouped : Grouped ms
  openings : fake ∨ ∀ m ∈ ms, isOpeningText m.word.text = true → m.inside ≠ none
  bodies : bare ∨ ¬ HasBareVisibility (ms.map Mark.word)

structure SoundBody (fake bare : Prop) (ms : List Mark) : Prop extends Sound fake bare ms where
  ends : bare ∨ ∀ vis, vis <:+ ms → ¬ IsVisibility (vis.map Mark.word)

variable {fake bare : Prop} {ms ns : List Mark}

theorem Sound.suffix (h : Sound fake bare ms) (hs : ns <:+ ms) : Sound fake bare ns where
  grouped := h.grouped.suffix hs
  openings := h.openings.imp_right fun ho m hm => ho m (hs.subset hm)
  bodies := h.bodies.imp_right fun hb hv => hb (hv.of_infix (hs.map _).isInfix)

theorem SoundBody.suffix (h : SoundBody fake bare ms) (hs : ns <:+ ms) : SoundBody fake bare ns where
  toSound := h.toSound.suffix hs
  ends := h.ends.imp_right fun he vis hv => he vis (hv.trans hs)

/-- The inside of a group. -/
theorem Sound.inner {m c : Mark} {inner : Balanced} {rest : List Mark}
    (h : Sound fake bare (m :: (inner.marks ++ c :: rest))) : Sound fake bare inner.marks where
  grouped := inner.grouped
  openings := h.openings.imp_right fun ho n hn => ho n (by simp [hn])
  bodies := by
    refine h.bodies.imp_right fun hb hv => hb (hv.of_infix ?_)
    exact ⟨[m.word], (c :: rest).map Mark.word, by simp⟩

/-- The inside of braces is the body of an impl, or could be. -/
theorem Sound.body {m : Mark} {inner : Balanced} {rest : List Mark}
    (h : Sound fake bare (m :: (inner.marks ++ ⟨.closing .brace, none⟩ :: rest))) : SoundBody fake bare inner.marks where
  toSound := h.inner
  ends := by
    refine h.bodies.imp_right fun hb vis hvis hv => ?_
    obtain ⟨front, hfront⟩ := hvis
    refine hb ⟨m.word :: front.map Mark.word, vis.map Mark.word, rest.map Mark.word, hv, ?_⟩
    rw [← hfront]
    simp

theorem Delimiter.eq_of_opening {d d' : Delimiter} (h : d.opening = d'.opening) : d = d' := by
  cases d <;> cases d' <;> first | rfl | exact absurd h (by decide)

namespace Read
variable {α β : Type}

def FailsAt (fake bare : Prop) (m : Read α) (s : Cursor) : Prop := ∀ f t, m s = .error f t → f.IsDueTo fake bare

def FailsOn (fake bare : Prop) (I : List Mark → Prop) (m : Read α) : Prop := ∀ s : Cursor, I s.marks → FailsAt fake bare m s

abbrev Reports (fake bare : Prop) (m : Read α) : Prop := FailsOn fake bare (Sound fake bare) m

variable {m : Read α} {f : α → Read β} {s t : Cursor}

theorem Keeps.marks_ok (h : Keeps m) {a : α} (e : m s = .ok a t) : t.marks <:+ s.marks := (h.ok e).map _

theorem FailsAt.bind (hm : FailsAt fake bare m s) (hf : ∀ a t, m s = .ok a t → FailsAt fake bare (f a) t) :
    FailsAt fake bare (m >>= f) s := by
  intro g u e
  simp only [Bind.bind, EStateM.bind] at e
  cases em : m s with
  | error g' t' =>
    rw [em] at e
    cases e
    exact hm _ _ em
  | ok a t' =>
    rw [em] at e
    exact hf a t' em g u e

theorem Reports.bind (hk : Keeps m) (hm : Reports fake bare m) (hf : ∀ a, Reports fake bare (f a)) :
    Reports fake bare (m >>= f) :=
  fun s hs => (hm s hs).bind fun a _ e => hf a _ (hs.suffix (hk.marks_ok e))

theorem FailsAt.of_ok (h : ∃ a t, m s = .ok a t) : FailsAt fake bare m s := by
  intro f t e
  obtain ⟨a, u, h⟩ := h
  rw [h] at e
  cases e

theorem Reports.of_ok (h : ∀ s, ∃ a t, m s = .ok a t) : Reports fake bare m := fun s _ => FailsAt.of_ok (h s)

theorem Reports.of_error (h : ∀ s g t, m s = .error g t → ∃ cause line, g = .error cause line) : Reports fake bare m := by
  intro s _ g t e
  obtain ⟨cause, line, rfl⟩ := h s g t e
  trivial

theorem Reports.pure (a : α) : Reports fake bare (Pure.pure a) := .of_ok fun s => ⟨a, s, rfl⟩

theorem Reports.ite {c : Prop} [Decidable c] {m n : Read α} (hm : Reports fake bare m) (hn : Reports fake bare n) :
    Reports fake bare (if c then m else n) := by
  split <;> assumption

theorem reports_at (text : String) (offset : Nat) : Reports fake bare (at_ text offset) := .of_ok fun s => ⟨_, s, rfl⟩
theorem reports_atEnd : Reports fake bare atEnd := .of_ok fun s => ⟨_, s, rfl⟩
theorem reports_cells : Reports fake bare cells := .of_ok fun s => ⟨_, s, rfl⟩
theorem reports_skip : Reports fake bare skip := .of_ok fun _ => ⟨_, _, rfl⟩
theorem reports_note (n : Notice) : Reports fake bare (note n) := .of_ok fun _ => ⟨_, _, rfl⟩
theorem reports_seekFn : Reports fake bare seekFn := .of_ok fun _ => ⟨_, _, rfl⟩
theorem reports_paramTokens : Reports fake bare paramTokens := .of_ok fun _ => ⟨_, _, rfl⟩

theorem reports_failHere (cause : Cause) : Reports fake bare (failHere cause : Read α) :=
  .of_error fun _ _ _ e => by cases e; exact ⟨_, _, rfl⟩

theorem reports_fail (cause : Cause) (line : Nat) : Reports fake bare (fail (.error cause line) : Read α) :=
  .of_error fun _ _ _ e => by cases e; exact ⟨_, _, rfl⟩

theorem reports_next : Reports fake bare next := by
  apply Reports.of_error
  intro s g t e
  unfold next at e
  split at e
  · cases e
  · cases e; exact ⟨_, _, rfl⟩

theorem reports_expect (text : String) : Reports fake bare (expect text) := by
  apply Reports.of_error
  intro s g t e
  unfold expect at e
  split at e
  · split at e
    · cases e
    · cases e; exact ⟨_, _, rfl⟩
  · cases e; exact ⟨_, _, rfl⟩

theorem reports_expectIdent (what : String) : Reports fake bare (expectIdent what) := by
  apply Reports.of_error
  intro s g t e
  unfold expectIdent at e
  split at e
  · split at e
    · cases e
    · cases e; exact ⟨_, _, rfl⟩
  · cases e; exact ⟨_, _, rfl⟩

theorem reports_readType (stops : List String) (what : String) : Reports fake bare (readType stops what) := by
  apply Reports.of_error
  intro s g t e
  simp only [readType] at e
  split at e
  · cases e; exact ⟨_, _, rfl⟩
  · cases e

theorem reports_skipAngles : Reports fake bare skipAngles := by
  apply Reports.of_error
  intro s g t e
  unfold skipAngles at e
  split at e
  · cases e
  · cases e; exact ⟨_, _, rfl⟩

theorem reports_skipStatement : Reports fake bare skipStatement := by
  apply Reports.of_error
  intro s g t e
  unfold skipStatement at e
  split at e
  · cases e
  · cases e; exact ⟨_, _, rfl⟩

/-- A cell of a sound range whose text opens a group has one, unless a doc comment looks like it. -/
theorem inside_of_sound {cs : List Cell} (h : Sound fake bare (cs.map Cell.mark)) {c : Cell} (hc : c ∈ cs)
    (ht : isOpeningText c.token.text = true) : fake ∨ c.inside ≠ none :=
  h.openings.imp_right fun ho => ho c.mark (List.mem_map_of_mem hc) ht

theorem exists_of_isAt {cs : List Cell} {text : String} (h : isAt cs text = true) :
    ∃ c r, cs = c :: r ∧ c.token.isNamed text = true := by
  cases cs with
  | nil => cases h
  | cons c r => exact ⟨c, r, rfl, h⟩

theorem text_of_isNamed {t : Token} {text : String} (h : t.isNamed text = true) : t.text = text := by
  simp only [Token.isNamed, Bool.and_eq_true, beq_iff_eq] at h
  exact h.2

theorem failsAt_skipGroup (hs : Sound fake bare s.marks) {c : Cell} {r : List Cell} (hc : s.cells = c :: r)
    (ht : isOpeningText c.token.text = true) : FailsAt fake bare skipGroup s := by
  intro g u e
  have hmem : c ∈ s.cells := hc ▸ List.mem_cons_self ..
  have hinside := inside_of_sound hs hmem ht
  simp only [skipGroup, hc] at e
  split at e
  · cases e
  · next hn =>
    cases e
    exact hinside.resolve_right fun hne => hne hn

/-- What a step over a group finds. -/
theorem exists_of_skipGroup {i : Cursor} (hs : Grouped s.marks) (e : skipGroup s = .ok i t) :
    ∃ (d : Delimiter) (inner : Balanced), i.marks = inner.marks ∧ s.marks =
      ⟨.opening d, some inner.marks.length⟩ :: (inner.marks ++ ⟨.closing d, none⟩ :: t.marks) := by
  unfold skipGroup at e
  split at e
  · next c r hc =>
    split at e
    · next n hn =>
      cases e
      have hmarks : s.marks = c.mark :: r.map Cell.mark := by rw [Cursor.marks, hc, List.map_cons]
      rw [hmarks] at hs
      have hhead := hs.1
      rw [Mark.Heads, show c.mark.inside = some n from hn] at hhead
      obtain ⟨d, inner, rest, hw, hlen, hr⟩ := hhead
      refine ⟨d, inner, ?_, ?_⟩
      · show (r.take n).map Cell.mark = inner.marks
        rw [List.map_take, hr, hlen, List.take_left]
      · have hrest : (r.drop (n + 1)).map Cell.mark = rest := by
          rw [List.map_drop, hr, hlen, ← List.drop_drop, List.drop_left]
          rfl
        have hopen : c.mark = ⟨.opening d, some inner.marks.length⟩ := by
          rw [← hw, ← hlen, ← hn]
          rfl
        show s.marks = _ :: (inner.marks ++ _ :: (r.drop (n + 1)).map Cell.mark)
        rw [hrest, ← hr, ← hopen, hmarks]
    · cases e
  · cases e

/-- A group that is told by its opening word. -/
theorem exists_of_skipGroup_at {i : Cursor} {d : Delimiter} (hs : Grouped s.marks) (hat : isAt s.cells d.opening = true)
    (e : skipGroup s = .ok i t) : ∃ inner : Balanced, i.marks = inner.marks ∧ s.marks =
      ⟨.opening d, some inner.marks.length⟩ :: (inner.marks ++ ⟨.closing d, none⟩ :: t.marks) := by
  obtain ⟨d', inner, hi, hmarks⟩ := exists_of_skipGroup hs e
  obtain ⟨c, r, hc, hnamed⟩ := exists_of_isAt hat
  have hword : c.mark = ⟨.opening d', some inner.marks.length⟩ := by
    rw [Cursor.marks, hc, List.map_cons] at hmarks
    exact (List.cons.inj hmarks).1
  have htext : d'.opening = d.opening := (congrArg (fun m => m.word.text) hword).symm.trans (text_of_isNamed hnamed)
  obtain rfl := Delimiter.eq_of_opening htext
  exact ⟨inner, hi, hmarks⟩

theorem sound_of_skipGroup {i : Cursor} (hs : Sound fake bare s.marks) (e : skipGroup s = .ok i t) :
    Sound fake bare i.marks := by
  obtain ⟨d, inner, hi, hmarks⟩ := exists_of_skipGroup hs.grouped e
  rw [hmarks] at hs
  exact hi ▸ hs.inner

/-- A step that is told whether a word stands next. -/
theorem Reports.at {text : String} {m n : Read α}
    (hm : ∀ s, Sound fake bare s.marks → isAt s.cells text = true → FailsAt fake bare m s) (hn : Reports fake bare n) :
    Reports fake bare (at_ text >>= fun b => if b = true then m else n) := by
  intro s hs
  refine FailsAt.bind (FailsAt.of_ok ⟨_, s, rfl⟩) fun b t e => ?_
  cases e
  split
  · next hat => exact hm s hs hat
  · exact hn s hs

/-- A step over a group that is there. -/
theorem Reports.atGroup {text : String} (ht : isOpeningText text = true) {k : Cursor → Read α} {n : Read α}
    (hk : ∀ i : Cursor, Sound fake bare i.marks → Reports fake bare (k i)) (hn : Reports fake bare n) :
    Reports fake bare (at_ text >>= fun b => if b = true then skipGroup >>= k else n) := by
  refine Reports.at (fun s hs hat => ?_) hn
  obtain ⟨c, r, hc, hnamed⟩ := exists_of_isAt hat
  rw [← text_of_isNamed hnamed] at ht
  refine (failsAt_skipGroup hs hc ht).bind fun i t e => ?_
  exact hk i (sound_of_skipGroup hs e) t (hs.suffix (keeps_skipGroup.marks_ok e))

theorem reports_within {inner : Cursor} {m : Read α} (h : FailsAt fake bare m inner) : Reports fake bare (within inner m) := by
  intro s _ g t e
  unfold within at e
  split at e
  · cases e
  · next em =>
    cases e
    exact h _ _ em

/-- A loop fails as its step does, on ranges of a kind that holds of what is left. -/
theorem FailsOn.collect {I : List Mark → Prop} (hI : ∀ ms ns, I ms → ns <:+ ms → I ns)
    {step : Bool → Read (Option α)} {h : ∀ first, Advances (step first)} (hk : ∀ first, Keeps (step first))
    (hstep : ∀ first, FailsOn fake bare I (step first)) (first : Bool) :
    FailsOn fake bare I (collect step h first) := by
  intro s hs g t e
  fun_induction Read.collect step h first s generalizing g t with
  | case1 => cases e
  | case2 first s c r hc f u em =>
    cases e
    exact hstep first s hs _ _ em
  | case3 => cases e
  | case4 first s c r hc a u em f v ec ih =>
    cases e
    exact ih (hI _ _ hs ((hk first).marks_ok em)) _ _ ec
  | case5 => cases e

theorem sound_tail {c : Cell} {r rest : List Cell} (hs : Sound fake bare ((c :: r).map Cell.mark)) (h : rest <:+ r) :
    Sound fake bare (rest.map Cell.mark) := hs.suffix ((h.trans (List.suffix_cons c r)).map _)

theorem attributeList_error {lastLine : Nat} {cs : List Cell} {f : Fault} (hs : Sound fake bare (cs.map Cell.mark))
    (e : attributeList lastLine cs = .error f) : f.IsDueTo fake bare := by
  fun_induction attributeList lastLine cs with
  | case1 => cases e
  | case2 => cases e
  | case3 c r _ f' ef ih =>
    cases e
    exact ih (sound_tail hs (List.suffix_refl r)) ef
  | case4 =>
    cases e
    trivial
  | case5 c r _ _ b u hb _ n _ ih =>
    have hu : u.drop (n + 1) <:+ r :=
      (List.drop_suffix _ u).trans ((List.suffix_cons b u).trans (hb ▸ suffix_afterBang r))
    exact ih (sound_tail hs hu) e
  | case6 c r _ _ b u hb hnamed hn =>
    cases e
    have hmem : b ∈ c :: r := List.mem_cons_of_mem c ((suffix_afterBang r).subset (hb ▸ List.mem_cons_self ..))
    have htext : isOpeningText b.token.text = true := by
      rw [text_of_isNamed hnamed]
      decide
    exact (inside_of_sound hs hmem htext).resolve_right fun hne => hne hn
  | case7 =>
    cases e
    trivial
  | case8 => cases e

theorem reports_attributes : Reports fake bare attributes := by
  intro s hs g t e
  unfold attributes at e
  split at e
  · cases e
  · next he =>
    cases e
    exact attributeList_error hs he

theorem itemEnd_error {cs : List Cell} {f : Fault} (hs : Sound fake bare (cs.map Cell.mark))
    (e : itemEnd cs = .error f) : f.IsDueTo fake bare := by
  fun_induction itemEnd cs with
  | case1 => cases e
  | case2 => cases e
  | case3 c r n _ _ ih => exact ih (sound_tail hs (List.drop_suffix (n + 1) r)) e
  | case4 c r hn ht =>
    cases e
    have htext : isOpeningText c.token.text = true := by
      rw [ht]
      decide
    exact (inside_of_sound hs (List.mem_cons_self ..) htext).resolve_right fun hne => hne hn
  | case5 => cases e
  | case6 c r _ _ _ ih => exact ih (sound_tail hs (List.suffix_refl r)) e

theorem reports_skipItem : Reports fake bare skipItem := by
  intro s hs g t e
  unfold skipItem at e
  split at e
  · cases e
  · next he =>
    cases e
    exact itemEnd_error hs he

theorem whereEnd_error {cs : List Cell} {f : Fault} (hs : Sound fake bare (cs.map Cell.mark))
    (e : whereEnd cs = .error f) : f.IsDueTo fake bare := by
  fun_induction whereEnd cs with
  | case1 => cases e
  | case2 => cases e
  | case3 c r _ _ n _ ih => exact ih (sound_tail hs (List.drop_suffix (n + 1) r)) e
  | case4 c r _ ht hn =>
    cases e
    have htext : isOpeningText c.token.text = true := by
      simp only [Bool.or_eq_true, decide_eq_true_eq] at ht
      obtain ht | ht := ht <;> rw [ht] <;> decide
    exact (inside_of_sound hs (List.mem_cons_self ..) htext).resolve_right fun hne => hne hn
  | case5 c r _ _ ih => exact ih (sound_tail hs (List.suffix_refl r)) e

theorem reports_skipWhere : Reports fake bare skipWhere := by
  intro s hs g t e
  unfold skipWhere at e
  split at e
  · split at e
    · cases e
    · next he =>
      cases e
      exact whereEnd_error hs he
  · cases e

theorem reports_visibility : Reports fake bare visibility := by
  refine .bind (keeps_at _ _) (reports_at _ _) fun _ => .ite ?_ (.pure _)
  refine .bind keeps_skip reports_skip fun _ => ?_
  exact .atGroup (by decide) (fun _ _ => .pure _) (.pure _)

theorem reports_generics : Reports fake bare generics :=
  .bind (keeps_at _ _) (reports_at _ _) fun _ => .ite reports_skipAngles (.pure _)

theorem reports_optional (text : String) : Reports fake bare (optional text) :=
  .bind (keeps_at _ _) (reports_at _ _) fun _ => .ite reports_skip (.pure _)

theorem reports_skipMacroBody : Reports fake bare skipMacroBody := by
  intro s hs
  refine FailsAt.bind (FailsAt.of_ok ⟨_, s, rfl⟩) fun cs t e => ?_
  cases e
  cases hc : s.cells with
  | nil => exact reports_failHere _ s hs
  | cons c r =>
    show FailsAt fake bare (if isOpeningText c.token.text = true then _ else _) s
    split
    · next ht =>
      refine (failsAt_skipGroup hs hc ht).bind fun i t e => ?_
      have ht := hs.suffix (keeps_skipGroup.marks_ok e)
      exact Reports.bind (keeps_at _ _) (reports_at _ _) (fun _ => .ite reports_skip (.pure _)) t ht
    · exact reports_failHere _ s hs

theorem reports_skipMacro : Reports fake bare skipMacro := by
  refine .bind keeps_skip reports_skip fun _ => .bind keeps_skip reports_skip fun _ => ?_
  refine .bind keeps_cells reports_cells fun _ => ?_
  split
  · exact .bind keeps_skip reports_skip fun _ => reports_skipMacroBody
  · exact reports_skipMacroBody

theorem keeps_field : Keeps field := by
  refine .bind keeps_attributes fun _ => .bind keeps_atEnd fun _ => .ite (.pure _) ?_
  exact .bind keeps_visibility fun _ => .bind (keeps_expectIdent _) fun _ => .bind (keeps_expect _) fun _ =>
    .bind (keeps_readType _ _) fun _ => .bind (keeps_optional _) fun _ => .pure _

theorem reports_field : Reports fake bare field := by
  refine .bind keeps_attributes reports_attributes fun _ => .bind keeps_atEnd reports_atEnd fun _ => .ite (.pure _) ?_
  refine .bind keeps_visibility reports_visibility fun _ => ?_
  refine .bind (keeps_expectIdent _) (reports_expectIdent _) fun _ => ?_
  refine .bind (keeps_expect _) (reports_expect _) fun _ => ?_
  refine .bind (keeps_readType _ _) (reports_readType _ _) fun _ => ?_
  exact .bind (keeps_optional _) (reports_optional _) fun _ => .pure _

theorem reports_fields : Reports fake bare fields :=
  FailsOn.collect (fun _ _ => Sound.suffix) (fun _ => keeps_field) (fun _ => reports_field) true

theorem reports_structBody : Reports fake bare structBody := by
  refine .atGroup (by decide) (fun i hi => reports_within (reports_fields i hi)) ?_
  refine .atGroup (by decide) (fun _ _ => ?_) ?_
  · exact .bind keeps_skipWhere reports_skipWhere fun _ => .bind (keeps_expect _) (reports_expect _) fun _ => .pure _
  · exact .bind (keeps_expect _) (reports_expect _) fun _ => .pure _

theorem reports_struct (isPublic : Bool) (docs : List String) : Reports fake bare (struct isPublic docs) := by
  refine .bind (keeps_expect _) (reports_expect _) fun _ => ?_
  refine .bind (keeps_expectIdent _) (reports_expectIdent _) fun _ => ?_
  refine .bind keeps_generics reports_generics fun _ => .bind keeps_skipWhere reports_skipWhere fun _ => ?_
  exact .bind keeps_structBody reports_structBody fun _ => .pure _

theorem keeps_param (first : Bool) : Keeps (param first) := by
  refine .bind keeps_attributes fun _ => .bind keeps_paramTokens fun tokens => ?_
  split
  · exact .pure _
  · split
    · exact .pure _
    · exact keeps_fail _

theorem reports_param (first : Bool) : Reports fake bare (param first) := by
  refine .bind keeps_attributes reports_attributes fun _ => .bind keeps_paramTokens reports_paramTokens fun tokens => ?_
  split
  · exact .pure _
  · split
    · exact .pure _
    · exact reports_fail _ _

theorem reports_params : Reports fake bare params :=
  FailsOn.collect (fun _ _ => Sound.suffix) keeps_param reports_param true

theorem reports_paramGroup (name : String) : Reports fake bare (paramGroup name) :=
  .atGroup (by decide) (fun i hi => reports_within (reports_params i hi)) (reports_failHere _)

theorem reports_result (name : String) : Reports fake bare (result name) := by
  refine .bind (keeps_at _ _) (reports_at _ _) fun _ => .ite ?_ (.pure _)
  exact .bind keeps_skip reports_skip fun _ => .bind (keeps_readType _ _) (reports_readType _ _) fun _ => .pure _

theorem reports_functionBody : Reports fake bare functionBody :=
  .atGroup (by decide) (fun _ _ => .pure _) (.bind (keeps_expect _) (reports_expect _) fun _ => .pure _)

theorem reports_function (isPublic : Bool) (docs : List String) : Reports fake bare (function isPublic docs) := by
  refine .bind keeps_seekFn reports_seekFn fun _ => .bind (keeps_expect _) (reports_expect _) fun _ => ?_
  refine .bind (keeps_expectIdent _) (reports_expectIdent _) fun _ => .bind keeps_generics reports_generics fun _ => ?_
  refine .bind (keeps_paramGroup _) (reports_paramGroup _) fun _ => .bind (keeps_result _) (reports_result _) fun _ => ?_
  refine .bind keeps_skipWhere reports_skipWhere fun _ => ?_
  exact .bind keeps_functionBody reports_functionBody fun _ => .pure _

end Read
end RingBridge.Source
