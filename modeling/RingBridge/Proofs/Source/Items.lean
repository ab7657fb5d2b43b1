import RingBridge.Proofs.Source.Params
/-!
Fields, parameters, functions and items are read from the tokens they are written as. Each reading stops where its
own tokens stop, whatever follows.
-/
namespace RingBridge.Source
open Read

theorem marks_listed_cons (trailing : Bool) (a : Balanced) (r : List Balanced) :
    ∃ ms, (Balanced.listed trailing (a :: r)).marks = a.marks ++ ms
      ∧ TypeTokens.ListEnd ms (Balanced.listed trailing r).marks := by
  cases r with
  | nil =>
    have hl : Balanced.listed trailing [a] = a ++ if trailing then .comma .nil else .nil := rfl
    rw [hl, Balanced.marks_append]
    cases trailing with
    | false => exact ⟨[], rfl, .last⟩
    | true => exact ⟨_, rfl, .comma⟩
  | cons b r =>
    have hl : Balanced.listed trailing (a :: b :: r) = a ++ .comma (.listed trailing (b :: r)) := rfl
    rw [hl, Balanced.marks_append]
    exact ⟨_, rfl, .comma⟩

/-- A loop over a list reads its entries, if every entry is read up to the end behind it. -/
theorem reads_listed {ι α : Type} {step : Bool → Read (Option α)} {h : ∀ first, Advances (step first)}
    (tokens : ι → Balanced) {value : ι → α} (xs : List ι) (hne : ∀ x ∈ xs, (tokens x).marks ≠ [])
    (hstep : ∀ x ∈ xs, ∀ first ms ns, TypeTokens.ListEnd ms ns →
      Reads (step first) ((tokens x).marks ++ ms) (· = some (value x)) ns) (trailing first : Bool) :
    Reads (collect step h first) (Balanced.listed trailing (xs.map tokens)).marks (· = xs.map value) [] := by
  induction xs generalizing first with
  | nil => exact reads_collect_nil first
  | cons x xs ih =>
    obtain ⟨ms, hm, hend⟩ := marks_listed_cons trailing (tokens x) (xs.map tokens)
    have hx := hstep x List.mem_cons_self first ms _ hend
    have hxs := ih (fun y hy => hne y (List.mem_cons_of_mem x hy)) (fun y hy => hstep y (List.mem_cons_of_mem x hy)) false
    rw [List.map_cons, hm]
    exact reads_collect_cons (List.append_ne_nil_of_left_ne_nil (hne x List.mem_cons_self) ms) hx hxs

theorem reads_optional_comma {ms ns : List Mark} (h : TypeTokens.ListEnd ms ns) :
    Reads (optional ",") ms (fun _ => True) ns := by
  cases h with
  | last => exact reads_optional rfl
  | comma => exact .at rfl reads_skip

theorem stops_listEnd {ms ns : List Mark} (h : TypeTokens.ListEnd ms ns) : TypeTokens.Stops [","] ms := by
  intro m hm
  cases h with
  | last => simp at hm
  | comma =>
    obtain rfl := Option.some.inj hm
    exact ⟨.inl rfl, List.mem_singleton.2 rfl⟩

theorem TypeText.lacks_comma (t : TypeText) : t.tokens.Lacks [","] := by
  intro w hw h
  exact t.ends w hw (List.mem_singleton.1 h ▸ List.mem_cons_self)

theorem TypeText.lacks_brace (t : TypeText) : t.tokens.Lacks ["\x7b", ";", "where"] := by
  intro w hw h
  obtain h | h := List.mem_cons.1 h
  · exact w.text_ne (c := '\x7b') (by decide) h
  · exact t.ends w hw (List.mem_cons_of_mem _ h)

def visibilityMarks (isPublic : Bool) : List Mark := if isPublic then [⟨⟨.ident, "pub"⟩, none⟩] else []

theorem marks_visibility (isPublic : Bool) (rest : Balanced) :
    (visibilityTokens isPublic rest).marks = visibilityMarks isPublic ++ rest.marks := by
  cases isPublic <;> rfl

theorem marks_visibility_ne_nil (isPublic : Bool) (text : String) (rest : Balanced) :
    (visibilityTokens isPublic (.ident text rest)).marks ≠ [] := by
  rw [marks_visibility]
  exact List.append_ne_nil_of_right_ne_nil _ (List.cons_ne_nil _ _)

theorem reads_visibilityMarks (isPublic : Bool) {ms : List Mark} (hpub : namedAt ms "pub" = false)
    (hparen : namedAt ms "(" = false) : Reads visibility (visibilityMarks isPublic ++ ms) (· = isPublic) ms := by
  cases isPublic with
  | false => exact reads_visibility hpub
  | true => exact reads_visibility_pub hparen

/-- A declaration starts with `pub` or with a word of its own. -/
theorem unadorned_visibility (isPublic : Bool) {ms : List Mark} (h : Unadorned ms) :
    Unadorned (visibilityMarks isPublic ++ ms) := by
  cases isPublic with
  | false => exact h
  | true =>
    intro m hm
    obtain rfl := Option.some.inj hm
    exact ⟨by simp, by simp⟩

theorem unadorned_ident {text : String} (h : text ≠ "#") (ms : List Mark) : Unadorned (⟨⟨.ident, text⟩, none⟩ :: ms) := by
  intro m hm
  obtain rfl := Option.some.inj hm
  exact ⟨by simp, h⟩

theorem namedAt_cons {w : Word} {i : Option Nat} {ms : List Mark} {text : String} (h : w.text ≠ text) :
    namedAt (⟨w, i⟩ :: ms) text = false := by
  show w.isNamed text = false
  simp [Word.isNamed, h]

theorem marks_field (f : FieldItem) (ms : List Mark) :
    f.tokens.marks ++ ms = visibilityMarks f.isPublic ++ ⟨f.name.word, none⟩ :: ⟨⟨.punct, ":"⟩, none⟩
      :: (f.type.tokens.marks ++ ms) := by
  rw [FieldItem.tokens, marks_visibility, List.append_assoc]
  rfl

/-- A field is read as its type is read. -/
theorem reads_field_of {isPublic : Bool} {name : Name} {ts : List Mark} {type : String} {ms ns : List Mark}
    (ht : ∀ what, Reads (readType [","] what) (ts ++ ms) (· = type) ms) (h : TypeTokens.ListEnd ms ns) :
    Reads field (visibilityMarks isPublic ++ ⟨name.word, none⟩ :: ⟨⟨.punct, ":"⟩, none⟩ :: (ts ++ ms))
      (· = some ⟨name.text, type, .boolean isPublic⟩) ns := by
  have hhash : name.text ≠ "#" := name.text_ne_singleton (c := '#') (by decide)
  have hparen : name.text ≠ "(" := name.text_ne_singleton (c := '(') (by decide)
  have hpub : name.text ≠ "pub" := name.text_ne (by decide)
  refine (reads_attributes (unadorned_visibility _ (unadorned_ident hhash _))).bind fun _ _ => ?_
  refine .not_end (by simp) ?_
  refine (reads_visibilityMarks _ (namedAt_cons hpub) (namedAt_cons hparen)).bind fun isPublic hisPublic => ?_
  refine reads_expectIdent.bind fun name hname => ?_
  refine (reads_expect rfl).bind fun _ _ => (ht _).bind fun type htype => ?_
  refine (reads_optional_comma h).bind fun _ _ => .pure ?_
  rw [hisPublic, hname, htype]

theorem reads_field (f : FieldItem) {ms ns : List Mark} (h : TypeTokens.ListEnd ms ns) :
    Reads field (f.tokens.marks ++ ms) (· = some f.declared) ns := by
  rw [marks_field]
  exact reads_field_of (fun _ => TypeTokens.reads_readType ⟨by decide, by decide, by decide⟩ f.type.nonempty
    f.type.lacks_comma (stops_listEnd h)) h

theorem reads_fields (fs : List FieldItem) (trailing : Bool) :
    Reads fields (Balanced.listed trailing (fs.map FieldItem.tokens)).marks (· = fs.map FieldItem.declared) [] := by
  exact reads_listed FieldItem.tokens fs (fun f _ => marks_visibility_ne_nil _ _ _)
    (fun f _ first ms ns h => reads_field f h) trailing true

/-- A parameter or receiver that stays together is taken up to the end behind it. -/
theorem reads_param_of {ts : List Mark} {first : Bool} {taken : Taken} (hu : Unadorned ts) (hne : ts ≠ [])
    (hp : ∀ cs, cs.map Cell.mark = ts → TypeTokens.StaysIn 0 cs)
    (ht : takenOf first (ts.map fun m => m.word.text) = .ok taken) {ms ns : List Mark} (h : TypeTokens.ListEnd ms ns) :
    Reads (param first) (ts ++ ms) (· = some taken) ns := by
  have hhead : Unadorned (ts ++ ms) := by
    intro m hm
    obtain ⟨c, r, rfl⟩ := List.exists_cons_of_ne_nil hne
    exact hu m hm
  refine (reads_attributes hhead).bind fun _ _ => (TypeTokens.reads_paramTokens_of hp h).bind fun tokens htokens => ?_
  cases tokens with
  | nil => exact absurd (List.map_eq_nil_iff.1 htokens.symm) hne
  | cons t r =>
    dsimp only
    rw [htokens, ht]
    exact .pure rfl

theorem reads_param {ts : TypeTokens} {first : Bool} {taken : Taken} (hu : Unadorned ts.marks) (hne : ts.marks ≠ [])
    (hl : ts.Lacks [","]) (ht : takenOf first ts.texts = .ok taken) {ms ns : List Mark} (h : TypeTokens.ListEnd ms ns) :
    Reads (param first) (ts.marks ++ ms) (· = some taken) ns :=
  reads_param_of hu hne (fun _ hc => TypeTokens.staysIn_marks ts hc 0 (by omega) fun _ => hl) (ts.texts_eq_marks ▸ ht) h

theorem lacks_word {w : TypeWord} {r : TypeTokens} (hw : w.text ≠ ",") (hr : r.Lacks [","]) :
    (TypeTokens.word w r).Lacks [","] := by
  intro v hv h
  obtain rfl | hv := List.mem_cons.1 hv
  · exact hw (List.mem_singleton.1 h)
  · exact hr v hv h

theorem lacks_nil : TypeTokens.nil.Lacks [","] := fun _ hw => absurd hw List.not_mem_nil

theorem lacks_mutable (m : Bool) {r : TypeTokens} (hr : r.Lacks [","]) : (TypeTokens.mutable m r).Lacks [","] := by
  cases m with
  | false => exact hr
  | true => exact lacks_word (by decide) hr

theorem lacks_lifetime (l : Option Spelling.Ident) {r : TypeTokens} (hr : r.Lacks [","]) :
    (TypeTokens.lifetime l r).Lacks [","] := by
  cases l with
  | none => exact hr
  | some l => exact lacks_word (lifetimeText_ne l (by decide)) hr

theorem ParamItem.lacks_comma (p : ParamItem) : p.tokens.Lacks [","] :=
  lacks_word (p.name.text_ne_singleton (c := ',') (by decide)) (lacks_word (by decide) p.type.lacks_comma)

theorem ParamItem.marks_ne_nil (p : ParamItem) : p.tokens.marks ≠ [] := List.cons_ne_nil _ _

theorem SelfType.lacks_comma (t : SelfType) : t.tokens.Lacks [","] := by
  cases t with
  | owned type h => exact type.lacks_comma
  | reference l m head rest hl hr =>
    have hhead := lacks_word (w := head.typeWord) (head.text_ne_singleton (c := ',') (by decide)) hr
    exact lacks_word (by decide) (lacks_lifetime l (lacks_mutable m hhead))

theorem SelfItem.lacks_comma (s : SelfItem) : s.tokens.Lacks [","] := by
  cases s with
  | value m => exact lacks_mutable m (lacks_word (by decide) lacks_nil)
  | reference l m => exact lacks_word (by decide) (lacks_lifetime l (lacks_mutable m (lacks_word (by decide) lacks_nil)))
  | typed m t => exact lacks_mutable m (lacks_word (by decide) (lacks_word (by decide) t.lacks_comma))

/-- A receiver starts with `mut`, `self` or a reference mark. -/
theorem SelfItem.front (s : SelfItem) : ∃ w ms, s.tokens.marks = ⟨w, none⟩ :: ms ∧ w.kind ≠ .doc ∧ w.text ≠ "#" := by
  cases s with
  | value m => cases m <;> exact ⟨_, _, rfl, by decide, by decide⟩
  | reference l m => exact ⟨_, _, rfl, by decide, by decide⟩
  | typed m t => cases m <;> exact ⟨_, _, rfl, by decide, by decide⟩

def takenIn (f : FunctionItem) : List Taken :=
  f.self?.toList.map (fun s => .receiver s.declared) ++ f.params.map fun p => .param p.declared

theorem paramsOf_params {ι : Type} (declared : ι → Param String) (ps : List ι) :
    paramsOf (ps.map fun p => .param (declared p)) = ps.map declared := by
  induction ps with
  | nil => rfl
  | cons p ps ih => exact congrArg (declared p :: ·) ih

theorem receiverIn_params {ι : Type} (declared : ι → Param String) (ps : List ι) :
    receiverIn (ps.map fun p => .param (declared p)) = .absent := by
  induction ps with
  | nil => rfl
  | cons p ps ih => exact ih

theorem paramsOf_takenIn (f : FunctionItem) : paramsOf (takenIn f) = f.params.map ParamItem.declared := by
  rw [takenIn]
  cases f.self? <;> exact paramsOf_params ParamItem.declared f.params

theorem receiverIn_takenIn (f : FunctionItem) :
    receiverIn (takenIn f) = (f.self?.map SelfItem.declared).getD .absent := by
  rw [takenIn]
  cases f.self? with
  | some s => rfl
  | none => exact receiverIn_params ParamItem.declared f.params

theorem reads_params (f : FunctionItem) : Reads params f.paramTokens.marks (· = takenIn f) [] := by
  have hparams : ∀ first, Reads (collect param advances_param first)
      (Balanced.listed f.trailing (f.params.map fun p => p.tokens.balanced)).marks
      (· = f.params.map fun p => .param p.declared) [] := by
    refine reads_listed (fun p : ParamItem => p.tokens.balanced) f.params (fun p _ => p.marks_ne_nil)
      (fun p _ first ms ns h => ?_) f.trailing
    have hhash : p.name.text ≠ "#" := p.name.text_ne_singleton (c := '#') (by decide)
    have hu : Unadorned p.tokens.marks := unadorned_ident hhash _
    exact reads_param hu p.marks_ne_nil p.lacks_comma (takenOf_param first p) h
  rw [params, FunctionItem.paramTokens, takenIn]
  cases f.self? with
  | none => exact hparams true
  | some s =>
    obtain ⟨ms, hm, hend⟩ := marks_listed_cons f.trailing s.tokens.balanced (f.params.map fun p => p.tokens.balanced)
    obtain ⟨w, rest, hw, hk, ht⟩ := s.front
    have hu : Unadorned s.tokens.marks := by
      rw [hw]
      intro m hm
      obtain rfl := Option.some.inj hm
      exact ⟨hk, ht⟩
    have hne : s.tokens.marks ≠ [] := by
      rw [hw]
      exact List.cons_ne_nil _ _
    show Reads _ (Balanced.listed f.trailing (s.tokens.balanced :: f.params.map fun p => p.tokens.balanced)).marks _ _
    rw [hm]
    exact reads_collect_cons (List.append_ne_nil_of_left_ne_nil hne ms)
      (reads_param hu hne s.lacks_comma (takenOf_self s) hend) (hparams false)

theorem marks_resultTokens (r : Option TypeText) (rest : Balanced) :
    (FunctionItem.resultTokens r rest).marks = match r with
      | some t => ⟨⟨.punct, "->"⟩, none⟩ :: (t.tokens.marks ++ rest.marks)
      | none => rest.marks := by
  cases r with
  | none => rfl
  | some t => exact congrArg (_ :: ·) (Balanced.marks_append _ _)

theorem reads_seekFn {ms : List Mark} {i : Option Nat} :
    Reads seekFn (⟨⟨.ident, "fn"⟩, i⟩ :: ms) (fun _ => True) (⟨⟨.ident, "fn"⟩, i⟩ :: ms) := by
  intro s hs
  obtain ⟨c, r, hc, hm, hr⟩ := cells_of_marks hs
  have hn : c.token.isNamed "fn" = true := by
    have hw : c.token.word = ⟨.ident, "fn"⟩ := congrArg Mark.word hm
    show c.token.word.isNamed "fn" = true
    rw [hw]
    rfl
  have hd : s.cells.dropWhile (fun c => !c.token.isNamed "fn") = s.cells := by
    rw [hc, List.dropWhile_cons_of_neg (by simp [hn])]
  exact ⟨(), s, by rw [seekFn, hd], trivial, hs, rfl⟩

def bodyMarks (body : Balanced) (ms : List Mark) : List Mark :=
  ⟨.opening .brace, some body.marks.length⟩ :: (body.marks ++ ⟨.closing .brace, none⟩ :: ms)

theorem stops_bodyMarks (body : Balanced) (ms : List Mark) {stops : List String} (h : "\x7b" ∈ stops) :
    TypeTokens.Stops stops (bodyMarks body ms) := by
  intro m hm
  obtain rfl := Option.some.inj hm
  exact ⟨.inl rfl, h⟩

/-- A result is read as its type is read; the unit type counts as none. -/
theorem reads_result_of {name : String} {ts : List Mark} {type : String} {ms : List Mark}
    (ht : ∀ what, Reads (readType ["\x7b", ";", "where"] what) (ts ++ ms) (· = type) ms) :
    Reads (result name) (⟨⟨.punct, "->"⟩, none⟩ :: (ts ++ ms)) (· = if type = "()" then none else some type) ms := by
  refine .at rfl (reads_skip.bind fun _ _ => (ht _).bind fun t h => .pure ?_)
  rw [h]

theorem reads_result (r : Option TypeText) (name : String) (body : Balanced) (ms : List Mark) :
    Reads (result name)
      ((FunctionItem.resultTokens r (.group .brace body .nil)).marks ++ ms) (· = FunctionItem.resultSpelling r)
      (bodyMarks body ms) := by
  have hbody : (Balanced.group .brace body .nil).marks ++ ms = bodyMarks body ms := by
    simp [Balanced.marks, bodyMarks]
  rw [marks_resultTokens]
  cases r with
  | none =>
    dsimp only
    rw [hbody]
    exact .not_at rfl (.pure rfl)
  | some t =>
    have hresult : FunctionItem.resultSpelling (some t) = if t.spelling = "()" then none else some t.spelling := by
      have hunit := TypeTokens.spelling_eq_unit t.tokens
      rw [FunctionItem.resultSpelling, TypeText.spelling]
      cases hu : t.tokens.isUnit with
      | true => rw [if_pos rfl, if_pos (hunit.2 hu)]
      | false => rw [if_neg (by decide), if_neg (by rw [hunit, hu]; decide)]
    dsimp only
    rw [List.cons_append, List.append_assoc, hbody, hresult]
    exact reads_result_of fun _ => TypeTokens.reads_readType ⟨by decide, by decide, by decide⟩ t.nonempty t.lacks_brace
      (stops_bodyMarks body ms List.mem_cons_self)

/-- A function is read from its keyword to the end of its body, as its parameters and its result are read. -/
theorem reads_function_of (isPublic : Bool) (name : Name) {ps rs : List Mark} {taken : List Taken} {res : Option String}
    (hp : Reads params ps (· = taken) []) (body : Balanced) {ms : List Mark}
    (hr : ∀ name, Reads (result name) rs (· = res) (bodyMarks body ms)) :
    Reads (Read.function isPublic []) (⟨⟨.ident, "fn"⟩, none⟩ :: ⟨name.word, none⟩
        :: ⟨.opening .paren, some ps.length⟩ :: (ps ++ ⟨.closing .paren, none⟩ :: rs))
      (· = ⟨name.text, paramsOf taken, res, .boolean isPublic, receiverIn taken, .text ""⟩) ms := by
  refine reads_seekFn.bind fun _ _ => (reads_expect rfl).bind fun _ _ => ?_
  refine reads_expectIdent.bind fun name hname => (reads_generics rfl).bind fun _ _ => ?_
  refine Reads.bind (.at rfl (.group hp)) fun taken htaken => ?_
  refine (hr name.text).bind fun result hresult => (reads_skipWhere rfl).bind fun _ _ => ?_
  refine Reads.bind (P := fun _ => True) (.at rfl (reads_skipGroup.bind fun _ _ => .pure trivial)) fun _ _ => .pure ?_
  rw [hname, htaken, hresult]
  rfl

/-- Marks of a function: its keyword and name, its parameters, and what follows them. -/
theorem marks_function (name : Name) (params rest : Balanced) (ms : List Mark) :
    (Balanced.ident "fn" (.ident name.text (.group .paren params rest))).marks ++ ms
      = ⟨⟨.ident, "fn"⟩, none⟩ :: ⟨name.word, none⟩ :: ⟨.opening .paren, some params.marks.length⟩
        :: (params.marks ++ ⟨.closing .paren, none⟩ :: (rest.marks ++ ms)) := by
  show _ :: _ :: _ :: ((params.marks ++ _ :: rest.marks) ++ ms) = _
  rw [List.append_assoc]
  rfl

theorem FunctionItem.marks_core (f : FunctionItem) (ms : List Mark) :
    f.core.marks ++ ms = ⟨⟨.ident, "fn"⟩, none⟩ :: ⟨f.name.word, none⟩
      :: ⟨.opening .paren, some f.paramTokens.marks.length⟩ :: (f.paramTokens.marks ++ ⟨.closing .paren, none⟩
      :: ((resultTokens f.result (.group .brace f.body .nil)).marks ++ ms)) := marks_function _ _ _ _

theorem reads_function (f : FunctionItem) (ms : List Mark) :
    Reads (Read.function f.isPublic []) (f.core.marks ++ ms) (· = f.declared) ms := by
  have hread := reads_function_of f.isPublic f.name (reads_params f) f.body fun name => reads_result f.result name f.body ms
  rw [paramsOf_takenIn, receiverIn_takenIn] at hread
  rw [f.marks_core]
  exact hread

end RingBridge.Source
