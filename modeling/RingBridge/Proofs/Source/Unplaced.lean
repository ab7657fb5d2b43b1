import RingBridge.Proofs.Source.Alike
/-!
Readers that do not see lines, nor what stands outside of their range: all of them, from attributes to files.
-/
namespace RingBridge.Source
namespace Read

variable {α : Type}

section
variable {step : Bool → Read (Option α)} {h : ∀ first, Advances (step first)}

theorem collect_nil {first : Bool} {s : Cursor} (hs : s.cells = []) : collect step h first s = .ok [] s := by
  rw [collect]
  split
  · rfl
  · next hne => rw [hs] at hne; cases hne

theorem collect_cons {first : Bool} {s : Cursor} (hs : s.cells ≠ []) : collect step h first s =
    match step first s with
    | .error f t => .error f t
    | .ok none t => .ok [] t
    | .ok (some a) t =>
      match collect step h false t with
      | .error f u => .error f u
      | .ok as u => .ok (a :: as) u := by
  rw [collect]
  split
  · next hnil => exact absurd hnil hs
  · generalize step first s = x
    cases x with
    | error f t => rfl
    | ok o t => cases o <;> rfl

theorem unplaced_collect (hstep : ∀ first, Unplaced (step first)) : ∀ first, Unplaced (collect step h first)
  | first, s, t, hst => by
    by_cases hs : s.cells = []
    · have ht : t.cells = [] := by
        have hcells := hst.cells
        rw [hs] at hcells
        exact hcells.nil_right
      rw [collect_nil hs, collect_nil ht]
      exact .ok rfl hst
    · have ht : t.cells ≠ [] := by
        rw [← List.isEmpty_eq_false_iff, ← hst.cells.isEmpty]
        exact List.isEmpty_eq_false_iff.2 hs
      rw [collect_cons hs, collect_cons ht]
      have hres := hstep first s t hst
      have hlt := h first s
      generalize step first s = x at hres hlt ⊢
      generalize step first t = y at hres ⊢
      cases hres with
      | error hf hn => exact .error hf hn
      | @ok o _ u v ho huv =>
        subst ho
        cases o with
        | none => exact .ok rfl huv
        | some a =>
          have hrest := unplaced_collect hstep false u v huv
          dsimp only
          generalize collect step h false u = x at hrest ⊢
          generalize collect step h false v = y at hrest ⊢
          cases hrest with
          | error hf hn => exact .error hf hn
          | ok has hw => exact .ok (congrArg (a :: ·) has) hw
termination_by _ s => s.cells.length
decreasing_by exact hlt _ _ hs rfl

end

theorem afterBang_alike {cs ds : List Cell} (h : CellsAlike cs ds) : CellsAlike (afterBang cs) (afterBang ds) := by
  rw [afterBang, afterBang, h.isAt]
  split
  · exact h.tail
  · exact h

theorem attributeList_hash {line : Nat} {c : Cell} {r : List Cell} (hk : c.token.kind ≠ .doc)
    (ht : c.token.text = "#") : attributeList line (c :: r) =
      match afterBang r with
      | [] => .error (.error .bracketAfterHash line)
      | b :: t =>
        if b.token.isNamed "[" then
          match b.inside with
          | some n => attributeList line (t.drop (n + 1))
          | none => .error .noGroup
        else .error (.error .bracketAfterHash b.token.line) := by
  rw [attributeList, if_neg hk, if_pos ht]
  generalize afterBang r = bs
  cases bs <;> rfl

theorem attributeList_alike (line line' : Nat) : ∀ {cs ds : List Cell}, CellsAlike cs ds →
    OutcomesAlike (fun p q => p.1 = q.1 ∧ CellsAlike p.2 q.2) (attributeList line cs) (attributeList line' ds)
  | [], ds, h => by
    rw [h.nil_right, attributeList, attributeList]
    exact .ok ⟨rfl, rfl⟩
  | c :: r, ds, h => by
    obtain ⟨d, u, rfl, hd, hu⟩ := h.exists_cons
    have hkind := Cell.kind_of_mark hd
    have htext := Cell.text_of_mark hd
    by_cases hk : c.token.kind = .doc
    · rw [attributeList, attributeList, if_pos hk, if_pos (hkind ▸ hk), htext]
      have hrest := attributeList_alike line line' hu
      generalize attributeList line r = x at hrest ⊢
      generalize attributeList line' u = y at hrest ⊢
      cases hrest with
      | ok hab => exact .ok ⟨congrArg (_ :: ·) hab.1, hab.2⟩
      | error hf => exact .error hf
    by_cases ht : c.token.text = "#"
    · rw [attributeList_hash hk ht, attributeList_hash (hkind ▸ hk) (htext ▸ ht)]
      have hbang := afterBang_alike hu
      have hle := (suffix_afterBang r).length_le
      generalize afterBang r = bs at hbang hle ⊢
      cases bs with
      | nil =>
        rw [hbang.nil_right]
        exact .error rfl
      | cons b t =>
        obtain ⟨b', t', hb', hm, ht⟩ := hbang.exists_cons
        rw [hb']
        dsimp only
        rw [Cell.isNamed_of_mark hm, Cell.inside_of_mark hm]
        split
        · split
          · exact attributeList_alike line line' (ht.drop _)
          · exact .error rfl
        · exact .error rfl
    · rw [attributeList, if_neg hk, if_neg ht, attributeList, if_neg (hkind ▸ hk), if_neg (htext ▸ ht)]
      exact .ok ⟨rfl, h⟩
termination_by cs => cs.length
decreasing_by
  · exact Nat.lt_succ_self _
  · simp only [List.length_cons, List.length_drop] at hle ⊢
    omega

theorem unplaced_attributes : Unplaced attributes := by
  intro s t hst
  have hlist := attributeList_alike s.lastLine t.lastLine hst.cells
  unfold attributes
  generalize attributeList s.lastLine s.cells = x at hlist ⊢
  generalize attributeList t.lastLine t.cells = y at hlist ⊢
  cases hlist with
  | ok hpq => exact .ok hpq.1 ⟨hpq.2, hst.notices⟩
  | error hf => exact .error hf hst.notices

theorem unplaced_visibility : Unplaced visibility := by
  refine .at (Unplaced.bind unplaced_skip fun _ => ?_) (.pure rfl)
  exact .at (.group fun _ _ _ => .pure rfl) (.pure rfl)

theorem unplaced_generics : Unplaced generics := .at unplaced_skipAngles (.pure rfl)

theorem unplaced_optional (text : String) : Unplaced (optional text) := .at unplaced_skip (.pure rfl)

/-- A step behind a token of which only the word is used. -/
theorem Alike.token {β γ : Type} {R : β → γ → Prop} {m : Read Token} {f : Token → Read β} {g : Token → Read γ}
    (hm : Alike TokensAlike m m) (hf : ∀ t u : Token, t.text = u.text → Alike R (f t) (g u)) :
    Alike R (m >>= f) (m >>= g) := .bind hm fun t u htu => hf t u (congrArg Word.text htu)

theorem unplaced_field : Unplaced field := by
  refine Unplaced.bind unplaced_attributes fun _ => Unplaced.bind unplaced_atEnd fun _ => .ite Iff.rfl (.pure rfl) ?_
  refine Unplaced.bind unplaced_visibility fun isPublic => .token (alike_expectIdent _) fun name name' hname => ?_
  refine .token (alike_expect _) fun _ _ _ => ?_
  rw [hname]
  refine Unplaced.bind (unplaced_readType _ _) fun type => Unplaced.bind (unplaced_optional _) fun _ => .pure rfl

theorem unplaced_fields : Unplaced fields := unplaced_collect (fun _ => unplaced_field) true

theorem unplaced_structBody : Unplaced structBody := by
  refine .at (.group fun _ _ hij => .within hij unplaced_fields) (.at (.group fun _ _ _ => ?_) ?_)
  · exact Unplaced.bind unplaced_skipWhere fun _ => .token (alike_expect _) fun _ _ _ => .pure rfl
  · exact .token (alike_expect _) fun _ _ _ => .pure rfl

theorem unplaced_struct (isPublic : Bool) (docs : List String) : Unplaced (struct isPublic docs) := by
  refine .token (alike_expect _) fun _ _ _ => .token (alike_expectIdent _) fun name name' hname => ?_
  refine Unplaced.bind unplaced_generics fun _ => Unplaced.bind unplaced_skipWhere fun _ => ?_
  rw [hname]
  exact Unplaced.bind unplaced_structBody fun _ => .pure rfl

theorem paramCut_alike (depth : Int) : ∀ {cs ds : List Cell}, CellsAlike cs ds →
    (paramCut depth cs).1.map Token.word = (paramCut depth ds).1.map Token.word ∧
      CellsAlike (paramCut depth cs).2 (paramCut depth ds).2
  | [], ds, h => by
    rw [h.nil_right, paramCut]
    exact ⟨rfl, rfl⟩
  | c :: r, ds, h => by
    obtain ⟨d, u, rfl, hd, hu⟩ := h.exists_cons
    rw [paramCut, paramCut, Cell.inside_of_mark hd, Cell.text_of_mark hd]
    split
    · next n _ =>
      obtain ⟨hwords, hrest⟩ := paramCut_alike depth (hu.drop (n + 1))
      have hgroup := (hu.take (n + 1)).words
      refine ⟨?_, hrest⟩
      dsimp only
      rw [List.cons_append, List.cons_append, List.map_cons, List.map_cons, List.map_append, List.map_append, hwords,
        hgroup, show c.token.word = d.token.word from Cell.word_of_mark hd]
    · split
      · exact ⟨rfl, hu⟩
      · obtain ⟨hwords, hrest⟩ :=
          paramCut_alike (depth + if d.token.text = "<" then 1 else if d.token.text = ">" then -1 else 0) hu
        refine ⟨?_, hrest⟩
        dsimp only
        rw [List.map_cons, List.map_cons, hwords, show c.token.word = d.token.word from Cell.word_of_mark hd]
termination_by cs => cs.length
decreasing_by
  · simp only [List.length_cons, List.length_drop]
    omega
  · exact Nat.lt_succ_self _

theorem unplaced_paramTokens : Alike (fun ts us => ts.map Token.word = us.map Token.word) paramTokens paramTokens := by
  intro s t hst
  obtain ⟨hwords, hrest⟩ := paramCut_alike 0 hst.cells
  exact .ok hwords ⟨hrest, hst.notices⟩

theorem unplaced_param (first : Bool) : Unplaced (param first) := by
  refine Unplaced.bind unplaced_attributes fun _ => .bind unplaced_paramTokens fun ts us hwords => ?_
  have htexts : ts.map Token.text = us.map Token.text := by
    have := congrArg (List.map Word.text) hwords
    rwa [List.map_map, List.map_map] at this
  cases ts with
  | nil =>
    rw [List.map_eq_nil_iff.1 hwords.symm]
    exact .pure rfl
  | cons t ts =>
    obtain ⟨u, us, rfl, hu, hus⟩ := List.map_eq_cons_iff.1 hwords.symm
    dsimp only
    rw [htexts]
    split
    · exact .pure rfl
    · exact alike_fail rfl

theorem unplaced_params : Unplaced params := unplaced_collect unplaced_param true

theorem fnAheadFrom_alike {prev prev' : Option Token} {cs ds : List Cell}
    (hp : prev.map Token.word = prev'.map Token.word) (h : CellsAlike cs ds) :
    fnAheadFrom prev cs = fnAheadFrom prev' ds := by
  induction cs generalizing ds prev prev' with
  | nil =>
    rw [h.nil_right]
    rfl
  | cons c r ih =>
    obtain ⟨d, u, rfl, hd, hu⟩ := h.exists_cons
    have hextern : (prev.any fun p => p.isNamed "extern") = prev'.any fun p => p.isNamed "extern" := by
      cases prev with
      | none => rw [Option.map_eq_none_iff.1 hp.symm]
      | some t =>
        obtain ⟨t', rfl, ht⟩ := Option.map_eq_some_iff.1 hp.symm
        exact congrArg (fun w => Word.isNamed w "extern") ht.symm
    have hword : (some c.token).map Token.word = (some d.token).map Token.word := congrArg some (Cell.word_of_mark hd)
    have hnext := ih hword hu
    rw [fnAheadFrom, fnAheadFrom, Cell.kind_of_mark hd, Cell.text_of_mark hd, hextern, hnext]

theorem fnAhead_alike {cs ds : List Cell} (h : CellsAlike cs ds) : fnAhead cs = fnAhead ds := fnAheadFrom_alike rfl h

theorem unplaced_seekFn : Unplaced seekFn := by
  intro s t hst
  refine .ok rfl ⟨?_, hst.notices⟩
  show (s.cells.dropWhile ((fun m : Mark => !m.word.isNamed "fn") ∘ Cell.mark)).map Cell.mark =
    (t.cells.dropWhile ((fun m : Mark => !m.word.isNamed "fn") ∘ Cell.mark)).map Cell.mark
  rw [← List.dropWhile_map, ← List.dropWhile_map, hst.cells]

theorem unplaced_result (name : String) : Unplaced (result name) :=
  .at (Unplaced.bind unplaced_skip fun _ => Unplaced.bind (unplaced_readType _ _) fun _ => .pure rfl) (.pure rfl)

theorem unplaced_paramGroup (name : String) : Unplaced (paramGroup name) :=
  .at (.group fun _ _ hij => .within hij unplaced_params) (alike_failHere _)

theorem unplaced_functionBody : Unplaced functionBody :=
  .at (.group fun _ _ _ => .pure rfl) (.token (alike_expect _) fun _ _ _ => .pure rfl)

theorem unplaced_function (isPublic : Bool) (docs : List String) : Unplaced (function isPublic docs) := by
  refine Unplaced.bind unplaced_seekFn fun _ => .token (alike_expect _) fun _ _ _ => ?_
  refine .token (alike_expectIdent _) fun name name' hname => Unplaced.bind unplaced_generics fun _ => ?_
  rw [hname]
  refine Unplaced.bind (unplaced_paramGroup _) fun taken => Unplaced.bind (unplaced_result _) fun result => ?_
  exact Unplaced.bind unplaced_skipWhere fun _ => Unplaced.bind unplaced_functionBody fun _ => .pure rfl

theorem unplaced_member (isPublic : Bool) (docs : List String) : Unplaced (member isPublic docs) := by
  refine Alike.bind alike_cells fun cs ds hcs => .ite (by rw [fnAhead_alike hcs]) ?_ ?_
  · exact Unplaced.bind (unplaced_function _ _) fun _ => .pure rfl
  · cases cs with
    | nil =>
      rw [hcs.nil_right]
      exact alike_fail rfl
    | cons c r =>
      have hbang := hcs.isAt "!" 1
      obtain ⟨d, u, rfl, hd, -⟩ := hcs.exists_cons
      dsimp only
      rw [Cell.text_of_mark hd, Cell.kind_of_mark hd, hbang]
      refine .ite Iff.rfl (Unplaced.bind unplaced_skipStatement fun _ => .pure rfl) ?_
      exact .ite Iff.rfl (Unplaced.bind unplaced_skipMacro fun _ => .pure rfl) (alike_fail rfl)

theorem unplaced_method : Unplaced method := by
  refine Unplaced.bind unplaced_attributes fun docs => Unplaced.bind unplaced_atEnd fun _ => .ite Iff.rfl (.pure rfl) ?_
  exact Unplaced.bind unplaced_visibility fun _ => Unplaced.bind (unplaced_member _ _) fun _ => .pure rfl

theorem unplaced_methods : Unplaced methods := unplaced_collect (fun _ => unplaced_method) true

theorem alike_implBody : Alike Cursor.Alike implBody implBody := .at alike_skipGroup (alike_failHere _)

theorem unplaced_traitImpl (trait : String) : Unplaced (traitImpl trait) := by
  refine Unplaced.bind unplaced_skip fun _ => Unplaced.bind (unplaced_readType _ _) fun target => ?_
  refine Unplaced.bind unplaced_skipWhere fun _ => Alike.bind alike_implBody fun _ _ _ => ?_
  exact Unplaced.bind (unplaced_note _) fun _ => .pure rfl

/-- The line of the keyword is only reported. -/
theorem alike_inherentImpl (line line' : Nat) (type : String) :
    Alike Eq (inherentImpl line type) (inherentImpl line' type) := by
  refine Unplaced.bind unplaced_skipWhere fun _ => Alike.bind alike_implBody fun i j hij => ?_
  refine .ite Iff.rfl (alike_fail rfl) (Alike.bind (.within hij unplaced_methods) fun ms ms' hms => ?_)
  subst hms
  exact .pure rfl

theorem alike_implFrom (line line' : Nat) : Alike Eq (implFrom line) (implFrom line') := by
  refine Unplaced.bind unplaced_generics fun _ => Unplaced.bind (unplaced_optional _) fun _ => ?_
  refine Unplaced.bind (unplaced_readType _ _) fun type => ?_
  exact .at (unplaced_traitImpl _) (alike_inherentImpl _ _ _)

theorem unplaced_impl : Unplaced impl :=
  Unplaced.bind (unplaced_optional _) fun _ => .token (alike_expect _) fun _ _ _ => alike_implFrom _ _

theorem unplaced_noteAll (n : Option Notice) : Unplaced (noteAll n) := by
  cases n with
  | none => exact Alike.pure rfl
  | some n => exact unplaced_note n

theorem alike_itemBody (isPublic : Bool) (docs : List String) {c d : Cell} {r u : List Cell} (hd : c.mark = d.mark)
    (hu : CellsAlike r u) : Alike Eq (itemBody isPublic docs c (c :: r)) (itemBody isPublic docs d (d :: u)) := by
  have hcs : CellsAlike (c :: r) (d :: u) := .cons hd hu
  have hkind : itemKind? c (c :: r) = itemKind? d (d :: u) := by
    rw [itemKind?, itemKind?, Cell.text_of_mark hd, Cell.kind_of_mark hd, fnAhead_alike hcs, hcs.isAt, hcs.isAt, hcs.isAt,
      hcs.isAt]
  have hnotice : noticeOf c (c :: r) = noticeOf d (d :: u) := by
    have hsecond : (c :: r)[1]?.map (fun n => n.token.text) = (d :: u)[1]?.map fun n => n.token.text := by
      have htexts := congrArg (fun ms : List Mark => ms[1]?.map fun m => m.word.text) hcs
      rwa [List.getElem?_map, List.getElem?_map, Option.map_map, Option.map_map] at htexts
    have hmap : ∀ cs : List Cell, (cs[1]?.map fun n => Notice.item d.token.text n.token.text) =
        (cs[1]?.map fun n => n.token.text).map (Notice.item d.token.text) := by
      intro cs
      rw [Option.map_map]
      rfl
    rw [noticeOf, noticeOf, Cell.text_of_mark hd, hmap, hmap, hsecond]
  unfold itemBody
  rw [hkind]
  split
  · exact Unplaced.bind (unplaced_struct _ _) fun _ => .pure rfl
  · exact Unplaced.bind unplaced_impl fun _ => .pure rfl
  · exact Unplaced.bind (unplaced_function _ _) fun _ => .pure rfl
  · exact Unplaced.bind unplaced_skipStatement fun _ => .pure rfl
  · rw [hnotice]
    exact Unplaced.bind (unplaced_noteAll _) fun _ => Unplaced.bind unplaced_skipItem fun _ => .pure rfl
  · exact Unplaced.bind unplaced_skipMacro fun _ => .pure rfl
  · rw [Cell.text_of_mark hd]
    exact alike_fail rfl

theorem unplaced_head : Unplaced head :=
  Unplaced.bind unplaced_attributes fun _ => Unplaced.bind unplaced_visibility fun _ => .pure rfl

theorem unplaced_item : Unplaced item := by
  refine Unplaced.bind unplaced_head fun h => Unplaced.bind unplaced_atEnd fun _ => .ite Iff.rfl (.pure rfl) ?_
  refine Alike.bind alike_cells fun cs ds hcs => ?_
  cases cs with
  | nil =>
    rw [hcs.nil_right]
    exact .pure rfl
  | cons c r =>
    obtain ⟨d, u, rfl, hd, hu⟩ := hcs.exists_cons
    refine Alike.bind (alike_itemBody _ _ hd hu) fun o o' ho => ?_
    subst ho
    exact .pure rfl

theorem unplaced_prefixDirective : Unplaced prefixDirective := by
  refine .token (alike_expect _) fun _ _ _ => .token (alike_expect _) fun _ _ _ => ?_
  refine Alike.bind alike_next fun t u htu => ?_
  have hkind : t.kind = u.kind := congrArg Word.kind htu
  have htext : t.text = u.text := congrArg Word.text htu
  rw [hkind, htext]
  exact .ite Iff.rfl (.token (alike_expect _) fun _ _ _ => .pure rfl) (alike_fail rfl)

theorem unplaced_topLevel : Unplaced topLevel := by
  refine Alike.bind alike_cells fun cs ds hcs => ?_
  rw [hcs.isAt, hcs.isAt]
  exact .ite Iff.rfl unplaced_prefixDirective unplaced_item

theorem unplaced_file : Unplaced file :=
  unplaced_collect (fun _ => Unplaced.bind unplaced_topLevel fun _ => .pure rfl) true

end Read
end RingBridge.Source
