import RingBridge.Proofs.Source.Faults
/-!
Reading a text gives a document or a reported error, unless a doc comment of the text is an opening delimiter, or a
visibility ends the body of an impl.
-/
namespace RingBridge.Source
namespace Read

variable {fake bare : Prop} {s t : Cursor}

/-- A member fails in a way that is not reported only where nothing is left. -/
theorem failsAt_member (isPublic : Bool) (docs : List String) (hs : Sound fake bare s.marks)
    (hleft : s.cells = [] → bare) : FailsAt fake bare (member isPublic docs) s := by
  refine FailsAt.bind (FailsAt.of_ok ⟨_, s, rfl⟩) fun cs t e => ?_
  cases e
  split
  · refine Reports.bind (keeps_function _ _) (reports_function _ _) (fun _ => ?_) s hs
    exact .pure _
  · split
    · next hc =>
      intro g u e
      cases e
      exact hleft hc
    · next c r hc =>
      split
      · exact Reports.bind keeps_skipStatement reports_skipStatement (fun _ => .pure _) s hs
      · split
        · exact Reports.bind keeps_skipMacro reports_skipMacro (fun _ => .pure _) s hs
        · exact reports_fail _ _ s hs

/-- What a visibility takes, if it takes all that is left. -/
theorem isVisibility_of_visibility {b : Bool} (hs : Grouped s.marks) (hne : s.cells ≠ [])
    (e : visibility s = .ok b t) (ht : t.cells = []) : IsVisibility (s.marks.map Mark.word) := by
  simp only [visibility, Bind.bind, EStateM.bind, at_] at e
  split at e
  · next hpub =>
    obtain ⟨c, r, hc, hnamed⟩ := exists_of_isAt hpub
    have hmarks : s.marks = c.mark :: r.map Cell.mark := by rw [Cursor.marks, hc, List.map_cons]
    rw [hmarks] at hs ⊢
    simp only [EStateM.bind, skip, at_, hc, List.tail_cons] at e
    refine ⟨c.token.word, hnamed, ?_⟩
    split at e
    · next hparen =>
      right
      simp only [EStateM.bind] at e
      split at e
      · next i u eg =>
        cases e
        obtain ⟨inner, -, hgroup⟩ := exists_of_skipGroup_at (s := { s with cells := r }) (d := .paren) hs.2 hparen eg
        refine ⟨inner, ?_⟩
        rw [show r.map Cell.mark = _ from hgroup, Cursor.marks, ht]
        simp [Balanced.map_word_marks, Cell.mark]
      · cases e
    · left
      cases e
      have hr : r = [] := ht
      rw [hr]
      rfl
  · cases e
    exact absurd ht hne

theorem keeps_method : Keeps method := by
  refine .bind keeps_attributes fun _ => .bind keeps_atEnd fun _ => .ite (.pure _) ?_
  exact .bind keeps_visibility fun _ => .bind (keeps_member _ _) fun _ => .pure _

/-- A method of a body that does not end behind a visibility. -/
theorem failsOn_method : FailsOn fake bare (SoundBody fake bare) method := by
  intro s hs
  refine (reports_attributes s hs.toSound).bind fun docs t e => ?_
  have ht : SoundBody fake bare t.marks := hs.suffix (keeps_attributes.marks_ok e)
  refine FailsAt.bind (FailsAt.of_ok ⟨_, t, rfl⟩) fun ended u e => ?_
  cases e
  split
  · exact FailsAt.of_ok ⟨_, t, rfl⟩
  · next hne =>
    refine (reports_visibility t ht.toSound).bind fun isPublic u e => ?_
    have hu := ht.toSound.suffix (keeps_visibility.marks_ok e)
    refine (failsAt_member isPublic docs hu fun hc => ?_).bind fun f v e => FailsAt.of_ok ⟨_, v, rfl⟩
    refine ht.ends.resolve_right fun hends => hends t.marks (List.suffix_refl _) ?_
    exact isVisibility_of_visibility ht.grouped (by simpa using hne) e hc

theorem failsOn_methods : FailsOn fake bare (SoundBody fake bare) methods :=
  FailsOn.collect (fun _ _ => SoundBody.suffix) (fun _ => keeps_method) (fun _ => failsOn_method) true

/-- The body of an impl is enclosed by braces. -/
theorem body_of_implBody {i : Cursor} (hs : Sound fake bare s.marks) (e : implBody s = .ok i t) :
    SoundBody fake bare i.marks := by
  simp only [implBody, Bind.bind, EStateM.bind, at_] at e
  split at e
  · next hat =>
    obtain ⟨inner, hi, hmarks⟩ := exists_of_skipGroup_at (d := .brace) hs.grouped hat e
    rw [hmarks] at hs
    exact hi ▸ hs.body
  · cases e

theorem reports_implBody : Reports fake bare implBody := by
  refine .at (fun s hs hat => ?_) (reports_failHere _)
  obtain ⟨c, r, hc, hnamed⟩ := exists_of_isAt hat
  refine failsAt_skipGroup hs hc ?_
  rw [text_of_isNamed hnamed]
  decide

theorem reports_traitImpl (trait : String) : Reports fake bare (traitImpl trait) := by
  refine .bind keeps_skip reports_skip fun _ => .bind (keeps_readType _ _) (reports_readType _ _) fun _ => ?_
  refine .bind keeps_skipWhere reports_skipWhere fun _ => .bind keeps_implBody reports_implBody fun _ => ?_
  exact .bind (keeps_note _) (reports_note _) fun _ => .pure _

theorem reports_inherentImpl (line : Nat) (type : String) : Reports fake bare (inherentImpl line type) := by
  refine .bind keeps_skipWhere reports_skipWhere fun _ s hs => ?_
  refine (reports_implBody s hs).bind fun i t e => ?_
  have hi := body_of_implBody hs e
  refine Reports.ite (reports_fail _ _) ?_ t (hs.suffix (keeps_implBody.marks_ok e))
  exact .bind (keeps_within _ _) (reports_within (failsOn_methods i hi)) fun _ => .pure _

theorem reports_implFrom (line : Nat) : Reports fake bare (implFrom line) := by
  refine .bind keeps_generics reports_generics fun _ => .bind (keeps_optional _) (reports_optional _) fun _ => ?_
  refine .bind (keeps_readType _ _) (reports_readType _ _) fun _ => .bind (keeps_at _ _) (reports_at _ _) fun _ => ?_
  exact .ite (reports_traitImpl _) (reports_inherentImpl _ _)

theorem reports_impl : Reports fake bare impl :=
  .bind (keeps_optional _) (reports_optional _) fun _ => .bind (keeps_expect _) (reports_expect _) fun _ =>
    reports_implFrom _

theorem reports_noteAll (n : Option Notice) : Reports fake bare (noteAll n) := by
  cases n with
  | none => exact .pure _
  | some n => exact reports_note n

theorem reports_itemBody (isPublic : Bool) (docs : List String) (c : Cell) (cs : List Cell) :
    Reports fake bare (itemBody isPublic docs c cs) := by
  unfold itemBody
  split
  · exact .bind (keeps_struct _ _) (reports_struct _ _) fun _ => .pure _
  · exact .bind keeps_impl reports_impl fun _ => .pure _
  · exact .bind (keeps_function _ _) (reports_function _ _) fun _ => .pure _
  · exact .bind keeps_skipStatement reports_skipStatement fun _ => .pure _
  · exact .bind (keeps_noteAll _) (reports_noteAll _) fun _ => .bind keeps_skipItem reports_skipItem fun _ => .pure _
  · exact .bind keeps_skipMacro reports_skipMacro fun _ => .pure _
  · exact reports_fail _ _

theorem keeps_itemAt (isPublic : Bool) (docs : List String) (cs : List Cell) : Keeps (itemAt isPublic docs cs) := by
  cases cs with
  | nil => exact .pure _
  | cons c r => exact .bind (keeps_itemBody _ _ _ _) fun _ => .pure _

theorem reports_itemAt (isPublic : Bool) (docs : List String) (cs : List Cell) :
    Reports fake bare (itemAt isPublic docs cs) := by
  cases cs with
  | nil => exact .pure _
  | cons c r => exact .bind (keeps_itemBody _ _ _ _) (reports_itemBody _ _ _ _) fun _ => .pure _

theorem reports_head : Reports fake bare head :=
  .bind keeps_attributes reports_attributes fun _ => .bind keeps_visibility reports_visibility fun _ => .pure _

theorem keeps_item : Keeps item :=
  .bind keeps_head fun _ => .bind keeps_atEnd fun _ => .ite (.pure _) (.bind keeps_cells fun _ => keeps_itemAt _ _ _)

theorem reports_item : Reports fake bare item := by
  refine .bind keeps_head reports_head fun _ => .bind keeps_atEnd reports_atEnd fun _ => .ite (.pure _) ?_
  exact .bind keeps_cells reports_cells fun _ => reports_itemAt _ _ _

theorem keeps_prefixDirective : Keeps prefixDirective :=
  .bind (keeps_expect _) fun _ => .bind (keeps_expect _) fun _ => .bind keeps_next fun _ =>
    .ite (.bind (keeps_expect _) fun _ => .pure _) (keeps_fail _)

theorem reports_prefixDirective : Reports fake bare prefixDirective := by
  refine .bind (keeps_expect _) (reports_expect _) fun _ => .bind (keeps_expect _) (reports_expect _) fun _ => ?_
  refine .bind keeps_next reports_next fun _ => .ite ?_ (reports_fail _ _)
  exact .bind (keeps_expect _) (reports_expect _) fun _ => .pure _

theorem keeps_topLevel : Keeps topLevel := .bind keeps_cells fun _ => .ite keeps_prefixDirective keeps_item

theorem reports_topLevel : Reports fake bare topLevel :=
  .bind keeps_cells reports_cells fun _ => .ite reports_prefixDirective reports_item

theorem reports_file : Reports fake bare file :=
  FailsOn.collect (fun _ _ => Sound.suffix) (fun _ => Keeps.bind keeps_topLevel fun _ => .pure _)
    (fun _ => Reports.bind keeps_topLevel reports_topLevel fun _ => .pure _) true

end Read

variable {fake bare : Prop} {cs : List Cell}

/-- The extension block is a group. -/
theorem sound_of_extension (hs : Sound fake bare (cs.map Cell.mark)) {notices : List Notice} {s : Cursor}
    (h : extension? notices cs = some (.ok s)) : Sound fake bare s.marks := by
  fun_induction extension? notices cs with
  | case1 c b o r hc n hn =>
    cases h
    have ho := Read.sound_tail hs (List.suffix_cons b (o :: r))
    have e : Read.skipGroup ⟨o :: r, 0, []⟩ =
        .ok ⟨r.take n, ((r.take n).getLast?.getD o).token.line, []⟩ ⟨r.drop (n + 1), 0, []⟩ := by
      simp only [Read.skipGroup, hn]
    exact Read.sound_of_skipGroup (i := ⟨r.take n, _, []⟩) (s := ⟨o :: r, 0, []⟩) ho e
  | case2 => cases h
  | case3 c b o r hc ih => exact ih (Read.sound_tail hs (List.suffix_refl _)) h
  | case4 => cases h

theorem extension_error (hs : Sound fake bare (cs.map Cell.mark)) {notices : List Notice} {f : Fault}
    (h : extension? notices cs = some (.error f)) : f.IsDueTo fake bare := by
  fun_induction extension? notices cs with
  | case1 => cases h
  | case2 c b o r hc hn =>
    cases h
    simp only [Bool.and_eq_true] at hc
    exact (Read.inside_of_sound hs (by simp) hc.2).resolve_right fun hne => hne hn
  | case3 c b o r hc ih => exact ih (Read.sound_tail hs (List.suffix_refl _)) h
  | case4 => cases h

theorem readCells_error (hs : Sound fake bare (cs.map Cell.mark)) {moduleName : String} {f : Fault}
    (h : (readCells moduleName cs).document = .error f) : f.IsDueTo fake bare := by
  unfold readCells at h
  split at h
  · next g hrange =>
    cases h
    rw [readingRange, Option.getD_eq_iff] at hrange
    exact extension_error hs (hrange.resolve_right fun hn => nomatch hn.2)
  · next s hrange =>
    rw [readingRange, Option.getD_eq_iff] at hrange
    have hsound : Sound fake bare s.marks := by
      obtain hext | ⟨-, hall⟩ := hrange
      · exact sound_of_extension hs hext
      · cases hall
        exact hs
    split at h
    · cases h
    · next hfile =>
      cases h
      exact Read.reports_file s hsound _ _ hfile

theorem Grouped.inside {ms : List Mark} (h : Grouped ms) {m : Mark} (hm : m ∈ ms) {d : Delimiter}
    (hw : m.word = .opening d) : m.inside ≠ none := by
  induction ms with
  | nil => cases hm
  | cons n ms ih =>
    obtain rfl | hm := List.mem_cons.1 hm
    · intro hn
      have hhead := h.1
      rw [Mark.Heads, hn] at hhead
      exact hhead d hw
    · exact ih h.2 hm

/-- A delimiter is taken as punctuation, whatever follows. -/
theorem lexeme_opening {c : Char} (hc : c ∈ ['(', '[', '\x7b']) (r : List Char) :
    lexeme c r = .ok ⟨some .punct, [c], r⟩ := by
  simp only [List.mem_cons, List.not_mem_nil, or_false] at hc
  obtain rfl | rfl | rfl := hc <;> rfl

theorem exists_of_isOpeningText {text : String} (h : isOpeningText text = true) : ∃ d : Delimiter, d.opening = text := by
  obtain ⟨d, -, hd⟩ := List.any_eq_true.1 h
  exact ⟨d, eq_of_beq hd⟩

theorem kind_of_lexeme {c : Char} {r : List Char} {l : Lexeme} (h : lexeme c r = .ok l) {k : TokenKind}
    (hk : l.kind = some k) (ht : isOpeningText (String.ofList l.text) = true) : k = .doc ∨ k = .punct := by
  by_cases hdoc : k = .doc
  · exact .inl hdoc
  · right
    have htext : l.text = l.source := by
      rw [Lexeme.text, hk]
      cases k <;> first | rfl | exact absurd rfl hdoc
    obtain ⟨d, hd⟩ := exists_of_isOpeningText ht
    have hsource : l.source = d.opening.toList := by rw [hd, htext, String.toList_ofList]
    have hfront := (starts_lexeme h).append
    rw [hsource] at hfront
    have hc : c ∈ ['(', '[', '\x7b'] := by
      cases d <;> rw [← (List.cons.inj hfront).1] <;> decide
    rw [lexeme_opening hc] at h
    cases h
    cases hk
    rfl

/-- Every token is that of a lexeme. -/
theorem exists_lexeme_of_mem {line : Nat} {cs : List Char} {ts : List Token} (h : tokensFrom line cs = .ok ts) {t : Token}
    (hmem : t ∈ ts) : ∃ c r l, lexeme c r = .ok l ∧ l.kind = some t.kind ∧ t.text = String.ofList l.text := by
  fun_induction tokensFrom line cs generalizing ts with
  | case1 =>
    cases h
    cases hmem
  | case2 => cases h
  | case3 => cases h
  | case4 line c r l hl ts' hts ih =>
    cases h
    obtain hmem | hmem := List.mem_append.1 hmem
    · obtain ⟨k, hk, rfl⟩ := Option.map_eq_some_iff.1 (Option.mem_toList.1 hmem)
      exact ⟨c, r, l, hl, hk, rfl⟩
    · exact ih hts hmem

/-- A token with the text of an opening delimiter is one, or a doc comment. -/
theorem kind_of_mem_tokensFrom {line : Nat} {cs : List Char} {ts : List Token} (h : tokensFrom line cs = .ok ts) {t : Token}
    (hmem : t ∈ ts) (ht : isOpeningText t.text = true) : t.kind = .doc ∨ t.kind = .punct := by
  obtain ⟨c, r, l, hl, hk, htext⟩ := exists_lexeme_of_mem h hmem
  exact kind_of_lexeme hl hk (htext ▸ ht)

def HasDocOpening (ts : List Token) : Prop := ∃ t ∈ ts, t.kind = .doc ∧ isOpeningText t.text = true

theorem sound_of_cells {text : String} {ts : List Token} (hts : tokenize text = .ok ts) {cs : List Cell}
    (h : cells ts = .ok cs) : Sound (HasDocOpening ts) (HasBareVisibility (ts.map Token.word)) (cs.map Cell.mark) := by
  obtain ⟨b, hmarks, htokens⟩ := Balanced.exists_of_cells h
  have hwords : (cs.map Cell.mark).map Mark.word = ts.map Token.word := by
    rw [← htokens, List.map_map, List.map_map]
    rfl
  have hgrouped : Grouped (cs.map Cell.mark) := hmarks ▸ b.grouped
  refine ⟨hgrouped, Classical.or_iff_not_imp_left.2 fun hdoc m hm ht => ?_, ?_⟩
  case refine_2 =>
    rw [hwords]
    exact Classical.em _
  obtain ⟨t, htmem, hword⟩ := List.mem_map.1 (hwords ▸ List.mem_map_of_mem hm : m.word ∈ ts.map Token.word)
  rw [← hword] at ht
  have hpunct := (kind_of_mem_tokensFrom hts htmem ht).resolve_left fun hk => hdoc ⟨t, htmem, hk, ht⟩
  obtain ⟨d, hd⟩ := exists_of_isOpeningText ht
  refine hgrouped.inside hm (d := d) ?_
  rw [← hword, Token.word, hpunct, Word.opening, hd]
  rfl

theorem exists_of_cellsOf_error {text : String} {f : Fault} (h : cellsOf text = .error f) :
    ∃ cause line, f = .error cause line := by
  unfold cellsOf at h
  split at h
  · cases h
    exact ⟨_, _, rfl⟩
  · split at h
    · cases h
      exact ⟨_, _, rfl⟩
    · cases h

theorem exists_of_cellsOf {text : String} {cs : List Cell} (h : cellsOf text = .ok cs) :
    ∃ ts, tokenize text = .ok ts ∧ cells ts = .ok cs := by
  unfold cellsOf at h
  split at h
  · cases h
  · next ts hts =>
    split at h
    · cases h
    · next hcells =>
      cases h
      exact ⟨ts, hts, hcells⟩

/-- Every text is read or has its failure reported, but for a doc comment that is an opening delimiter and a visibility
    that ends the body of an impl. -/
theorem readSource_reports (text moduleName : String) :
    (∃ document, (readSource text moduleName).document = .ok document) ∨
    (∃ cause line, (readSource text moduleName).document = .error (.error cause line)) ∨
    ∃ ts, tokenize text = .ok ts ∧
      ((readSource text moduleName).document = .error .noGroup ∧ HasDocOpening ts ∨
        (readSource text moduleName).document = .error .nothingLeft ∧ HasBareVisibility (ts.map Token.word)) := by
  cases hread : (readSource text moduleName).document with
  | ok document => exact .inl ⟨document, rfl⟩
  | error f =>
    right
    unfold readSource at hread
    split at hread
    · next hcells =>
      cases hread
      obtain ⟨cause, line, rfl⟩ := exists_of_cellsOf_error hcells
      exact .inl ⟨cause, line, rfl⟩
    · next cs hcells =>
      obtain ⟨ts, hts, hgroups⟩ := exists_of_cellsOf hcells
      have hdue := readCells_error (sound_of_cells hts hgroups) hread
      cases f with
      | error cause line => exact .inl ⟨cause, line, rfl⟩
      | noGroup => exact .inr ⟨ts, hts, .inl ⟨rfl, hdue⟩⟩
      | nothingLeft => exact .inr ⟨ts, hts, .inr ⟨rfl, hdue⟩⟩

def Reading.fault? (r : Reading) : Option Fault :=
  match r.document with
  | .error f => some f
  | .ok _ => none

theorem Reading.document_of_fault {r : Reading} {f : Fault} (h : r.fault? = some f) : r.document = .error f := by
  unfold fault? at h
  split at h
  · next hd => rw [hd, Option.some.inj h]
  · cases h

/-- Both exceptions are met: a doc comment stands in front of the body of an enum, and an impl ends behind `pub`. -/
theorem readSource_faults :
    (readSource "enum A\n/// \x7b\n\x7b \x7d").document = .error .noGroup ∧
    (readSource "impl A \x7b pub \x7d").document = .error .nothingLeft := by
  constructor
  · exact Reading.document_of_fault (by decide +kernel)
  · exact Reading.document_of_fault (by decide +kernel)

end RingBridge.Source
