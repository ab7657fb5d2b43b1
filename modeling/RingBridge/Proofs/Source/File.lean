import RingBridge.Proofs.Source.Items
/-!
Files: whatever items are written one after the other, their declarations are read in order, and nothing else is.
-/
namespace RingBridge.Source
open Text Spelling Read

theorem reads_concat {ι α : Type} {step : Bool → Read (Option α)} {h : ∀ first, Advances (step first)}
    {tokens : ι → Balanced} (value : ι → α) (xs : List ι) (hne : ∀ x ∈ xs, (tokens x).marks ≠ [])
    (hstep : ∀ x ∈ xs, ∀ first ms, Reads (step first) ((tokens x).marks ++ ms) (· = some (value x)) ms) (first : Bool) :
    Reads (collect step h first) (Item.concat (xs.map tokens)).marks (· = xs.map value) [] := by
  induction xs generalizing first with
  | nil => exact reads_collect_nil first
  | cons x xs ih =>
    have hm : (Item.concat ((x :: xs).map tokens)).marks = (tokens x).marks ++ (Item.concat (xs.map tokens)).marks :=
      Balanced.marks_append _ _
    rw [hm]
    have hx := hstep x List.mem_cons_self first (Item.concat (xs.map tokens)).marks
    have hxs := ih (fun y hy => hne y (List.mem_cons_of_mem x hy)) (fun y hy => hstep y (List.mem_cons_of_mem x hy)) false
    exact reads_collect_cons (List.append_ne_nil_of_left_ne_nil (hne x List.mem_cons_self) _) hx hxs

theorem fnAhead_of_marks {cs : List Cell} {i : Option Nat} {ms : List Mark}
    (h : cs.map Cell.mark = ⟨⟨.ident, "fn"⟩, i⟩ :: ms) : fnAhead cs = true := by
  obtain ⟨c, r, rfl, hm, _⟩ := List.map_eq_cons_iff.1 h
  have hk : c.token.kind = .ident := congrArg (fun m => m.word.kind) hm
  have ht : c.token.text = "fn" := congrArg (fun m => m.word.text) hm
  simp [fnAhead, fnAheadFrom, hk, ht]

theorem marks_tokens (f : FunctionItem) (ms : List Mark) :
    f.tokens.marks ++ ms = visibilityMarks f.isPublic ++ (f.core.marks ++ ms) := by
  rw [FunctionItem.tokens, marks_visibility, List.append_assoc]

theorem FunctionItem.marks_ne_nil (f : FunctionItem) : f.tokens.marks ≠ [] := marks_visibility_ne_nil _ _ _

theorem reads_method (f : FunctionItem) (ms : List Mark) :
    Reads method (f.tokens.marks ++ ms) (· = some (some f.declared)) ms := by
  have hne : f.tokens.marks ++ ms ≠ [] := List.append_ne_nil_of_left_ne_nil f.marks_ne_nil ms
  have hcore : Unadorned (f.core.marks ++ ms) := unadorned_ident (by simp) _
  rw [marks_tokens] at hne ⊢
  refine (reads_attributes (unadorned_visibility _ hcore)).bind fun docs hdocs => .not_end hne ?_
  refine (reads_visibilityMarks _ rfl rfl).bind fun isPublic hisPublic => ?_
  refine Reads.bind (P := (· = some f.declared)) ?_ fun a ha => .pure (by rw [ha])
  refine reads_cells.bind fun cs hcs => ?_
  rw [if_pos (fnAhead_of_marks hcs), hdocs, hisPublic]
  exact (reads_function f ms).bind fun a ha => .pure (by rw [ha])

theorem reads_methods (fs : List FunctionItem) :
    Reads methods (Item.concat (fs.map FunctionItem.tokens)).marks (· = fs.map fun f => some f.declared) [] :=
  reads_concat (fun f : FunctionItem => some f.declared) fs (fun f _ => f.marks_ne_nil)
    (fun f _ _ ms => reads_method f ms) true

theorem Name.spelling_text (n : Name) : spelling [n.text] = n.text := by
  have hp := TypeTokens.spelling_texts (.word n.typeWord .nil)
  have ht : (TypeTokens.word n.typeWord .nil).texts = [n.text] := rfl
  have hpieces : (TypeTokens.word n.typeWord .nil).pieces = [.word n.chars] := by
    rw [TypeTokens.pieces_word]
    show piecesOf n.text.toList ++ [] = _
    rw [n.pieces_text, List.append_nil]
  rw [ht, hpieces, spell_lone] at hp
  exact hp

theorem Name.afterSegment?_chars (n : Name) : afterSegment? n.chars = none := by
  cases hr : n.isRaw with
  | false =>
    have h : afterSegment? (n.ident.chars ++ []) = none := afterSegment?_head n.ident (.inl rfl)
    rw [List.append_nil] at h
    rw [Name.chars, hr]
    exact h
  | true =>
    rw [Name.chars, hr]
    rfl

theorem Name.baseName_text (n : Name) : baseName n.text = n.text := by
  have hless : ∀ c ∈ n.chars, (c != '<') = true := by
    intro c hc
    have hs := (n.isValid.2 c hc).1
    exact bne_iff_ne.2 fun e => absurd (e ▸ hs) (by decide)
  have htake : n.chars.takeWhile (· != '<') = n.chars := by
    have h : (n.chars ++ []).takeWhile (· != '<') = n.chars ++ [].takeWhile (· != '<') :=
      List.takeWhile_append_of_pos hless
    rwa [List.append_nil, List.takeWhile_nil, List.append_nil] at h
  rw [baseName_plain (n.toList_text ▸ n.afterSegment?_chars), n.toList_text, htake]
  rfl

/-- The name of an impl is read up to the brace of its body. -/
theorem reads_implType (n : Name) (body : Balanced) (ms : List Mark) :
    Reads (readType ["\x7b", "where", "for"] "impl type") (⟨n.word, none⟩ :: bodyMarks body ms) (· = n.text)
      (bodyMarks body ms) := by
  have hlacks : (TypeTokens.word n.typeWord .nil).Lacks ["\x7b", "where", "for"] := by
    intro w hw h
    obtain rfl := List.mem_singleton.1 hw
    obtain h | h := List.mem_cons.1 h
    · exact n.typeWord.text_ne (c := '\x7b') (by decide) h
    · have hreserved : ∀ s ∈ ["where", "for"], s ∈ reservedNames := by decide
      exact n.text_ne (hreserved _ h) rfl
  have hname : TypeTokens.word n.typeWord .nil ≠ .nil := by simp
  have h : Reads (readType ["\x7b", "where", "for"] "impl type")
      ((TypeTokens.word n.typeWord .nil).marks ++ bodyMarks body ms) _ _ :=
    TypeTokens.reads_readType ⟨by decide, by decide, by decide⟩ hname hlacks (stops_bodyMarks body ms List.mem_cons_self)
  have ht : (TypeTokens.word n.typeWord .nil).texts = [n.text] := rfl
  rw [ht, n.spelling_text] at h
  exact h

theorem Name.isEmpty_text (n : Name) : n.text.isEmpty = false := by
  obtain ⟨c, r, h, _⟩ := n.front
  rw [Name.text, h]
  simp

theorem reads_impl (name : Name) (fs : List FunctionItem) (ms : List Mark) :
    Reads impl (⟨⟨.ident, "impl"⟩, none⟩ :: ⟨name.word, none⟩
        :: bodyMarks (Item.concat (fs.map FunctionItem.tokens)) ms)
      (· = some { name := name.text, methods := fs.map FunctionItem.declared }) ms := by
  have hless : name.text ≠ "<" := name.text_ne_singleton (c := '<') (by decide)
  have hbang : name.text ≠ "!" := name.text_ne_singleton (c := '!') (by decide)
  refine (reads_optional rfl).bind fun _ _ => (reads_expect rfl).bind fun keyword _ => ?_
  refine (reads_generics (namedAt_cons hless)).bind fun _ _ => (reads_optional (namedAt_cons hbang)).bind fun _ _ => ?_
  refine (reads_implType name _ ms).bind fun type htype => .not_at rfl ?_
  refine (reads_skipWhere rfl).bind fun _ _ => ?_
  refine Reads.bind (.at rfl reads_skipGroup) fun inner hinner => ?_
  rw [htype, name.baseName_text, if_neg (by rw [name.isEmpty_text]; decide)]
  refine ((reads_methods fs).within hinner).bind fun found hfound => .pure ?_
  rw [hfound, List.filterMap_map]
  simp

/-- A struct is read as its fields are read. -/
theorem reads_struct_of (isPublic : Bool) (name : Name) {body : Balanced} {fs : List (Field String)}
    (h : Reads fields body.marks (· = fs) []) (ms : List Mark) :
    Reads (Read.struct isPublic []) (⟨⟨.ident, "struct"⟩, none⟩ :: ⟨name.word, none⟩ :: bodyMarks body ms)
      (· = { name := name.text, fields := fs, isPublic := .boolean isPublic }) ms := by
  refine (reads_expect rfl).bind fun _ _ => reads_expectIdent.bind fun x hx => ?_
  refine (reads_generics rfl).bind fun _ _ => (reads_skipWhere rfl).bind fun _ _ => ?_
  refine Reads.bind (.at rfl (.group h)) fun found hfound => .pure ?_
  rw [hx, hfound]
  rfl

/-- An item that starts with a keyword is read as what stands behind its visibility is read. -/
theorem reads_topLevel_of {isPublic : Bool} {keyword : String} (hk : keyword ∈ ["struct", "impl", "fn"]) {os ms : List Mark}
    {d : Declaration String}
    (h : ∀ c r, (c :: r).map Cell.mark = ⟨⟨.ident, keyword⟩, none⟩ :: os →
      Reads (itemBody isPublic [] c (c :: r)) (⟨⟨.ident, keyword⟩, none⟩ :: os) (· = some d) ms) :
    Reads topLevel (visibilityMarks isPublic ++ ⟨⟨.ident, keyword⟩, none⟩ :: os) (· = .declaration d) ms := by
  have hne : ∀ text ∉ ["struct", "impl", "fn"], keyword ≠ text := fun text ht e => ht (e ▸ hk)
  have hcore : Unadorned (⟨⟨.ident, keyword⟩, none⟩ :: os) := unadorned_ident (hne _ (by decide)) _
  have hjoining : namedAt (visibilityMarks isPublic ++ ⟨⟨.ident, keyword⟩, none⟩ :: os) "prefix" = false := by
    cases isPublic with
    | true => exact namedAt_cons (by simp)
    | false => exact namedAt_cons (hne _ (by decide))
  refine reads_cells.bind fun cs hcs => ?_
  rw [isAt_eq hcs, hjoining, if_neg (by simp)]
  have hhead : Reads head (visibilityMarks isPublic ++ ⟨⟨.ident, keyword⟩, none⟩ :: os) (· = ([], isPublic))
      (⟨⟨.ident, keyword⟩, none⟩ :: os) := by
    refine (reads_attributes (unadorned_visibility _ hcore)).bind fun docs hdocs => ?_
    refine (reads_visibilityMarks _ ?_ ?_).bind fun isPublic hisPublic => .pure (by rw [hdocs, hisPublic])
    · exact namedAt_cons (hne _ (by decide))
    · exact namedAt_cons (hne _ (by decide))
  refine hhead.bind fun f hf => .not_end (List.cons_ne_nil _ _) ?_
  refine reads_cells.bind fun ds hds => ?_
  rw [hf]
  cases ds with
  | nil => simp at hds
  | cons c r => exact (h c r hds).bind fun a ha => .pure (by rw [ha]; rfl)

/-- Marks of a keyword, a name and a group in braces. -/
theorem marks_braced (isPublic : Bool) (keyword : String) (name : Name) (body : Balanced) (ms : List Mark) :
    (visibilityTokens isPublic (.ident keyword (.ident name.text (.group .brace body .nil)))).marks ++ ms
      = visibilityMarks isPublic ++ ⟨⟨.ident, keyword⟩, none⟩ :: ⟨name.word, none⟩ :: bodyMarks body ms := by
  rw [marks_visibility, List.append_assoc]
  simp [Balanced.marks, Balanced.ident, bodyMarks, Name.word]

/-- A struct among items. -/
theorem reads_structItem (isPublic : Bool) (name : Name) {body : Balanced} {fs : List (Field String)}
    (h : Reads fields body.marks (· = fs) []) (ms : List Mark) :
    Reads topLevel
      ((visibilityTokens isPublic (.ident "struct" (.ident name.text (.group .brace body .nil)))).marks ++ ms)
      (· = .declaration (.struct { name := name.text, fields := fs, isPublic := .boolean isPublic })) ms := by
  rw [marks_braced]
  refine reads_topLevel_of (by decide) fun c r hcs => ?_
  have ht : c.token.text = "struct" := TypeTokens.text_of_mark (List.cons.inj hcs).1
  have hk : itemKind? c (c :: r) = some .struct := by simp [itemKind?, ht]
  rw [itemBody, hk]
  exact (reads_struct_of isPublic name h ms).bind fun a ha => .pure (by rw [ha])

/-- An impl among items. -/
theorem reads_implItem (isPublic : Bool) (name : Name) (fs : List FunctionItem) (ms : List Mark) :
    Reads topLevel ((Item.impl isPublic name fs).tokens.marks ++ ms)
      (· = .declaration (Item.impl isPublic name fs).declared) ms := by
  refine (marks_braced isPublic "impl" name (Item.concat (fs.map FunctionItem.tokens)) ms).symm ▸ ?_
  refine reads_topLevel_of (by decide) fun c r hcs => ?_
  have ht : c.token.text = "impl" := TypeTokens.text_of_mark (List.cons.inj hcs).1
  have hk : itemKind? c (c :: r) = some .impl := by simp [itemKind?, ht]
  rw [itemBody, hk]
  exact (reads_impl name fs ms).bind fun a ha => .pure (by rw [ha]; rfl)

/-- A function among items. -/
theorem reads_functionItem {isPublic : Bool} {core : Balanced} {os ms : List Mark} {f : Function String}
    (hm : core.marks ++ ms = ⟨⟨.ident, "fn"⟩, none⟩ :: os)
    (h : Reads (Read.function isPublic []) (⟨⟨.ident, "fn"⟩, none⟩ :: os) (· = f) ms) :
    Reads topLevel ((visibilityTokens isPublic core).marks ++ ms) (· = .declaration (.func f)) ms := by
  rw [marks_visibility, List.append_assoc, hm]
  refine reads_topLevel_of (by decide) fun c r hcs => ?_
  have hk : itemKind? c (c :: r) = some .function := by
    have ht : c.token.text = "fn" := TypeTokens.text_of_mark (List.cons.inj hcs).1
    have hfn : fnAhead (c :: r) = true := fnAhead_of_marks hcs
    simp [itemKind?, ht, hfn]
  rw [itemBody, hk]
  exact h.bind fun a ha => .pure (by rw [ha])

theorem reads_topLevel (i : Item) (ms : List Mark) :
    Reads topLevel (i.tokens.marks ++ ms) (· = .declaration i.declared) ms := by
  cases i with
  | struct isPublic name fs trailing => exact reads_structItem isPublic name (reads_fields fs trailing) ms
  | impl isPublic name fs => exact reads_implItem isPublic name fs ms
  | function f => exact reads_functionItem (f.marks_core ms) (f.marks_core ms ▸ reads_function f ms)

theorem Item.marks_ne_nil (i : Item) : i.tokens.marks ≠ [] := by
  cases i <;> exact marks_visibility_ne_nil _ _ _

/-- A file may hold a single item. -/
theorem reads_file_single {ms : List Mark} (hne : ms ≠ []) {d : Declaration String}
    (h : Reads topLevel ms (· = .declaration d) []) : Reads file ms (· = [d].map .declaration) [] :=
  reads_collect_cons hne (h.bind fun a ha => .pure (by rw [ha])) (reads_collect_nil false)

/-- A file is read item by item. -/
theorem reads_file (items : List Item) :
    Reads file (fileTokens items).marks (· = (items.map Item.declared).map .declaration) [] := by
  rw [List.map_map]
  exact reads_concat (fun i : Item => Found.declaration i.declared) items (fun i _ => i.marks_ne_nil)
    (fun i _ first ms => (reads_topLevel i ms).bind fun a ha => .pure (by rw [ha])) true

/-- Without its name, no extension block is found. -/
theorem extension?_eq_none (notices : List Notice) {cs : List Cell}
    (h : ∀ c ∈ cs, c.token.kind = .ident → c.token.text ≠ "ring_extension") : extension? notices cs = none := by
  induction cs with
  | nil => rfl
  | cons c r ih =>
    have hr := ih fun d hd => h d (List.mem_cons_of_mem c hd)
    cases r with
    | nil => rfl
    | cons b r =>
      cases r with
      | nil => rfl
      | cons o r =>
        rw [extension?, if_neg, hr]
        simp only [Bool.and_eq_true, decide_eq_true_eq]
        rintro ⟨⟨⟨hk, ht⟩, _⟩, _⟩
        exact h c List.mem_cons_self hk ht

theorem documentOf_declarations (moduleName : String) (ds : List (Declaration String)) :
    documentOf moduleName (ds.map .declaration) = ⟨.text moduleName, .text "", ds, .text ""⟩ := by
  have hjoining : prefixIn (ds.map .declaration) = "" := by
    rw [prefixIn, List.findSome?_eq_none_iff.2]
    · rfl
    · intro x hx
      rw [List.mem_reverse] at hx
      obtain ⟨d, _, rfl⟩ := List.mem_map.1 hx
      rfl
  have hdecls : declarationsIn (ds.map .declaration) = ds := by
    rw [declarationsIn, List.filterMap_map]
    exact List.filterMap_some
  rw [documentOf, hjoining, hdecls]

def readingOf (moduleName : String) (items : List Item) : Reading :=
  ⟨.ok ⟨.text moduleName, .text "", items.map Item.declared, .text ""⟩, []⟩

/-- Declarations read one after the other make up the document if no extension block is found. -/
theorem readCells_of_extension {ds : List (Declaration String)} {ms : List Mark}
    (hread : Reads file ms (· = ds.map .declaration) []) (moduleName : String) {cs : List Cell}
    (h : cs.map Cell.mark = ms) (hext : extension? [] cs = none) :
    readCells moduleName cs = ⟨.ok ⟨.text moduleName, .text "", ds, .text ""⟩, []⟩ := by
  obtain ⟨found, t, e, hf, _, hn⟩ := hread (Cursor.ofCells cs) h
  have hrange : readingRange cs = .ok (.ofCells cs) := by rw [readingRange, hext]; rfl
  rw [readCells, hrange]
  simp only [e, hn, hf, documentOf_declarations]
  rfl

/-- Declarations read one after the other, without the name of the extension macro among the cells. -/
theorem readCells_of_reads {ds : List (Declaration String)} {ms : List Mark} (hread : Reads file ms (· = ds.map .declaration) [])
    (moduleName : String) {cs : List Cell} (h : cs.map Cell.mark = ms)
    (hext : ∀ c ∈ cs, c.token.kind = .ident → c.token.text ≠ "ring_extension") :
    readCells moduleName cs = ⟨.ok ⟨.text moduleName, .text "", ds, .text ""⟩, []⟩ :=
  readCells_of_extension hread moduleName h (extension?_eq_none [] hext)

theorem readCells_of_marks (items : List Item) (moduleName : String) {cs : List Cell}
    (h : cs.map Cell.mark = (fileTokens items).marks)
    (hext : ∀ c ∈ cs, c.token.kind = .ident → c.token.text ≠ "ring_extension") :
    readCells moduleName cs = readingOf moduleName items :=
  readCells_of_reads (reads_file items) moduleName h hext

/-- Balanced words from which declarations are read, on any lines and from any text that has them. -/
theorem readSource_of_reads {b : Balanced} {ds : List (Declaration String)}
    (hread : Reads file b.marks (· = ds.map .declaration) []) (moduleName : String) {ts : List Token}
    (h : ts.map Token.word = b.words) (hext : ∀ t ∈ ts, t.kind = .ident → t.text ≠ "ring_extension") :
    (∃ cs, cells ts = .ok cs ∧ readCells moduleName cs = ⟨.ok ⟨.text moduleName, .text "", ds, .text ""⟩, []⟩)
      ∧ ∀ text, tokenize text = .ok ts →
        readSource text moduleName = ⟨.ok ⟨.text moduleName, .text "", ds, .text ""⟩, []⟩ := by
  obtain ⟨cs, hcs, hm, ht⟩ := b.cells_words h
  have hext' : ∀ c ∈ cs, c.token.kind = .ident → c.token.text ≠ "ring_extension" := by
    intro c hc
    exact hext c.token (by rw [← ht]; exact List.mem_map_of_mem hc)
  have hcells := readCells_of_reads hread moduleName hm hext'
  refine ⟨⟨cs, hcs, hcells⟩, fun text htext => ?_⟩
  rw [readSource, cellsOf, htext]
  simp only [hcs, hcells]

/-- Tokens that items are written as are read as these items, from the tokens and from any text that has them. -/
theorem readCells_rendered (items : List Item) (moduleName : String) {ts : List Token}
    (h : ts.map Token.word = (fileTokens items).words)
    (hext : ∀ t ∈ ts, t.kind = .ident → t.text ≠ "ring_extension") :
    (∃ cs, cells ts = .ok cs ∧ readCells moduleName cs = readingOf moduleName items)
      ∧ ∀ text, tokenize text = .ok ts → readSource text moduleName = readingOf moduleName items := by
  obtain ⟨cs, hcs, hm, ht⟩ := Balanced.cells_words (fileTokens items) h
  have hext' : ∀ c ∈ cs, c.token.kind = .ident → c.token.text ≠ "ring_extension" := by
    intro c hc
    exact hext c.token (by rw [← ht]; exact List.mem_map_of_mem hc)
  have hread := readCells_of_marks items moduleName hm hext'
  refine ⟨⟨cs, hcs, hread⟩, fun text htext => ?_⟩
  rw [readSource, cellsOf, htext]
  simp only [hcs, hread]

namespace Sample

def nameOf (c : Char) (r : List Char) (h : isNameStart c = true ∧ (∀ d ∈ r, isWord d = true)
    ∧ String.ofList (c :: r) ∉ reservedNames) : Name := ⟨false, ⟨c, r, h.1, h.2.1⟩, .inr h.2.2⟩

def typeOf (n : Name) (h : n.text ∉ [",", ";", "where"]) : TypeText :=
  ⟨.word n.typeWord .nil, by simp, fun w hw => by obtain rfl := List.mem_singleton.1 hw; exact h⟩

def unit : TypeText := ⟨.group .paren .nil .nil, by simp, fun _ hw => absurd hw List.not_mem_nil⟩

def point : Name := nameOf 'P' [] (by decide)

def items : List Item :=
  [.struct true point [⟨false, nameOf 'x' [] (by decide), typeOf (nameOf 'f' ['6', '4'] (by decide)) (by decide)⟩] true,
    .function ⟨false, nameOf 'f' [] (by decide), none, [⟨nameOf 'p' [] (by decide), typeOf point (by decide)⟩], false,
      some unit, .nil⟩]

end Sample

theorem readCells_sample :
    ∃ cs, cells [⟨.ident, "pub", 1⟩, ⟨.ident, "struct", 1⟩, ⟨.ident, "P", 1⟩, ⟨.punct, "\x7b", 1⟩, ⟨.ident, "x", 2⟩,
        ⟨.punct, ":", 2⟩, ⟨.ident, "f64", 2⟩, ⟨.punct, ",", 2⟩, ⟨.punct, "\x7d", 3⟩, ⟨.ident, "fn", 4⟩, ⟨.ident, "f", 4⟩,
        ⟨.punct, "(", 4⟩, ⟨.ident, "p", 4⟩, ⟨.punct, ":", 4⟩, ⟨.ident, "P", 4⟩, ⟨.punct, ")", 4⟩, ⟨.punct, "->", 4⟩,
        ⟨.punct, "(", 4⟩, ⟨.punct, ")", 4⟩, ⟨.punct, "\x7b", 4⟩, ⟨.punct, "\x7d", 4⟩] = .ok cs
      ∧ readCells "m" cs = ⟨.ok ⟨.text "m", .text "", [.struct { name := "P", fields := [⟨"x", "f64", .boolean false⟩] },
          .func { name := "f", params := [⟨"p", "P"⟩], isPublic := .boolean false }], .text ""⟩, []⟩ :=
  (readCells_rendered Sample.items "m" rfl (by decide)).1

end RingBridge.Source
