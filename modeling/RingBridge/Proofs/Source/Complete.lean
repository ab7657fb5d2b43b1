import Mathlib.Data.List.DropRight
import RingBridge.Proofs.Source.Yields
import RingBridge.Proofs.Spelling.Pieces
/-!
Names and types that are missing. A parameter or a field is read without its name or its type only where a colon has
nothing but empty doc comments behind it, or `mut` and `ref` have nothing but one beside them.
-/
namespace RingBridge
namespace Source
open Text Spelling

def emptyDoc : Word := ⟨.doc, ""⟩

def IsBlankText (s : String) : Prop := ∀ c ∈ s.toList, isBlank c = true

theorem trim_eq_nil {cs : List Char} (h : ∀ c ∈ trim cs, isBlank c = true) : trim cs = [] := by
  have hagain : (trim cs).rdropWhile isBlank = [] := List.rdropWhile_eq_nil_iff.2 h
  exact (List.rdropWhile_idempotent isBlank (trimStart cs)).symm.trans hagain

/-- The text of a lexeme that is no gap holds more than blanks, unless the lexeme is a doc comment. -/
theorem text_of_blank_lexeme {c : Char} {r : List Char} {l : Lexeme} (h : lexeme c r = .ok l) {k : TokenKind}
    (hk : l.kind = some k) (hblank : ∀ d ∈ l.text, isBlank d = true) : k = .doc ∧ l.text = [] := by
  by_cases hdoc : k = .doc
  · subst hdoc
    refine ⟨rfl, ?_⟩
    rw [Lexeme.text, hk] at hblank ⊢
    dsimp only at hblank ⊢
    split at hblank
    · next hline =>
      rw [if_pos hline]
      exact trim_eq_nil hblank
    · next hline =>
      rw [if_neg hline]
      exact trim_eq_nil hblank
  · have htext : l.text = l.source := by
      rw [Lexeme.text, hk]
      cases k <;> first | rfl | exact absurd rfl hdoc
    obtain ⟨happend, hne⟩ := starts_lexeme h
    obtain ⟨d, t, hsource⟩ := List.exists_cons_of_ne_nil hne
    rw [hsource] at happend
    have hc : isBlank c = true := (List.cons.inj happend).1 ▸ hblank d (by rw [htext, hsource]; exact List.mem_cons_self ..)
    rw [lexeme.eq_def, if_pos hc] at h
    cases h
    cases hk

/-- Cells whose texts are not blank but in empty doc comments. -/
def AreSolid (cs : List Cell) : Prop := ∀ c ∈ cs, IsBlankText c.token.text → c.token.word = emptyDoc

theorem areSolid_of_cellsOf {text : String} {cs : List Cell} (h : cellsOf text = .ok cs) : AreSolid cs := by
  obtain ⟨ts, hts, hcells⟩ := exists_of_cellsOf h
  obtain ⟨_, _, htokens⟩ := Balanced.exists_of_cells hcells
  intro c hc hblank
  obtain ⟨d, r, l, hl, hk, htext⟩ := exists_lexeme_of_mem hts (htokens ▸ List.mem_map_of_mem hc)
  rw [IsBlankText, htext, String.toList_ofList] at hblank
  obtain ⟨hkind, hempty⟩ := text_of_blank_lexeme hl hk hblank
  rw [Token.word, hkind, htext, hempty]
  rfl

theorem blank_of_piecesOf {cs : List Char} (h : piecesOf cs = []) : ∀ c ∈ cs, isBlank c = true := by
  induction cs with
  | nil => exact List.forall_mem_nil _
  | cons c cs ih =>
    cases hc : isBlank c with
    | true =>
      rw [piecesOf_blank hc] at h
      exact List.forall_mem_cons.2 ⟨hc, ih h⟩
    | false => obtain ⟨ps, hp⟩ | ⟨w, ps, hp⟩ := piecesOf_cons hc cs <;> rw [hp] at h <;> cases h

theorem eq_nil_of_spell {ps : List Piece} (hv : ∀ p ∈ ps, p.IsValid) (h : spell ps = []) : ps = [] := by
  rw [← piecesOf_spell hv, h]
  rfl

/-- Only blank texts have no spelling. -/
theorem blank_of_spelling {parts : List String} (h : Read.spelling parts = "") : ∀ p ∈ parts, IsBlankText p := by
  have hpieces : piecesOf (" ".intercalate parts).toList = parts.flatMap fun s => piecesOf s.toList := by
    rw [String.toList_intercalate]
    refine (piecesOf_intercalate _).trans ?_
    rw [List.flatMap_map]
  have hspell : spell (piecesOf (" ".intercalate parts).toList) = [] := by
    rw [Read.spelling, onText, normalize_eq] at h
    exact String.ofList_eq_empty_iff.1 h
  have hnil := eq_nil_of_spell (isValid_piecesOf _) hspell
  rw [hpieces, List.flatMap_eq_nil_iff] at hnil
  exact fun p hp => blank_of_piecesOf (hnil p hp)

/-- Behind a colon stand only empty doc comments, up to a comma or the end of a group. -/
def LacksType (ws : List Word) : Prop := ∃ (c e : Word) (n : Nat), c.text = ":" ∧ e.text ∈ [",", ")", "\x7d"] ∧
  c :: (List.replicate n emptyDoc ++ [e]) <:+: ws

/-- Between an empty doc comment and a colon stand only `mut` and `ref`. -/
def LacksName (ws : List Word) : Prop := ∃ (ms : List Word) (c : Word), (∀ m ∈ ms, m.text ∈ ["mut", "ref"]) ∧
  c.text = ":" ∧ emptyDoc :: (ms ++ [c]) <:+: ws

def Lacks (ws : List Word) : Prop := LacksName ws ∨ LacksType ws

theorem Lacks.of_infix {ws us : List Word} (h : Lacks us) (hi : us <:+: ws) : Lacks ws := by
  obtain ⟨ms, c, hms, hc, h⟩ | ⟨c, e, n, hc, he, h⟩ := h
  · exact .inl ⟨ms, c, hms, hc, h.trans hi⟩
  · exact .inr ⟨c, e, n, hc, he, h.trans hi⟩

theorem lacksName_of_texts {us : List Word} (hsolid : ∀ w ∈ us, IsBlankText w.text → w = emptyDoc)
    {pattern type : List String} (h : us.map Word.text = pattern ++ ":" :: type) (hname : Read.patternName pattern = "") :
    LacksName us := by
  obtain ⟨front, rest, rfl, hfront, hrest⟩ := List.map_eq_append_iff.1 h
  obtain ⟨c, back, rfl, hc, -⟩ := List.map_eq_cons_iff.1 hrest
  have hfilter : pattern.filter (fun t => t != "mut" && t != "ref") = [""] := by
    unfold Read.patternName at hname
    split at hname
    · next name hone => rw [hone, hname]
    · exact absurd hname (by decide)
  obtain ⟨before, after, rfl, -, -, hafter⟩ := List.filter_eq_cons_iff.1 hfilter
  obtain ⟨xs, rest, rfl, -, hrest⟩ := List.map_eq_append_iff.1 hfront
  obtain ⟨b, ms, rfl, hb, rfl⟩ := List.map_eq_cons_iff.1 hrest
  have hempty : b = emptyDoc := hsolid b (by simp) (by rw [hb]; exact List.forall_mem_nil _)
  subst hempty
  refine ⟨ms, c, fun m hm => ?_, hc, xs, back, by simp⟩
  have hword := List.filter_eq_nil_iff.1 hafter m.text (List.mem_map_of_mem hm)
  simpa [or_iff_not_imp_left] using hword

theorem lacksType_of_texts {us : List Word} (hsolid : ∀ w ∈ us, IsBlankText w.text → w = emptyDoc)
    {pattern type : List String} (h : us.map Word.text = pattern ++ ":" :: type) (htype : Read.spelling type = "")
    {e : Word} (he : e.text ∈ [",", ")", "\x7d"]) : LacksType (us ++ [e]) := by
  obtain ⟨front, rest, rfl, -, hrest⟩ := List.map_eq_append_iff.1 h
  obtain ⟨c, bs, rfl, hc, rfl⟩ := List.map_eq_cons_iff.1 hrest
  have hbs : bs = List.replicate bs.length emptyDoc := by
    refine List.eq_replicate_iff.2 ⟨rfl, fun b hb => hsolid b (by simp [hb]) ?_⟩
    exact blank_of_spelling htype b.text (List.mem_map_of_mem hb)
  exact ⟨c, e, bs.length, hc, he, hbs ▸ ⟨front, [], by simp⟩⟩

/-- A type goes up to a stop or to the end of the range. -/
theorem exists_of_typeParts (stops : List String) (depth : Int) (cs : List Cell) :
    ∃ front rest, cs = front ++ rest ∧ (front.map fun c => c.token.text) = (Read.typeParts stops depth cs).1 ∧
      ∀ c ∈ rest.head?, c.token.text ∈ stops := by
  induction cs generalizing depth with
  | nil => exact ⟨[], [], rfl, rfl, fun c hc => by cases hc⟩
  | cons c r ih =>
    rw [Read.typeParts]
    split
    · next hstop =>
      refine ⟨[], c :: r, rfl, rfl, fun d hd => ?_⟩
      cases hd
      simp only [Read.isStop, Bool.and_eq_true, List.contains_iff_mem] at hstop
      exact hstop.2.2
    · obtain ⟨front, rest, rfl, hfront, hrest⟩ := ih (depth + Read.typeNesting c.token.text)
      exact ⟨c :: front, rest, rfl, congrArg (_ :: ·) hfront, hrest⟩

/-- A parameter goes up to a comma or to the end of the range. -/
theorem exists_of_paramCut (depth : Int) (cs : List Cell) :
    ∃ front rest, cs = front ++ rest ∧ front.map Cell.token = (Read.paramCut depth cs).1 ∧
      ∀ c ∈ rest.head?, c.token.text = "," := by
  fun_induction Read.paramCut depth cs with
  | case1 => exact ⟨[], [], rfl, rfl, fun c hc => by cases hc⟩
  | case2 depth c r n hn after ih =>
    obtain ⟨front, rest, hr, hfront, hrest⟩ := ih
    refine ⟨c :: (r.take (n + 1) ++ front), rest, ?_, ?_, hrest⟩
    · rw [List.cons_append, List.append_assoc, ← hr, List.take_append_drop]
    · rw [List.map_cons, List.map_append, hfront]
      rfl
  | case3 depth c r hn hc =>
    refine ⟨[], c :: r, rfl, rfl, fun d hd => ?_⟩
    cases hd
    simp only [Bool.and_eq_true, decide_eq_true_eq] at hc
    exact hc.1
  | case4 depth c r hn hc step after ih =>
    obtain ⟨front, rest, rfl, hfront, hrest⟩ := ih
    exact ⟨c :: front, rest, rfl, congrArg (_ :: ·) hfront, hrest⟩

/-- A parameter with its name and its type has a colon between them. -/
theorem exists_of_takenOf {first : Bool} {texts : List String} {p : Param String}
    (h : Read.takenOf first texts = .ok (.param p)) :
    ∃ pattern type, texts = pattern ++ ":" :: type ∧ p = ⟨Read.patternName pattern, Read.spelling type⟩ := by
  simp only [Read.takenOf] at h
  split at h
  · cases h
  · split at h
    · cases h
    · next colon type hrest =>
      cases h
      have hcolon : colon = ":" := by
        have hhead := List.head?_dropWhile_not (· != ":") texts
        rw [hrest] at hhead
        simpa using hhead
      subst hcolon
      refine ⟨_, type, ?_, rfl⟩
      rw [← hrest, List.takeWhile_append_dropWhile]

structure Clean (back : List Word) (cs : List Cell) : Prop where
  grouped : Grouped (cs.map Cell.mark)
  solid : AreSolid cs
  complete : ¬ Lacks (wordsOf cs ++ back)

instance (back : List Word) : Inherited (Clean back) where
  suffix {cs ds} h hs := by
    refine ⟨h.grouped.suffix (hs.map _), fun c hc => h.solid c (hs.subset hc), fun hl => h.complete (hl.of_infix ?_)⟩
    obtain ⟨front, rfl⟩ := hs
    exact ⟨wordsOf front, [], by simp [wordsOf]⟩

instance : Inherited fun _ => True := ⟨fun _ _ => trivial⟩

namespace Clean
variable {back : List Word} {cs front rest : List Cell} {s t i : Cursor}

theorem solid_words (h : Clean back (front ++ rest)) : ∀ w ∈ wordsOf front, IsBlankText w.text → w = emptyDoc := by
  intro w hw hblank
  obtain ⟨c, hc, rfl⟩ := List.mem_map.1 hw
  exact h.solid c (List.mem_append_left rest hc) hblank

/-- The inside of a group, with the word behind it. -/
theorem inside {d : Delimiter} {inner : Balanced} (h : Clean back s.cells) (hi : i.marks = inner.marks)
    (hs : s.marks = ⟨.opening d, some inner.marks.length⟩ :: (inner.marks ++ ⟨.closing d, none⟩ :: t.marks))
    (hsub : i.cells ⊆ s.cells) : Clean [.closing d] i.cells := by
  refine ⟨?_, fun c hc => h.solid c (hsub hc), fun hl => h.complete (hl.of_infix ?_)⟩
  · exact (show i.cells.map Cell.mark = inner.marks from hi) ▸ inner.grouped
  · have hinner : wordsOf i.cells = inner.words := wordsOf_eq hi
    have hwords : wordsOf s.cells = s.marks.map Mark.word := by
      rw [Cursor.marks, List.map_map]
      rfl
    rw [hinner, hwords, hs, List.map_cons, List.map_append, List.map_cons, inner.map_word_marks]
    exact ⟨[.opening d], t.marks.map Mark.word ++ back, by simp⟩

theorem nil (h : Clean back cs) : Clean [] cs := by
  refine ⟨h.grouped, h.solid, fun hl => h.complete (hl.of_infix ?_)⟩
  rw [List.append_nil]
  exact (List.prefix_append _ _).isInfix

/-- Where a parameter or a type ends, there is a comma or the end of its group. -/
theorem exists_end {d : Delimiter} (hd : d.closing ∈ [",", ")", "\x7d"]) {rest : List Cell}
    (h : ∀ c ∈ rest.head?, c.token.text = ",") :
    ∃ e after, wordsOf rest ++ [.closing d] = e :: after ∧ e.text ∈ [",", ")", "\x7d"] := by
  cases rest with
  | nil => exact ⟨.closing d, [], rfl, hd⟩
  | cons c r => exact ⟨c.token.word, _, rfl, List.mem_cons.2 (.inl (h c rfl))⟩

variable {pattern type : List String}

theorem texts_wordsOf (h : (front.map fun c => c.token.text) = pattern ++ ":" :: type) :
    (wordsOf front).map Word.text = pattern ++ ":" :: type := by
  rw [← h, wordsOf, List.map_map]
  rfl

theorem name_ne (h : Clean back (front ++ rest))
    (htexts : (front.map fun c => c.token.text) = pattern ++ ":" :: type) : Read.patternName pattern ≠ "" := by
  intro hname
  refine h.complete (Lacks.of_infix (.inl (lacksName_of_texts h.solid_words (texts_wordsOf htexts) hname)) ?_)
  exact ⟨[], wordsOf rest ++ back, by rw [wordsOf_append, List.nil_append, List.append_assoc]⟩

theorem spelling_ne {d : Delimiter} (hd : d.closing ∈ [",", ")", "\x7d"]) (h : Clean [.closing d] (front ++ rest))
    (htexts : (front.map fun c => c.token.text) = pattern ++ ":" :: type)
    (hrest : ∀ c ∈ rest.head?, c.token.text = ",") : Read.spelling type ≠ "" := by
  intro htype
  obtain ⟨e, after, hend, he⟩ := exists_end hd hrest
  refine h.complete (Lacks.of_infix (.inr (lacksType_of_texts h.solid_words (texts_wordsOf htexts) htype he)) ?_)
  refine ⟨[], after, ?_⟩
  rw [wordsOf_append, List.append_assoc _ (wordsOf rest), hend, List.nil_append, List.append_assoc, List.singleton_append]

end Clean

end Source

def Param.IsTyped (p : Param String) : Prop := p.name ≠ "" ∧ p.type ≠ ""

def Function.IsTyped (f : Function String) : Prop := ∀ p ∈ f.params, p.IsTyped

def Declaration.IsTyped : Declaration String → Prop
  | struct t => ∀ f ∈ t.fields, f.type ≠ ""
  | impl i => i.name ≠ "" ∧ ∀ f ∈ i.methods, f.IsTyped
  | func f => f.IsTyped

namespace Source

def AfterColon (back : List Word) (cs : List Cell) : Prop := ∃ c : Cell, c.token.text = ":" ∧ Clean back (c :: cs)

namespace Read
variable {α : Type} {back : List Word} {P : α → Prop}

theorem yields_skipGroup : Yields (Clean []) skipGroup fun inner => Clean [] inner.cells := by
  intro s i t hs e
  obtain ⟨d, inner, hi, hmarks⟩ := exists_of_skipGroup hs.grouped e
  exact (hs.inside hi hmarks (subset_of_skipGroup e)).nil

/-- A step over a group that is told by its opening word. -/
theorem Yields.atGroup {d : Delimiter} {k : Cursor → Read α} {n : Read α}
    (hk : ∀ i : Cursor, Clean [.closing d] i.cells → Yields (Clean back) (k i) P) (hn : Yields (Clean back) n P) :
    Yields (Clean back) (at_ d.opening >>= fun b => if b = true then skipGroup >>= k else n) P := by
  intro s a u hs e
  obtain ⟨b, s', hb, e⟩ := exists_of_bind e
  cases hb
  split at e
  · next hat =>
    obtain ⟨i, t, es, e⟩ := exists_of_bind e
    obtain ⟨inner, hi, hmarks⟩ := exists_of_skipGroup_at hs.grouped hat es
    have ht : Clean back t.cells := Inherited.suffix hs (keeps_skipGroup.ok es)
    exact hk i (hs.inside hi hmarks (subset_of_skipGroup es)) t a u ht e
  · exact hn s a u hs e

theorem yields_colon {s t : Cursor} {a : Token} (hs : Clean back s.cells) (e : expect ":" s = .ok a t) :
    AfterColon back t.cells := by
  unfold expect at e
  split at e
  · next c r hc =>
    split at e
    · next htext =>
      cases e
      exact ⟨c, htext, hc ▸ hs⟩
    · cases e
  · cases e

theorem yields_readType {d : Delimiter} (hd : d.closing ∈ [",", ")", "\x7d"]) (what : String) :
    Yields (AfterColon [.closing d]) (readType [","] what) (· ≠ "") := by
  intro s a t hs e
  obtain ⟨c, hc, hclean⟩ := hs
  obtain ⟨front, rest, hcells, hfront, hrest⟩ := exists_of_typeParts [","] 0 s.cells
  simp only [readType] at e
  split at e
  · cases e
  · cases e
    rw [hcells, ← List.cons_append] at hclean
    have htexts : ((c :: front).map fun c => c.token.text) = [] ++ ":" :: (typeParts [","] 0 s.cells).1 := by
      rw [List.map_cons, hc, hfront]
      rfl
    exact hclean.spelling_ne hd htexts fun d hd => List.mem_singleton.1 (hrest d hd)

theorem yields_paramTokens (first : Bool) : Yields (Clean [.closing .paren]) paramTokens fun ts =>
    ∀ p, takenOf first (ts.map Token.text) = .ok (.param p) → p.IsTyped := by
  intro s ts t hs e p hp
  cases e
  obtain ⟨front, rest, hcells, hfront, hrest⟩ := exists_of_paramCut 0 s.cells
  obtain ⟨pattern, type, htexts, rfl⟩ := exists_of_takenOf hp
  rw [← hfront, List.map_map] at htexts
  rw [hcells] at hs
  exact ⟨hs.name_ne htexts, hs.spelling_ne (by decide) htexts hrest⟩

theorem yields_param (first : Bool) :
    Yields (Clean [.closing .paren]) (param first) fun o => ∀ t ∈ o, ∀ p, t = .param p → p.IsTyped := by
  refine .after keeps_attributes fun _ => .bind keeps_paramTokens (yields_paramTokens first) fun ts hts => ?_
  split
  · exact .none
  · split
    · next taken htaken => exact .some fun p hp => hts p (hp ▸ htaken)
    · exact yields_fail _

theorem yields_paramGroup (name : String) :
    Yields (Clean []) (paramGroup name) fun ts => ∀ t ∈ ts, ∀ p, t = .param p → p.IsTyped := by
  have hparams : Yields (Clean [.closing .paren]) params fun ts => ∀ t ∈ ts, ∀ p, t = .param p → p.IsTyped :=
    .collect keeps_param yields_param true
  exact .atGroup (d := .paren) (fun i hi => .within hi hparams) (yields_failHere _)

theorem yields_function (isPublic : Bool) (docs : List String) :
    Yields (Clean []) (function isPublic docs) Function.IsTyped := by
  refine .after keeps_seekFn fun _ => .after (keeps_expect _) fun _ => .after (keeps_expectIdent _) fun _ => ?_
  refine .after keeps_generics fun _ => .bind (keeps_paramGroup _) (yields_paramGroup _) fun taken htaken => ?_
  refine .after (keeps_result _) fun _ => .after keeps_skipWhere fun _ => .after keeps_functionBody fun _ => .pure ?_
  intro p hp
  obtain ⟨t, ht, he⟩ := List.mem_filterMap.1 hp
  split at he
  · cases he
    exact htaken _ ht _ rfl
  · cases he

theorem yields_field : Yields (Clean [.closing .brace]) field fun o => ∀ f ∈ o, f.type ≠ "" := by
  refine .after keeps_attributes fun _ => .after keeps_atEnd fun _ => .ite .none ?_
  refine .after keeps_visibility fun _ => .after (keeps_expectIdent _) fun name => ?_
  refine .bindTo (J := AfterColon _) (P := fun _ => True) (fun _ _ _ hs e => ⟨trivial, yields_colon hs e⟩) fun _ _ => ?_
  have htype := yields_readType (d := .brace) (by decide) ("type of field " ++ name.text)
  refine .bindTo (J := fun _ => True) (fun s a t hs e => ⟨htype s a t hs e, trivial⟩) fun type htype => ?_
  exact .after (keeps_optional _) fun _ => .some htype

theorem yields_struct (isPublic : Bool) (docs : List String) :
    Yields (Clean []) (struct isPublic docs) fun t => ∀ f ∈ t.fields, f.type ≠ "" := by
  have hfields : Yields (Clean [.closing .brace]) fields fun fs => ∀ f ∈ fs, f.type ≠ "" :=
    .collect (fun _ => keeps_field) (fun _ => yields_field) true
  have hbody : Yields (Clean []) structBody fun fs => ∀ f ∈ fs, f.type ≠ "" := by
    refine .atGroup (d := .brace) (fun i hi => .within hi hfields) (.after (keeps_at _ _) fun _ => .ite ?_ ?_)
    · refine .after keeps_skipGroup fun _ => .after keeps_skipWhere fun _ => .after (keeps_expect _) fun _ => ?_
      exact .pure (List.forall_mem_nil _)
    · exact .after (keeps_expect _) fun _ => .pure (List.forall_mem_nil _)
  refine .after (keeps_expect _) fun _ => .after (keeps_expectIdent _) fun _ => .after keeps_generics fun _ => ?_
  exact .after keeps_skipWhere fun _ => .bind keeps_structBody hbody fun fs hfs => .pure hfs

theorem items_yield : ItemsYield (Clean []) Function.IsTyped Declaration.IsTyped where
  inside := yields_skipGroup
  function := yields_function
  struct := yields_struct
  func _ hf := hf
  impl _ hname hms := ⟨hname, hms⟩

end Read

/-- Whatever source declares has its names and types, if none is missing among the tokens. -/
theorem isTyped_of_readSource {text moduleName : String} {d : Document String}
    (h : (readSource text moduleName).document = .ok d) :
    ∃ ts, tokenize text = .ok ts ∧ (Lacks (ts.map Token.word) ∨ ∀ decl ∈ d.decls, decl.IsTyped) := by
  cases hcells : cellsOf text with
  | error f =>
    rw [readSource, hcells] at h
    cases h
  | ok cs =>
    obtain ⟨ts, hts, hgroups⟩ := exists_of_cellsOf hcells
    obtain ⟨b, hmarks, htokens⟩ := Balanced.exists_of_cells hgroups
    have hwords : wordsOf cs = ts.map Token.word := by
      rw [← htokens, List.map_map]
      rfl
    refine ⟨ts, hts, Classical.or_iff_not_imp_left.2 fun hlacks => ?_⟩
    have hclean : Clean [] cs := by
      refine ⟨hmarks ▸ b.grouped, areSolid_of_cellsOf hcells, ?_⟩
      rwa [List.append_nil, hwords]
    refine Read.items_yield.readSource (fun ds hds => ?_) h
    cases hcells.symm.trans hds
    exact hclean

end Source
end RingBridge
