import RingBridge.Proofs.Source.Grouped
import RingBridge.Proofs.Source.Joined
import RingBridge.Proofs.Source.Reported
import RingBridge.Proofs.Source.Unplaced
/-!
Extension blocks. A text with an extension block reads as the inside of the block does alone, whatever stands around the
block, unless the block is announced before.
-/
namespace RingBridge.Source

/-- The name of the extension macro stands in front of a word `!`, of whatever kind that is. -/
def Announces (ws : List Word) : Prop := ∃ b : Word, b.text = "!" ∧ [⟨.ident, "ring_extension"⟩, b] <:+: ws

theorem Announces.cons {w : Word} {ws : List Word} (h : Announces ws) : Announces (w :: ws) := by
  obtain ⟨b, hb, hinfix⟩ := h
  exact ⟨b, hb, List.infix_cons hinfix⟩

/-- Nothing is announced without the name of the macro. -/
theorem Announces.mem {ws : List Word} (h : Announces ws) : ⟨.ident, "ring_extension"⟩ ∈ ws := by
  obtain ⟨b, -, hinfix⟩ := h
  exact hinfix.subset (List.mem_cons_self ..)

theorem announces_of_head {c b : Cell} {r : List Cell} (hk : c.token.kind = .ident)
    (ht : c.token.text = "ring_extension") (hb : b.token.text = "!") : Announces (wordsOf (c :: b :: r)) := by
  refine ⟨b.token.word, hb, [], wordsOf r, ?_⟩
  rw [List.nil_append, ← hk, ← ht]
  rfl

/-- Where the macro is not announced, there is no block. -/
theorem extension_eq_none {notices : List Notice} {cs : List Cell} (h : ¬ Announces (wordsOf cs)) :
    extension? notices cs = none := by
  fun_induction extension? notices cs with
  | case1 c b o r hc =>
    simp only [Bool.and_eq_true, decide_eq_true_eq] at hc
    exact absurd (announces_of_head hc.1.1.1 hc.1.1.2 hc.1.2) h
  | case2 c b o r hc =>
    simp only [Bool.and_eq_true, decide_eq_true_eq] at hc
    exact absurd (announces_of_head hc.1.1.1 hc.1.1.2 hc.1.2) h
  | case3 c b o r _ ih => exact ih fun ha => h ha.cons
  | case4 => rfl

/-- The search passes over a cell that does not announce the macro. -/
theorem extension_cons {notices : List Notice} {c : Cell} {cs : List Cell} (h : ∀ b ∈ cs.head?,
    c.token.kind = .ident → c.token.text = "ring_extension" → b.token.text ≠ "!") :
    extension? notices (c :: cs) = extension? notices cs := by
  match cs with
  | [] | [b] => rfl
  | b :: o :: r =>
    rw [extension?, if_neg]
    simp only [Bool.and_eq_true, decide_eq_true_eq]
    exact fun hc => h b rfl hc.1.1.1 hc.1.1.2 hc.1.2

def headWords : List Word := [⟨.ident, "ring_extension"⟩, ⟨.punct, "!"⟩]

/-- The block that is found is the first one announced. -/
theorem extension_eq_some {notices : List Notice} {front r : List Cell} {c b o : Cell} {inner : Balanced}
    (hfront : ¬ Announces (wordsOf front)) (hc : c.token.word = ⟨.ident, "ring_extension"⟩)
    (hb : b.token.word = ⟨.punct, "!"⟩) (ho : o.mark = ⟨.opening .brace, some inner.marks.length⟩) {back : List Mark}
    (hr : r.map Cell.mark = inner.marks ++ back) :
    ∃ s, extension? notices (front ++ c :: b :: o :: r) = some (.ok s) ∧ s.marks = inner.marks ∧ s.notices = notices := by
  have htext : c.token.text = "ring_extension" := congrArg Word.text hc
  induction front with
  | nil =>
    have hhead : (c.token.kind = .ident && c.token.text = "ring_extension" && b.token.text = "!"
        && isOpeningText o.token.text) = true := by
      rw [show c.token.kind = .ident from congrArg Word.kind hc, htext,
        show b.token.text = "!" from congrArg Word.text hb,
        show o.token.text = "\x7b" from congrArg (fun m => m.word.text) ho]
      decide
    have hinside : o.inside = some inner.marks.length := congrArg Mark.inside ho
    obtain ⟨line, hfound⟩ : ∃ line, extension? notices (c :: b :: o :: r) =
        some (.ok ⟨r.take inner.marks.length, line, notices⟩) := by
      rw [extension?, if_pos hhead, hinside]
      exact ⟨_, rfl⟩
    refine ⟨_, hfound, ?_, rfl⟩
    show (r.take inner.marks.length).map Cell.mark = _
    rw [List.map_take, hr, List.take_left]
  | cons d front ih =>
    obtain ⟨s, hs, hsame⟩ := ih fun ha => hfront ha.cons
    refine ⟨s, ?_, hsame⟩
    rw [List.cons_append, extension_cons, hs]
    intro e he hkind hname hbang
    cases front with
    | nil =>
      cases he
      exact absurd (htext.symm.trans hbang) (by decide)
    | cons e' front =>
      cases he
      exact hfront (announces_of_head hkind hname hbang)

/-- The cells of a text, from the words of all its parts. -/
theorem exists_cellsOf {text : String} {b : Balanced} (h : Lexes text.toList b.words) :
    ∃ cs, cellsOf text = .ok cs ∧ cs.map Cell.mark = b.marks := by
  obtain ⟨ts, hts, hwords⟩ := h 1
  obtain ⟨cs, hcs, hmarks, -⟩ := b.cells_words hwords
  refine ⟨cs, ?_, hmarks⟩
  rw [cellsOf, tokenize, hts]
  dsimp only
  rw [hcs]

/-- A text with cells is made of balanced words. -/
theorem exists_lexes {text : String} {cs : List Cell} (h : cellsOf text = .ok cs) :
    ∃ b : Balanced, cs.map Cell.mark = b.marks ∧ Lexes text.toList b.words := by
  obtain ⟨ts, hts, hcells⟩ := exists_of_cellsOf h
  obtain ⟨b, hmarks, htokens⟩ := Balanced.exists_of_cells hcells
  refine ⟨b, hmarks, ?_⟩
  have hwords : ts.map Token.word = b.words := by
    rw [← wordsOf_eq hmarks, ← htokens, List.map_map]
    rfl
  exact hwords ▸ lexes_of_tokensFrom hts

structure Reading.Alike (r r' : Reading) : Prop where
  document : OutcomesAlike Eq r.document r'.document
  notices : r.notices = r'.notices

theorem readCells_alike {cs ds : List Cell} {s t : Cursor} (hs : readingRange cs = .ok s) (ht : readingRange ds = .ok t)
    (hst : s.Alike t) (moduleName : String) : (readCells moduleName cs).Alike (readCells moduleName ds) := by
  have hfile := Read.unplaced_file s t hst
  unfold readCells
  rw [hs, ht]
  dsimp only
  generalize Read.file s = x at hfile ⊢
  generalize Read.file t = y at hfile ⊢
  cases hfile with
  | ok hfound hcursor => exact ⟨.ok (congrArg (documentOf moduleName) hfound), hcursor.notices⟩
  | error hf hn => exact ⟨.error hf, hn⟩

def withBlock (pre body post : String) : String :=
  pre ++ "\n" ++ "ring_extension!\x7b" ++ "\n" ++ body ++ "\n" ++ "\x7d" ++ "\n" ++ post

/-- Only the extension block matters. Take three texts whose delimiters match, and let neither of the first two announce
    an extension block. Then the second one reads in a block between the others as it does alone: it gives the same
    declarations, prefix and notices, or fails for the same cause, though on another line. -/
theorem readSource_withBlock {pre body post : String} {ps bs qs : List Cell} (hpre : cellsOf pre = .ok ps)
    (hbody : cellsOf body = .ok bs) (hpost : cellsOf post = .ok qs) (hp : ¬ Announces (wordsOf ps))
    (hb : ¬ Announces (wordsOf bs)) (moduleName : String) :
    (readSource (withBlock pre body post) moduleName).Alike (readSource body moduleName) := by
  obtain ⟨p, hpmarks, hplex⟩ := exists_lexes hpre
  obtain ⟨b, hbmarks, hblex⟩ := exists_lexes hbody
  obtain ⟨q, hqmarks, hqlex⟩ := exists_lexes hpost
  have hopen : Lexes "ring_extension!\x7b".toList (headWords ++ [.opening .brace]) := by
    have hts : tokensFrom 1 "ring_extension!\x7b".toList =
        .ok [⟨.ident, "ring_extension", 1⟩, ⟨.punct, "!", 1⟩, ⟨.punct, "\x7b", 1⟩] := by with_unfolding_all rfl
    exact lexes_of_tokensFrom hts
  have hclose : Lexes "\x7d".toList [.closing .brace] := by
    have hts : tokensFrom 1 "\x7d".toList = .ok [⟨.punct, "\x7d", 1⟩] := by with_unfolding_all rfl
    exact lexes_of_tokensFrom hts
  let whole : Balanced := p ++ .word ⟨.ident, "ring_extension"⟩ rfl (.word ⟨.punct, "!"⟩ (by decide) (.group .brace b q))
  have hlexes : Lexes (withBlock pre body post).toList whole.words := by
    have hwords : whole.words = p.words ++ (headWords ++ [.opening .brace] ++ (b.words ++ ([.closing .brace] ++ q.words))) := by
      rw [Balanced.words_append]
      rfl
    have htext : (withBlock pre body post).toList = pre.toList ++ '\n' :: ("ring_extension!\x7b".toList ++ '\n' ::
        (body.toList ++ '\n' :: ("\x7d".toList ++ '\n' :: post.toList))) := by
      simp [withBlock, String.toList_append]
    rw [hwords, htext]
    exact hplex.below (hopen.below (hblex.below (hclose.below hqlex)))
  obtain ⟨cs, hcs, hmarks⟩ := exists_cellsOf hlexes
  rw [Balanced.marks_append] at hmarks
  obtain ⟨front, rest, rfl, hfront, hrest⟩ := List.map_eq_append_iff.1 hmarks
  obtain ⟨c, rest, rfl, hc, hrest⟩ := List.map_eq_cons_iff.1 hrest
  obtain ⟨d, rest, rfl, hd, hrest⟩ := List.map_eq_cons_iff.1 hrest
  obtain ⟨o, rest, rfl, ho, hrest⟩ := List.map_eq_cons_iff.1 hrest
  rw [wordsOf_eq hpmarks, ← wordsOf_eq hfront] at hp
  obtain ⟨s, hs, hsmarks, hsnotices⟩ : ∃ s, extension? [] (front ++ c :: d :: o :: rest) = some (.ok s) ∧
      s.marks = b.marks ∧ s.notices = [] :=
    extension_eq_some hp (congrArg Mark.word hc) (congrArg Mark.word hd) ho hrest
  have hwhole : readingRange (front ++ c :: d :: o :: rest) = .ok s := by
    rw [readingRange, hs]
    rfl
  have halone : readingRange bs = .ok (.ofCells bs) := by
    rw [readingRange, extension_eq_none hb]
    rfl
  rw [readSource, readSource, hcs, hbody]
  exact readCells_alike hwhole halone ⟨hsmarks.trans hbmarks.symm, hsnotices⟩ moduleName

/-- What is found among the successes of an outcome is its value. -/
theorem exists_ok_of_toOption {ε α : Type} {x : Except ε α} {p : α → Prop} (h : ∃ a ∈ x.toOption, p a) :
    ∃ a, x = .ok a ∧ p a := by
  obtain ⟨a, ha, hp⟩ := h
  cases x with
  | error e => cases ha
  | ok b =>
    cases ha
    exact ⟨a, rfl, hp⟩

/-- A function in a block between an import and a module. -/
theorem readSource_withBlock_function : ∃ ps bs qs, cellsOf "use a::b;" = .ok ps ∧ cellsOf "fn f() \x7b \x7d" = .ok bs ∧
    cellsOf "mod m \x7b fn g(); \x7d" = .ok qs ∧ ¬ Announces (wordsOf ps) ∧ ¬ Announces (wordsOf bs) ∧
    (readSource (withBlock "use a::b;" "fn f() \x7b \x7d" "mod m \x7b fn g(); \x7d")).Alike
      (readSource "fn f() \x7b \x7d") := by
  obtain ⟨ps, hps, hp⟩ : ∃ ps, cellsOf "use a::b;" = .ok ps ∧ ⟨.ident, "ring_extension"⟩ ∉ wordsOf ps :=
    exists_ok_of_toOption (by decide +kernel)
  obtain ⟨bs, hbs, hb⟩ : ∃ bs, cellsOf "fn f() \x7b \x7d" = .ok bs ∧ ⟨.ident, "ring_extension"⟩ ∉ wordsOf bs :=
    exists_ok_of_toOption (by decide +kernel)
  obtain ⟨qs, hqs, -⟩ : ∃ qs, cellsOf "mod m \x7b fn g(); \x7d" = .ok qs ∧ qs ≠ [] :=
    exists_ok_of_toOption (by decide +kernel)
  have hpre : ¬ Announces (wordsOf ps) := fun h => hp h.mem
  have hbody : ¬ Announces (wordsOf bs) := fun h => hb h.mem
  exact ⟨ps, bs, qs, hps, hbs, hqs, hpre, hbody, readSource_withBlock hps hbs hqs hpre hbody ""⟩

/-- Here the text in front of the block has the name of the macro and a group, and between them no `!` but that of a doc
    comment. It is taken for the block, and the function in the block is lost. -/
theorem readSource_withBlock_lost : ∃ ps d d', cellsOf "ring_extension\n/// !\n\x7b \x7d" = .ok ps ∧
    (readSource (withBlock "ring_extension\n/// !\n\x7b \x7d" "fn f() \x7b \x7d" "")).document = .ok d ∧
    (readSource "fn f() \x7b \x7d").document = .ok d' ∧ ⟨.punct, "!"⟩ ∉ wordsOf ps ∧ d.decls = [] ∧ d'.decls ≠ [] := by
  obtain ⟨ps, hps, hbang⟩ : ∃ ps, cellsOf "ring_extension\n/// !\n\x7b \x7d" = .ok ps ∧ ⟨.punct, "!"⟩ ∉ wordsOf ps :=
    exists_ok_of_toOption (by decide +kernel)
  obtain ⟨d, hd, hnone⟩ : ∃ d, (readSource (withBlock "ring_extension\n/// !\n\x7b \x7d" "fn f() \x7b \x7d" "")).document
      = .ok d ∧ d.decls.isEmpty = true := exists_ok_of_toOption (by decide +kernel)
  obtain ⟨d', hd', hsome⟩ : ∃ d', (readSource "fn f() \x7b \x7d").document = .ok d' ∧ d'.decls.isEmpty = false :=
    exists_ok_of_toOption (by decide +kernel)
  exact ⟨ps, d, d', hps, hd, hd', hbang, List.isEmpty_iff.1 hnone, List.isEmpty_eq_false_iff.1 hsome⟩

end RingBridge.Source
