import RingBridge.Proofs.Source.Extension
import RingBridge.Proofs.Source.Spans
/-!
Parameters with patterns. A list of parameters is taken apart into the ones it is made of, whatever stands in the groups
of their patterns and types. Each of them is then cut at its first colon, which may stand in a group of its pattern.
-/
namespace RingBridge.Source
open Text Spelling Read

/-- A pattern, a colon and a type. Outside of brackets no comma ends the parameter, and no attribute stands in front of
    it. Up to its first colon the pattern does not end in `self`. -/
structure PatternParam where
  pattern : SpanTokens
  type : SpanTokens
  patternEnds : ∀ w ∈ pattern.outer, w.text ≠ ","
  typeEnds : ∀ w ∈ type.outer, w.text ≠ ","
  unadorned : pattern.texts.head? ≠ some "#"
  notSelf : (pattern.texts.takeWhile (· != ":")).getLast? ≠ some "self"

namespace PatternParam

def tokens (p : PatternParam) : Balanced := p.pattern.balanced ++ .colon p.type.balanced

def recorded (p : PatternParam) : Param String where
  name := patternName (p.pattern.texts.takeWhile (· != ":"))
  type := spelling (p.pattern.texts.dropWhile (· != ":") ++ ":" :: p.type.texts).tail

def names (p : PatternParam) : List String := p.pattern.texts.filter fun t => t != "mut" && t != "ref"

/-- The type is spelled from its own tokens, and the name is the only one of the pattern, or the underscore for a
    compound pattern. -/
structure Declares (p : PatternParam) (d : Param String) : Prop where
  type : d.type = spelling p.type.texts
  simple : ∀ x, p.names = [x] → d.name = x
  compound : (∀ x, p.names ≠ [x]) → d.name = "_"

end PatternParam

theorem TypeTokens.StaysIn.append {depth : Int} {as bs : List Cell} (ha : StaysIn depth as) (hb : StaysIn depth bs) :
    StaysIn depth (as ++ bs) := by
  intro rest
  rw [List.append_assoc, ha, hb, List.map_append, List.append_assoc]

theorem SpanTokens.unadorned (ts : SpanTokens) (h : ts.texts.head? ≠ some "#") {ms : List Mark} (hms : Unadorned ms) :
    Unadorned (ts.marks ++ ms) := by
  cases ts with
  | nil => exact hms
  | word w r =>
    intro m hm
    obtain rfl := Option.some.inj hm
    exact ⟨w.notDoc, fun e => h (congrArg some e)⟩
  | group d inner r =>
    intro m hm
    obtain rfl := Option.some.inj hm
    have hne : d.opening ≠ "#" := by cases d <;> decide
    exact ⟨nofun, hne⟩
  | angle inner r =>
    intro m hm
    obtain rfl := Option.some.inj hm
    exact ⟨nofun, by decide⟩

namespace PatternParam

theorem marks_tokens (p : PatternParam) : p.tokens.marks = p.pattern.marks ++ (SpanTokens.word .colon p.type).marks :=
  Balanced.marks_append _ _

theorem marks_ne_nil (p : PatternParam) : p.tokens.marks ≠ [] := by
  rw [p.marks_tokens]
  exact List.append_ne_nil_of_right_ne_nil _ (List.cons_ne_nil _ _)

theorem texts_marks (p : PatternParam) : (p.tokens.marks.map fun m => m.word.text) = p.pattern.texts ++ ":" :: p.type.texts := by
  rw [p.marks_tokens, List.map_append, ← SpanTokens.texts_eq_marks, ← SpanTokens.texts_eq_marks]
  rfl

/-- No comma of a pattern or a type ends the parameter. -/
theorem staysIn_tokens (p : PatternParam) {cs : List Cell} (hc : cs.map Cell.mark = p.tokens.marks) :
    TypeTokens.StaysIn 0 cs := by
  rw [p.marks_tokens] at hc
  obtain ⟨as, bs, rfl, ha, hb⟩ := List.map_eq_append_iff.1 hc
  refine (SpanTokens.staysIn_marks p.pattern ha 0 (by omega) fun _ => p.patternEnds).append ?_
  refine SpanTokens.staysIn_marks (.word .colon p.type) hb 0 (by omega) fun _ => ?_
  exact List.forall_mem_cons.2 ⟨by decide, p.typeEnds⟩

theorem reads_tokens (p : PatternParam) (first : Bool) {ms ns : List Mark} (h : TypeTokens.ListEnd ms ns) :
    Reads (param first) (p.tokens.marks ++ ms) (· = some (.param p.recorded)) ns := by
  have hcolon : Unadorned (SpanTokens.word .colon p.type).marks := by
    intro m hm
    obtain rfl := Option.some.inj hm
    exact ⟨nofun, by decide⟩
  have hu : Unadorned p.tokens.marks := p.marks_tokens ▸ p.pattern.unadorned p.unadorned hcolon
  refine reads_param_of hu p.marks_ne_nil (fun _ hc => p.staysIn_tokens hc) ?_ h
  rw [p.texts_marks]
  exact takenOf_colon first p.pattern.texts p.type.texts p.notSelf

end PatternParam

/-- Every parameter is read as it is cut, in order. -/
theorem reads_patternParams (ps : List PatternParam) (trailing : Bool) :
    Reads params (Balanced.listed trailing (ps.map PatternParam.tokens)).marks (· = ps.map fun p => .param p.recorded) [] :=
  reads_listed PatternParam.tokens ps (fun p _ => p.marks_ne_nil) (fun p _ first _ _ h => p.reads_tokens first h)
    trailing true

/-- What stands behind the first colon is spelled as the type alone is, if the pattern has no colon. Else it has more
    pieces. -/
theorem spelling_behind_colon (pattern type : List String) :
    spelling (pattern.dropWhile (· != ":") ++ ":" :: type).tail = spelling type ↔ ":" ∉ pattern := by
  constructor
  · intro h hmem
    obtain ⟨front, back, rfl, hfront⟩ := List.eq_append_cons_of_mem hmem
    rw [(takeWhile_colon back hfront).2, List.cons_append, List.tail_cons] at h
    have hpieces := TypeTokens.pieces_of_spelling h
    rw [List.flatMap_append, List.flatMap_cons] at hpieces
    have hcolon : piecesOf ":".toList = [.sep ':'] := by decide
    have hlen := congrArg List.length hpieces
    simp only [hcolon, List.length_append, List.length_singleton] at hlen
    omega
  · intro h
    rw [(takeWhile_no_colon h).2]
    rfl

/-- A parameter is declared as it is written exactly if no colon stands in its pattern. -/
theorem PatternParam.declares_recorded (p : PatternParam) : p.Declares p.recorded ↔ ":" ∉ p.pattern.texts := by
  constructor
  · exact fun h => (spelling_behind_colon _ _).1 h.type
  · intro h
    have hname : p.recorded.name = patternName p.pattern.texts := by
      rw [recorded, (takeWhile_no_colon h).1]
    refine ⟨(spelling_behind_colon _ _).2 h, fun x hx => ?_, fun hne => ?_⟩
    · rw [hname, patternName, ← names, hx]
    · rw [hname, patternName, ← names]
      split
      · next x hx => exact absurd hx (hne x)
      · rfl

def patternedTokens (isPublic : Bool) (name : Name) (ps : List PatternParam) (trailing : Bool) (result : Option TypeText)
    (body : Balanced) : Balanced :=
  visibilityTokens isPublic (.ident "fn" (.ident name.text (.group .paren (.listed trailing (ps.map PatternParam.tokens))
    (FunctionItem.resultTokens result (.group .brace body .nil)))))

theorem reads_patternedTokens (isPublic : Bool) (name : Name) (ps : List PatternParam) (trailing : Bool)
    (result : Option TypeText) (body : Balanced) :
    Reads file (patternedTokens isPublic name ps trailing result body).marks
      (· = [.func
        { name := name.text
          params := ps.map PatternParam.recorded
          result := FunctionItem.resultSpelling result
          isPublic := .boolean isPublic }].map .declaration) [] := by
  have hread := reads_function_of isPublic name (reads_patternParams ps trailing) body
    fun name => reads_result result name body []
  rw [paramsOf_params, receiverIn_params] at hread
  have hitem := reads_functionItem (marks_function _ _ _ _) hread
  rw [List.append_nil] at hitem
  exact reads_file_single (marks_visibility_ne_nil _ _ _) hitem

/-- A list of parameters with patterns is read one by one, alone and as that of a function. Each parameter has the type
    and the name it is written with, exactly if there is no colon in its pattern. -/
theorem readSource_patterned (isPublic : Bool) (name : Name) (ps : List PatternParam) (trailing : Bool)
    (result : Option TypeText) (body : Balanced) (moduleName : String) :
    Reads params (Balanced.listed trailing (ps.map PatternParam.tokens)).marks (· = ps.map fun p => .param p.recorded) [] ∧
      (∀ text ts, tokenize text = .ok ts →
        ts.map Token.word = (patternedTokens isPublic name ps trailing result body).words →
        ¬ Announces (ts.map Token.word) →
        readSource text moduleName = ⟨.ok ⟨.text moduleName, .text "", [.func
          { name := name.text
            params := ps.map PatternParam.recorded
            result := FunctionItem.resultSpelling result
            isPublic := .boolean isPublic }], .text ""⟩, []⟩) ∧
      ∀ p ∈ ps, p.Declares p.recorded ↔ ":" ∉ p.pattern.texts := by
  refine ⟨reads_patternParams ps trailing, fun text ts htext hts hext => ?_, fun p _ => p.declares_recorded⟩
  obtain ⟨cs, hcs, hmarks, htokens⟩ := Balanced.cells_words _ hts
  have hwords : wordsOf cs = ts.map Token.word := by
    rw [← htokens, List.map_map]
    rfl
  have hread := readCells_of_extension (reads_patternedTokens isPublic name ps trailing result body) moduleName hmarks
    (extension_eq_none (hwords ▸ hext))
  rw [readSource, cellsOf, htext]
  simp only [hcs, hread]

namespace Sample

def patterns : List PatternParam :=
  [{ pattern := .word .mutable (.word (nameOf 'n' [] (by decide)).typeWord .nil)
     type := .word (nameOf 'u' ['3', '2'] (by decide)).typeWord .nil
     patternEnds := by decide
     typeEnds := by decide
     unadorned := by decide
     notSelf := by decide },
    { pattern := .word point.typeWord (.group .brace (.ident "x" (.comma (.word ⟨.punct, "."⟩ (by decide)
        (.word ⟨.punct, "."⟩ (by decide) .nil)))) .nil)
      type := .word point.typeWord (.angle (.word (nameOf 'i' ['8'] (by decide)).typeWord
        (.word ⟨⟨.punct, ","⟩, by decide, ',', [], rfl, by decide, by decide⟩
          (.word (nameOf 'u' ['6', '4'] (by decide)).typeWord .nil))) .nil)
      patternEnds := by decide
      typeEnds := by decide
      unadorned := by decide
      notSelf := by decide }]

theorem tokenize_patterns : ∃ ts, tokenize "fn f(mut n: u32, P \x7b x, .. \x7d: P<i8, u64>) \x7b\x7d" = .ok ts ∧
    ts.map Token.word = (patternedTokens false (nameOf 'f' [] (by decide)) patterns false none .nil).words :=
  exists_ok_of_toOption (by decide +kernel)

end Sample

theorem readSource_patterned_sample :
    readSource "fn f(mut n: u32, P \x7b x, .. \x7d: P<i8, u64>) \x7b\x7d" = ⟨.ok ⟨.text "", .text "",
      [.func { name := "f", params := [⟨"n", "u32"⟩, ⟨"_", "P<i8,u64>"⟩], isPublic := .boolean false }], .text ""⟩, []⟩ := by
  obtain ⟨ts, hts, hwords⟩ := Sample.tokenize_patterns
  have hext : ¬ Announces (ts.map Token.word) := by
    intro h
    have hmem := h.mem
    rw [hwords] at hmem
    exact absurd hmem (by decide)
  exact (readSource_patterned false _ Sample.patterns false none .nil "").2.1 _ ts hts hwords hext

/-- In the pattern `Point { x: a, y: b }` the first colon stands in a group, and all behind it goes to the type. -/
theorem readSource_patterned_colon :
    (readSource "fn f(Point \x7b x: a, y: b \x7d: Point) \x7b\x7d").placeTypes = [["a,y:b \x7d:Point"]] := by
  decide +kernel

end RingBridge.Source
