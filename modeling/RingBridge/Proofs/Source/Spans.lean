import RingBridge.Proofs.Source.File
/-!
Types whose groups hold anything. A parameter jumps over groups and is read as a whole whatever they hold. A field and
a result count the angle brackets inside of groups as well; where these match, the same tokens are read in all places.
-/
namespace RingBridge.Source
open Read

/-- The tokens of a type. The inside of a group is any balanced one, as the length of an array or a constant is. -/
inductive SpanTokens where
  | nil
  | word (w : TypeWord) (rest : SpanTokens)
  | group (d : Delimiter) (inner : Balanced) (rest : SpanTokens)
  | angle (inner rest : SpanTokens)

def nesting : List String → Int
  | [] => 0
  | text :: texts => typeNesting text + nesting texts

/-- No bracket among the texts closes more than is open, and in the end all are closed. -/
structure Level (texts : List String) : Prop where
  closed : nesting texts = 0
  above : ∀ front, front <+: texts → 0 ≤ nesting front

/-- It is enough to look at the first so many texts. -/
theorem level_iff {texts : List String} :
    Level texts ↔ nesting texts = 0 ∧ ∀ n < texts.length, 0 ≤ nesting (texts.take n) := by
  constructor
  · exact fun h => ⟨h.closed, fun n _ => h.above _ (List.take_prefix n texts)⟩
  · rintro ⟨hclosed, habove⟩
    refine ⟨hclosed, fun front hfront => ?_⟩
    rw [List.prefix_iff_eq_take.1 hfront]
    by_cases hn : front.length < texts.length
    · exact habove _ hn
    · have hall : nesting (texts.take front.length) = 0 := by rw [List.take_of_length_le (by omega), hclosed]
      omega

instance (texts : List String) : Decidable (Level texts) := decidable_of_iff _ level_iff.symm

theorem Word.isBracket_less : Word.less.isBracket = false := by decide

theorem Word.isBracket_greater : Word.greater.isBracket = false := by decide

def Balanced.texts (b : Balanced) : List String := b.words.map Word.text

namespace SpanTokens

def balanced : SpanTokens → Balanced
  | nil => .nil
  | word w r => .word w.toWord w.isBracket r.balanced
  | group d inner r => .group d inner r.balanced
  | angle inner r => .word .less Word.isBracket_less (inner.balanced ++ .word .greater Word.isBracket_greater r.balanced)

def marks (ts : SpanTokens) : List Mark := ts.balanced.marks

def texts (ts : SpanTokens) : List String := ts.balanced.texts

def Lacks (stops : List String) : SpanTokens → Prop
  | nil => True
  | word w r => w.text ∉ stops ∧ r.Lacks stops
  | group d _ r => d ≠ .brace ∧ r.Lacks stops
  | angle _ r => r.Lacks stops

def outer : SpanTokens → List TypeWord
  | nil => []
  | word w r => w :: r.outer
  | group _ _ r => r.outer
  | angle _ r => r.outer

def IsLevel : SpanTokens → Prop
  | nil => True
  | word _ r => r.IsLevel
  | group _ inner r => Level inner.texts ∧ r.IsLevel
  | angle inner r => inner.IsLevel ∧ r.IsLevel

theorem marks_angle (inner r : SpanTokens) :
    (angle inner r).marks = ⟨.less, none⟩ :: (inner.marks ++ ⟨.greater, none⟩ :: r.marks) := by
  rw [marks, balanced, Balanced.marks, Balanced.marks_append]
  rfl

theorem texts_group (d : Delimiter) (inner : Balanced) (r : SpanTokens) :
    (group d inner r).texts = d.opening :: (inner.texts ++ d.closing :: r.texts) := by
  simp only [texts, Balanced.texts, balanced, Balanced.words, List.map_cons, List.map_append]
  rfl

theorem texts_angle (inner r : SpanTokens) : (angle inner r).texts = "<" :: (inner.texts ++ ">" :: r.texts) := by
  simp only [texts, Balanced.texts, balanced, Balanced.words, Balanced.words_append, List.map_cons, List.map_append]
  rfl

theorem texts_eq_marks (ts : SpanTokens) : ts.texts = ts.marks.map fun m => m.word.text := by
  rw [texts, Balanced.texts, ← Balanced.map_word_marks, List.map_map]
  rfl

/-- A brace is no word, so it can count as a stop. -/
theorem Lacks.of {stops stops' : List String} {ts : SpanTokens} (h : ts.Lacks stops)
    (hs : ∀ s ∈ stops', s = "\x7b" ∨ s ∈ stops) : ts.Lacks stops' := by
  induction ts with
  | nil => trivial
  | word w r ih =>
    refine ⟨fun hw => ?_, ih h.2⟩
    exact (hs _ hw).elim (w.text_ne (c := '\x7b') (by decide)) h.1
  | group d inner r ih => exact ⟨h.1, ih h.2⟩
  | angle inner r ihi ih => exact ih h

theorem Lacks.outer {stops : List String} {ts : SpanTokens} (h : ts.Lacks stops) : ∀ w ∈ ts.outer, w.text ∉ stops := by
  induction ts with
  | nil => exact fun w hw => absurd hw List.not_mem_nil
  | word w r ih => exact List.forall_mem_cons.2 ⟨h.1, ih h.2⟩
  | group d inner r ih => exact ih h.2
  | angle inner r ihi ih => exact ih h

end SpanTokens

namespace TypeTokens

theorem texts_of_marks {cs : List Cell} {b : Balanced} (h : cs.map Cell.mark = b.marks) :
    (cs.map fun c => c.token.text) = b.texts := by
  rw [Balanced.texts, ← Balanced.map_word_marks, ← h, List.map_map, List.map_map]
  rfl

/-- Cells that stay inside of brackets go to the type, and move the depth by what they add. -/
theorem typeParts_above {stops : List String} {cs : List Cell} {depth : Int}
    (h : ∀ front, front <+: (cs.map fun c => c.token.text) → 0 < depth + nesting front) (rest : List Cell) :
    typeParts stops depth (cs ++ rest) =
      ((cs.map fun c => c.token.text) ++ (typeParts stops (depth + nesting (cs.map fun c => c.token.text)) rest).1,
        (typeParts stops (depth + nesting (cs.map fun c => c.token.text)) rest).2) := by
  induction cs generalizing depth with
  | nil =>
    rw [List.map_nil, nesting, Int.add_zero]
    rfl
  | cons c cs ih =>
    have hne : depth ≠ 0 := by
      have hdepth := h [] List.nil_prefix
      rw [nesting] at hdepth
      omega
    have htail : ∀ front, front <+: (cs.map fun c => c.token.text) →
        0 < depth + typeNesting c.token.text + nesting front := by
      intro front hfront
      have hcons := h (c.token.text :: front) ((List.cons_prefix_cons).2 ⟨rfl, hfront⟩)
      rw [nesting] at hcons
      omega
    rw [List.cons_append, typeParts_skip (fun h0 => absurd h0 hne), ih htail, List.map_cons, nesting, Int.add_assoc]
    rfl

/-- The inside of a group passes if its brackets match. -/
theorem passes_level {stops : List String} {depth : Int} (h0 : 0 < depth) {b : Balanced} (hb : Level b.texts) {cs : List Cell}
    (hc : cs.map Cell.mark = b.marks) : Passes stops depth cs b.texts := by
  intro rest
  have habove : ∀ front, front <+: (cs.map fun c => c.token.text) → 0 < depth + nesting front := by
    intro front hfront
    have hfront := hb.above front (texts_of_marks hc ▸ hfront)
    omega
  rw [typeParts_above habove, texts_of_marks hc, hb.closed, Int.add_zero]

/-- Braces are met inside of brackets only, where they do not count. -/
theorem passes_braced {stops : List String} {depth : Int} (h0 : 0 < depth) {o c : Cell} (ho : o.token.text = "\x7b")
    (hc : c.token.text = "\x7d") {is r : List Cell} {inner others : List String} (hi : Passes stops depth is inner)
    (hr : Passes stops depth r others) :
    Passes stops depth (o :: (is ++ c :: r)) ("\x7b" :: (inner ++ "\x7d" :: others)) := by
  intro rest
  have hopen : typeNesting "\x7b" = 0 := by decide
  have hclose : typeNesting "\x7d" = 0 := by decide
  rw [List.cons_append, List.append_assoc, List.cons_append, typeParts_skip (by omega), ho, hopen, Int.add_zero, hi,
    typeParts_skip (by omega), hc, hclose, Int.add_zero, hr]
  simp

end TypeTokens

namespace SpanTokens
open TypeTokens

theorem passes_marks {stops : List String} (hs : AreStops stops) (ts : SpanTokens) (hlevel : ts.IsLevel) {cs : List Cell}
    (hc : cs.map Cell.mark = ts.marks) (depth : Int) (h0 : 0 ≤ depth) (hl : depth = 0 → ts.Lacks stops) :
    Passes stops depth cs ts.texts := by
  obtain ⟨hless, hparen, hbracket⟩ := hs
  induction ts generalizing cs depth with
  | nil =>
    obtain rfl := List.map_eq_nil_iff.1 hc
    exact fun rest => rfl
  | word w r ih =>
    obtain ⟨c, cs, rfl, hm, hr⟩ := List.map_eq_cons_iff.1 hc
    exact passes_word (fun h => (hl h).1) (text_of_mark hm) (ih hlevel hr depth h0 fun h => (hl h).2)
  | group d inner r ih =>
    obtain ⟨o, is, c, cs, rfl, ho, hi, hcm, hr⟩ := cells_of_enclosed hc
    have hot : o.token.text = d.opening := text_of_mark ho
    have hct : c.token.text = d.closing := text_of_mark hcm
    have hrest := ih hlevel.2 hr depth h0 fun h => (hl h).2
    rw [texts_group]
    cases d with
    | brace =>
      have hpos : 0 < depth := by
        have hne : depth ≠ 0 := fun h => (hl h).1 rfl
        omega
      exact passes_braced hpos hot hct (passes_level hpos hlevel.1 hi) hrest
    | paren | bracket =>
      have hinner : Passes stops (depth + 1) is inner.texts := passes_level (by omega) hlevel.1 hi
      have hp := passes_enclosed h0 (o := o) (c := c) (by rw [hot]; assumption) (by rw [hot]; rfl) (by rw [hct]; rfl)
        hinner hrest
      rwa [hot, hct] at hp
  | angle inner r ihi ih =>
    rw [marks_angle] at hc
    obtain ⟨o, is, c, cs, rfl, ho, hi, hcm, hr⟩ := cells_of_enclosed hc
    have hot : o.token.text = "<" := text_of_mark ho
    have hct : c.token.text = ">" := text_of_mark hcm
    have hp := passes_enclosed h0 (o := o) (c := c) (by rw [hot]; exact hless) (by rw [hot]; rfl) (by rw [hct]; rfl)
      (ihi hlevel.1 hi (depth + 1) (by omega) (by omega)) (ih hlevel.2 hr depth h0 hl)
    rwa [hot, hct, ← texts_angle] at hp

/-- In a parameter the inside of a group is not looked at, and groups may stand outside of brackets. -/
theorem staysIn_marks (ts : SpanTokens) {cs : List Cell} (hc : cs.map Cell.mark = ts.marks) (depth : Int)
    (h0 : 0 ≤ depth) (hl : depth = 0 → ∀ w ∈ ts.outer, w.text ≠ ",") : StaysIn depth cs := by
  induction ts generalizing cs depth with
  | nil =>
    obtain rfl := List.map_eq_nil_iff.1 hc
    exact fun rest => rfl
  | word w r ih =>
    obtain ⟨c, cs, rfl, hm, hr⟩ := List.map_eq_cons_iff.1 hc
    exact staysIn_word (fun h => hl h w List.mem_cons_self) hm
      (ih hr depth h0 fun h v hv => hl h v (List.mem_cons_of_mem w hv))
  | group d inner r ih =>
    obtain ⟨o, is, c, cs, rfl, ho, hi, -, hr⟩ := cells_of_enclosed hc
    refine staysIn_group ?_ (ih hr depth h0 hl)
    rw [← List.length_map Cell.mark, hi]
    exact congrArg Mark.inside ho
  | angle inner r ihi ih =>
    rw [marks_angle] at hc
    obtain ⟨o, is, c, cs, rfl, ho, hi, hcm, hr⟩ := cells_of_enclosed hc
    exact staysIn_angle h0 ho hcm (ihi hi (depth + 1) (by omega) (by omega)) (ih hr depth h0 hl)

end SpanTokens

/-- The tokens of a whole type: there are some, and outside of brackets none of them ends it. -/
structure SpanText where
  tokens : SpanTokens
  nonempty : tokens ≠ .nil
  ends : tokens.Lacks [",", ";", "where"]

namespace SpanText

def spelling (t : SpanText) : String := Read.spelling t.tokens.texts

theorem texts_ne_nil (t : SpanText) : t.tokens.texts ≠ [] := by
  have hne := t.nonempty
  cases ht : t.tokens with
  | nil => exact absurd ht hne
  | word | group | angle => exact List.cons_ne_nil _ _

theorem reads_type (t : SpanText) (ht : t.tokens.IsLevel) {stops : List String} (hs : TypeTokens.AreStops stops)
    (hends : ∀ s ∈ stops, s = "\x7b" ∨ s ∈ [",", ";", "where"]) {ms : List Mark} (hm : TypeTokens.Stops stops ms)
    (what : String) : Reads (readType stops what) (t.tokens.marks ++ ms) (· = t.spelling) ms :=
  TypeTokens.reads_readType_of
    (fun _ hc => SpanTokens.passes_marks hs t.tokens ht hc 0 (by omega) fun _ => t.ends.of hends) t.texts_ne_nil hm

end SpanText

structure SpanField where
  isPublic : Bool
  name : Name
  type : SpanText

structure SpanParam where
  name : Name
  type : SpanText

def SpanField.tokens (f : SpanField) : Balanced :=
  visibilityTokens f.isPublic (.ident f.name.text (.colon f.type.tokens.balanced))

def SpanField.declared (f : SpanField) : Field String := ⟨f.name.text, f.type.spelling, .boolean f.isPublic⟩

def SpanParam.tokens (p : SpanParam) : Balanced := .ident p.name.text (.colon p.type.tokens.balanced)

def SpanParam.declared (p : SpanParam) : Param String := ⟨p.name.text, p.type.spelling⟩

theorem reads_spanField (f : SpanField) (hf : f.type.tokens.IsLevel) {ms ns : List Mark} (h : TypeTokens.ListEnd ms ns) :
    Reads field (f.tokens.marks ++ ms) (· = some f.declared) ns := by
  rw [SpanField.tokens, marks_visibility, List.append_assoc]
  exact reads_field_of (f.type.reads_type hf ⟨by decide, by decide, by decide⟩ (by decide) (stops_listEnd h)) h

theorem reads_spanFields (fs : List SpanField) (hfs : ∀ f ∈ fs, f.type.tokens.IsLevel) (trailing : Bool) :
    Reads fields (Balanced.listed trailing (fs.map SpanField.tokens)).marks (· = fs.map SpanField.declared) [] :=
  reads_listed SpanField.tokens fs (fun _ _ => marks_visibility_ne_nil _ _ _)
    (fun f hf _ _ _ h => reads_spanField f (hfs f hf) h) trailing true

theorem reads_spanParam (p : SpanParam) (first : Bool) {ms ns : List Mark} (h : TypeTokens.ListEnd ms ns) :
    Reads (param first) (p.tokens.marks ++ ms) (· = some (.param p.declared)) ns := by
  have hhash : p.name.text ≠ "#" := p.name.text_ne_singleton (c := '#') (by decide)
  have hcomma : p.name.text ≠ "," := p.name.text_ne_singleton (c := ',') (by decide)
  have htokens : p.tokens.marks = (SpanTokens.word p.name.typeWord (.word .colon p.type.tokens)).marks := rfl
  have hlacks : (SpanTokens.word p.name.typeWord (.word .colon p.type.tokens)).Lacks [","] :=
    ⟨fun hn => hcomma (List.mem_singleton.1 hn), by decide, p.type.ends.of (by decide)⟩
  have htaken : takenOf first (p.tokens.marks.map fun m => m.word.text) = .ok (.param p.declared) := by
    rw [htokens, ← SpanTokens.texts_eq_marks]
    exact takenOf_named first p.name p.type.tokens.texts
  refine reads_param_of (unadorned_ident hhash _) (List.cons_ne_nil _ _) (fun cs hc => ?_) htaken h
  exact SpanTokens.staysIn_marks _ (htokens ▸ hc) 0 (by omega) fun _ w hw e => hlacks.outer w hw (List.mem_singleton.2 e)

theorem reads_spanParams (ps : List SpanParam) (trailing : Bool) :
    Reads params (Balanced.listed trailing (ps.map SpanParam.tokens)).marks (· = ps.map fun p => .param p.declared) [] :=
  reads_listed SpanParam.tokens ps (fun _ _ => List.cons_ne_nil _ _) (fun p _ first _ _ h => reads_spanParam p first h)
    trailing true

inductive SpanItem where
  | struct (isPublic : Bool) (name : Name) (fields : List SpanField) (trailing : Bool)
  | function (isPublic : Bool) (name : Name) (params : List SpanParam) (trailing : Bool) (result : Option SpanText)
      (body : Balanced)
  | other (i : Item)

namespace SpanItem

def resultTokens (result : Option SpanText) (rest : Balanced) : Balanced :=
  match result with
  | some t => .arrow (t.tokens.balanced ++ rest)
  | none => rest

def resultSpelling : Option SpanText → Option String
  | some t => if t.spelling = "()" then none else some t.spelling
  | none => none

def tokens : SpanItem → Balanced
  | struct isPublic name fields trailing => visibilityTokens isPublic (.ident "struct" (.ident name.text
      (.group .brace (.listed trailing (fields.map SpanField.tokens)) .nil)))
  | function isPublic name params trailing result body => visibilityTokens isPublic (.ident "fn" (.ident name.text
      (.group .paren (.listed trailing (params.map SpanParam.tokens)) (resultTokens result (.group .brace body .nil)))))
  | other i => i.tokens

def declared : SpanItem → Declaration String
  | struct isPublic name fields _ =>
    .struct { name := name.text, fields := fields.map SpanField.declared, isPublic := .boolean isPublic }
  | function isPublic name params _ result _ =>
    .func
      { name := name.text
        params := params.map SpanParam.declared
        result := resultSpelling result
        isPublic := .boolean isPublic }
  | other i => i.declared

/-- The angle brackets inside of the groups of fields and results match. Those of parameters need not. -/
def IsLevel : SpanItem → Prop
  | struct _ _ fields _ => ∀ f ∈ fields, f.type.tokens.IsLevel
  | function _ _ _ _ result _ => ∀ t, result = some t → t.tokens.IsLevel
  | other _ => True

end SpanItem

theorem SpanItem.marks_resultTokens (t : SpanText) (rest : Balanced) :
    (resultTokens (some t) rest).marks = ⟨⟨.punct, "->"⟩, none⟩ :: (t.tokens.marks ++ rest.marks) :=
  congrArg (_ :: ·) (Balanced.marks_append _ _)

theorem reads_spanResult (r : Option SpanText) (hr : ∀ t, r = some t → t.tokens.IsLevel) (name : String) (body : Balanced)
    (ms : List Mark) :
    Reads (result name) ((SpanItem.resultTokens r (.group .brace body .nil)).marks ++ ms) (· = SpanItem.resultSpelling r)
      (bodyMarks body ms) := by
  have hbody : (Balanced.group .brace body .nil).marks ++ ms = bodyMarks body ms := by
    simp [Balanced.marks, bodyMarks]
  cases r with
  | none =>
    rw [SpanItem.resultTokens, hbody]
    exact .not_at rfl (.pure rfl)
  | some t =>
    rw [SpanItem.marks_resultTokens, List.cons_append, List.append_assoc, hbody, SpanItem.resultSpelling]
    exact reads_result_of (t.reads_type (hr t rfl) ⟨by decide, by decide, by decide⟩ (by decide)
      (stops_bodyMarks body ms List.mem_cons_self))

theorem reads_spanItem (i : SpanItem) (hi : i.IsLevel) (ms : List Mark) :
    Reads topLevel (i.tokens.marks ++ ms) (· = .declaration i.declared) ms := by
  cases i with
  | struct isPublic name fs trailing => exact reads_structItem isPublic name (reads_spanFields fs hi trailing) ms
  | function isPublic name ps trailing result body =>
    have hread := reads_function_of isPublic name (reads_spanParams ps trailing) body
      fun name => reads_spanResult result hi name body ms
    rw [paramsOf_params, receiverIn_params] at hread
    exact reads_functionItem (marks_function _ _ _ _) hread
  | other i => exact reads_topLevel i ms

theorem SpanItem.marks_ne_nil (i : SpanItem) : i.tokens.marks ≠ [] := by
  cases i with
  | struct | function => exact marks_visibility_ne_nil _ _ _
  | other i => exact i.marks_ne_nil

/-- A type reads the same in every place: fields, parameters and results of it are declared with its spelling, and all
    that follows is read, on whatever lines the tokens stand. In fields and results the angle brackets inside of groups
    have to match. -/
theorem readSource_spans (items : List SpanItem) (hlevel : ∀ i ∈ items, i.IsLevel) (moduleName : String) {ts : List Token}
    (h : ts.map Token.word = (Item.concat (items.map SpanItem.tokens)).words)
    (hext : ∀ t ∈ ts, t.kind = .ident → t.text ≠ "ring_extension") :
    (∃ cs, cells ts = .ok cs ∧
        readCells moduleName cs = ⟨.ok ⟨.text moduleName, .text "", items.map SpanItem.declared, .text ""⟩, []⟩) ∧
      ∀ text, tokenize text = .ok ts →
        readSource text moduleName = ⟨.ok ⟨.text moduleName, .text "", items.map SpanItem.declared, .text ""⟩, []⟩ := by
  refine readSource_of_reads ?_ moduleName h hext
  rw [List.map_map]
  exact reads_concat (fun i : SpanItem => Found.declaration i.declared) items (fun i _ => i.marks_ne_nil)
    (fun i hi first ms => (reads_spanItem i (hlevel i hi) ms).bind fun a ha => .pure (by rw [ha])) true

namespace Sample

def generic : SpanText where
  tokens := .word (nameOf 'F' [] (by decide)).typeWord
    (.angle (.group .brace (.word ⟨.literal, "1"⟩ (by decide) .nil) .nil) .nil)
  nonempty := by simp
  ends := ⟨by decide, trivial⟩

def shifted : SpanText where
  tokens := .group .bracket (.ident "u8" (.word ⟨.punct, ";"⟩ (by decide) (.word ⟨.literal, "1"⟩ (by decide)
    (.word .less Word.isBracket_less (.word .less Word.isBracket_less (.word ⟨.literal, "4"⟩ (by decide) .nil)))))) .nil
  nonempty := by simp
  ends := ⟨by decide, trivial⟩

def spans : List SpanItem :=
  [.struct true point [⟨false, nameOf 'a' [] (by decide), generic⟩, ⟨false, nameOf 'b' [] (by decide), generic⟩] false,
    .function true (nameOf 'g' [] (by decide)) [⟨nameOf 'a' [] (by decide), generic⟩, ⟨nameOf 'b' [] (by decide), shifted⟩]
      false (some generic) .nil]

theorem isLevel_spans : ∀ i ∈ spans, i.IsLevel := by
  have hgeneric : generic.tokens.IsLevel := ⟨⟨by decide, trivial⟩, trivial⟩
  intro i hi
  obtain rfl | hi := List.mem_cons.1 hi
  · intro f hf
    obtain rfl | hf := List.mem_cons.1 hf
    · exact hgeneric
    · obtain rfl := List.mem_singleton.1 hf
      exact hgeneric
  · obtain rfl := List.mem_singleton.1 hi
    intro t ht
    obtain rfl := Option.some.inj ht
    exact hgeneric

def genericTokens (line : Nat) : List Token :=
  [⟨.ident, "F", line⟩, ⟨.punct, "<", line⟩, ⟨.punct, "\x7b", line⟩, ⟨.literal, "1", line⟩, ⟨.punct, "\x7d", line⟩,
    ⟨.punct, ">", line⟩]

def spanTokens : List Token :=
  [⟨.ident, "pub", 1⟩, ⟨.ident, "struct", 1⟩, ⟨.ident, "P", 1⟩, ⟨.punct, "\x7b", 1⟩, ⟨.ident, "a", 1⟩, ⟨.punct, ":", 1⟩]
    ++ genericTokens 1 ++ [⟨.punct, ",", 1⟩, ⟨.ident, "b", 2⟩, ⟨.punct, ":", 2⟩] ++ genericTokens 2
    ++ [⟨.punct, "\x7d", 3⟩, ⟨.ident, "pub", 4⟩, ⟨.ident, "fn", 4⟩, ⟨.ident, "g", 4⟩, ⟨.punct, "(", 4⟩, ⟨.ident, "a", 4⟩,
      ⟨.punct, ":", 4⟩]
    ++ genericTokens 4
    ++ [⟨.punct, ",", 4⟩, ⟨.ident, "b", 4⟩, ⟨.punct, ":", 4⟩, ⟨.punct, "[", 4⟩, ⟨.ident, "u8", 4⟩, ⟨.punct, ";", 4⟩,
      ⟨.literal, "1", 4⟩, ⟨.punct, "<", 4⟩, ⟨.punct, "<", 4⟩, ⟨.literal, "4", 4⟩, ⟨.punct, "]", 4⟩, ⟨.punct, ")", 4⟩,
      ⟨.punct, "->", 4⟩]
    ++ genericTokens 4 ++ [⟨.punct, "\x7b", 4⟩, ⟨.punct, "\x7d", 4⟩]

theorem declared_spans : spans.map SpanItem.declared =
    [.struct { name := "P", fields := [⟨"a", "F<\x7b 1 \x7d>", .boolean false⟩, ⟨"b", "F<\x7b 1 \x7d>", .boolean false⟩] },
      .func { name := "g", params := [⟨"a", "F<\x7b 1 \x7d>"⟩, ⟨"b", "[u8;1<<4]"⟩], result := some "F<\x7b 1 \x7d>" }] := by
  have hgeneric : generic.spelling = "F<\x7b 1 \x7d>" := rfl
  have hresult : SpanItem.resultSpelling (some generic) = some "F<\x7b 1 \x7d>" := by
    rw [SpanItem.resultSpelling, hgeneric, if_neg (by decide)]
  rw [spans, List.map_cons, List.map_cons, SpanItem.declared, SpanItem.declared, hresult]
  rfl

end Sample

theorem readSource_spans_generic :
    ∃ cs, cells Sample.spanTokens = .ok cs ∧ readCells "m" cs = ⟨.ok ⟨.text "m", .text "",
      [.struct { name := "P", fields := [⟨"a", "F<\x7b 1 \x7d>", .boolean false⟩, ⟨"b", "F<\x7b 1 \x7d>", .boolean false⟩] },
        .func { name := "g", params := [⟨"a", "F<\x7b 1 \x7d>"⟩, ⟨"b", "[u8;1<<4]"⟩], result := some "F<\x7b 1 \x7d>" }],
      .text ""⟩, []⟩ := by
  rw [← Sample.declared_spans]
  exact (readSource_spans Sample.spans Sample.isLevel_spans "m" rfl (by decide)).1

def Declaration.placeTypes : Declaration String → List String
  | .struct s => s.fields.map Field.type
  | .func f => f.params.map Param.type
  | .impl _ => []

def Reading.placeTypes (r : Reading) : List (List String) :=
  match r.document with
  | .ok d => d.decls.map Declaration.placeTypes
  | .error _ => []

/-- Of one type, a parameter gets its tokens, and a field also takes the one behind it for a part of its type. -/
theorem readSource_shifted :
    (readSource "struct S \x7b a: [u8; 1 << 4], b: i32 \x7d fn f(a: [u8; 1 << 4], b: i32) \x7b \x7d").placeTypes =
      [["[u8;1<<4],b:i32"], ["[u8;1<<4]", "i32"]] := by
  decide +kernel

end RingBridge.Source
