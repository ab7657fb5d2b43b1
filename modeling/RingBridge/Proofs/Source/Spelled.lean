import RingBridge.Proofs.Source.File
import RingBridge.Proofs.Source.Lexemes
/-!
Types as they are written in a text, with blanks and comments between their lexemes. The source reader takes the text
apart into tokens and joins them again; what it records is the normal form of the text without its comments.
-/
namespace RingBridge.Source
open Text Spelling

inductive TypePart where
  | gap (g : Gap)
  | lexeme (u : TypeLexeme)

namespace TypePart

def source : TypePart → List Char
  | gap g => g.source
  | lexeme u => u.chars

def cleared : TypePart → List Char
  | gap g => g.cleared
  | lexeme u => u.chars

def lexeme? : TypePart → Option TypeLexeme
  | gap _ => none
  | lexeme u => some u

/-- The second part may stand right behind the first one. -/
def Meets : TypePart → TypePart → Prop
  | lexeme u, lexeme v => ¬ u.Clash v
  | _, _ => True

instance : DecidableRel Meets
  | lexeme u, lexeme v => inferInstanceAs (Decidable (¬ u.Clash v))
  | gap _, _ | lexeme _, gap _ => inferInstanceAs (Decidable True)

end TypePart

def sourceOf (ps : List TypePart) : List Char := ps.flatMap TypePart.source

def clearedOf (ps : List TypePart) : List Char := ps.flatMap TypePart.cleared

def lexemesOf (ps : List TypePart) : List TypeLexeme := ps.filterMap TypePart.lexeme?

def EndsType (x : List Char) : Prop := ∀ c ∈ x.head?, c = ',' ∨ c = '\x7d'

namespace TypeLexeme
variable {x : List Char}

/-- A character that goes on with no word and makes no pair. -/
theorem fits_cons {c : Char} (hword : isWord c = false) (hc : c ∉ ['\'', '"', '#', '.', '>', ':']) (u : TypeLexeme)
    (x : List Char) : u.Fits (c :: x) := by
  simp only [List.mem_cons, List.not_mem_nil, or_false, not_or] at hc
  exact ⟨fun _ => closesWord_cons hword (by simp [hc]) x, fun _ h => hc.2.2.2.2.1 (Option.some.inj h),
    fun _ h => hc.2.2.2.2.2 (Option.some.inj h)⟩

theorem fits_end (hx : EndsType x) (u : TypeLexeme) : u.Fits x := by
  cases x with
  | nil => exact ⟨fun _ _ => nofun, fun _ => nofun, fun _ => nofun⟩
  | cons c x =>
    obtain rfl | rfl := hx c rfl
    · exact fits_cons (by decide) (by decide) u x
    · exact fits_cons (by decide) (by decide) u x

theorem fits_gap (g : Gap) (u : TypeLexeme) (x : List Char) : u.Fits (g.source ++ x) := by
  obtain ⟨c, r, h, hc | rfl⟩ := g.head_source
  · have hmarks : ∀ a ∈ ['\'', '"', '#', '.', '>', ':'], isBlank a = false := by decide
    rw [h]
    refine fits_cons (isWord_of_isBlank hc) (fun hm => ?_) u _
    exact absurd (hc.symm.trans (hmarks c hm)) (by decide)
  · rw [h]
    exact fits_cons (by decide) (by decide) u _

/-- What does not clash with a lexeme may stand behind it. -/
theorem fits_lexeme {u v : TypeLexeme} (h : ¬ u.Clash v) (x : List Char) : u.Fits (v.chars ++ x) := by
  have hhead : (v.chars ++ x).head? = v.chars.head? := by
    cases v with
    | name isRaw y => cases isRaw <;> rfl
    | _ => rfl
  obtain ⟨hword, heq, hcolon⟩ : _ ∧ _ ∧ _ := by simpa only [Clash, not_or] using h
  refine ⟨fun hu c hc => ?_, fun hu => ?_, fun hu => ?_⟩
  · rw [hhead] at hc
    have hv : v.joinsWord = false := by simpa [hu] using hword
    have hmarks : ∀ a ∈ ['\'', '"', '#', '.'], isSeparator a = false := by decide
    have hsep : isSeparator c = true := by
      cases v with
      | name | lifetime | number | arrow => exact Bool.noConfusion hv
      | path =>
        obtain rfl := Option.some.inj hc
        decide
      | separator d single =>
        obtain rfl := Option.some.inj hc
        exact single
    exact ⟨not_word_of_isSeparator hsep, fun hm => absurd (hsep.symm.trans (hmarks c hm)) (by decide)⟩
  · rw [hhead]
    exact fun hv => heq ⟨hu, hv⟩
  · rw [hhead]
    exact fun hv => hcolon ⟨hu, hv⟩

end TypeLexeme

section
variable {ps : List TypePart}

/-- The lexemes of a text are its words, whatever gaps stand between them. -/
theorem lexes_parts (h : ps.IsChain TypePart.Meets) {x : List Char} (hx : EndsType x) {ws : List Word} (hws : Lexes x ws) :
    Lexes (sourceOf ps ++ x) ((lexemesOf ps).map TypeLexeme.word ++ ws) := by
  induction ps with
  | nil => exact hws
  | cons p ps ih =>
    have hrest := ih (List.isChain_of_isChain_cons h)
    rw [sourceOf, List.flatMap_cons, List.append_assoc, ← sourceOf]
    cases p with
    | gap g => exact g.lexes hrest
    | lexeme u =>
      refine u.lexes ?_ hrest
      cases ps with
      | nil => exact u.fits_end hx
      | cons q ps =>
        rw [sourceOf, List.flatMap_cons, List.append_assoc]
        cases q with
        | gap g => exact u.fits_gap g _
        | lexeme v => exact TypeLexeme.fits_lexeme (List.isChain_cons_cons.1 h).1 _

theorem spaced_blanks {cs : List Char} (hcs : ∀ c ∈ cs, isBlank c = true) {qs : List Piece} {ds : List Char}
    (h : Spaced qs ds) : Spaced qs (cs ++ ds) := by
  induction cs with
  | nil => exact h
  | cons c cs ih =>
    obtain ⟨hc, hcs⟩ := List.forall_mem_cons.1 hcs
    exact .blank hc (ih hcs)

/-- Without its comments, the text is spaced from the pieces of its lexemes. -/
theorem spaced_parts (h : ps.IsChain TypePart.Meets) :
    Spaced ((lexemesOf ps).flatMap TypeLexeme.pieces) (clearedOf ps) := by
  induction ps with
  | nil => exact .nil
  | cons p ps ih =>
    have hrest := ih (List.isChain_of_isChain_cons h)
    rw [clearedOf, List.flatMap_cons, ← clearedOf]
    cases p with
    | gap g => exact spaced_blanks g.isBlank_cleared.2 hrest
    | lexeme u =>
      refine u.spaced (fun hu => ?_) hrest
      cases ps with
      | nil => exact endsWord_nil
      | cons q ps =>
        rw [clearedOf, List.flatMap_cons]
        cases q with
        | gap g =>
          obtain ⟨hne, hblank⟩ := g.isBlank_cleared
          obtain ⟨c, r, hc⟩ := List.exists_cons_of_ne_nil hne
          rw [show (TypePart.gap g).cleared = c :: r from hc]
          exact endsWord_blank (hblank c (hc ▸ List.mem_cons_self)) _
        | lexeme v =>
          have hv : ¬ u.Clash v := (List.isChain_cons_cons.1 h).1
          cases v with
          | name | lifetime | number | arrow => exact absurd (.inl ⟨hu, rfl⟩) hv
          | path => exact endsWord_sep (by decide) _
          | separator c single => exact endsWord_sep single _

theorem isValid_flatMap_pieces (us : List TypeLexeme) : ∀ p ∈ us.flatMap TypeLexeme.pieces, p.IsValid := by
  intro p hp
  obtain ⟨u, -, hp⟩ := List.mem_flatMap.1 hp
  exact u.isValid_pieces p hp

/-- Joined with blanks, the texts of the lexemes have the normal form that the text without its comments has. -/
theorem spelling_lexemes (h : ps.IsChain TypePart.Meets) :
    Read.spelling ((lexemesOf ps).map fun u => u.word.text) = String.ofList (normalize (clearedOf ps)) := by
  have hpieces : (((lexemesOf ps).map fun u => u.word.text).flatMap fun s => piecesOf s.toList)
      = (lexemesOf ps).flatMap TypeLexeme.pieces := by
    simp only [List.flatMap_map, TypeLexeme.word, String.toList_ofList, TypeLexeme.piecesOf_chars]
  rw [TypeTokens.spelling_eq, hpieces, normalize_spaced (spaced_parts h) (isValid_flatMap_pieces _)]

end

/-- The text of a type that stands behind a colon. Its lexemes have matching brackets of all kinds, and none of them that
    stands outside of brackets is a comma. -/
structure TypeSource where
  parts : List TypePart
  apart : (.lexeme (.separator ':' (by decide)) :: parts).IsChain TypePart.Meets
  tokens : TypeTokens
  written : tokens.words = (lexemesOf parts).map TypeLexeme.word
  nonempty : tokens ≠ .nil
  ends : tokens.Lacks [","]

namespace TypeSource

def normalized (t : TypeSource) : String := String.ofList (normalize (clearedOf t.parts))

theorem spelling_tokens (t : TypeSource) : Read.spelling t.tokens.texts = t.normalized := by
  rw [TypeTokens.texts, t.written, List.map_map]
  exact spelling_lexemes (List.isChain_of_isChain_cons t.apart)

end TypeSource

structure FieldSource where
  isPublic : Bool
  name : Name
  type : TypeSource

namespace FieldSource

def source (f : FieldSource) : List Char :=
  (if f.isPublic then "pub ".toList else []) ++ (f.name.chars ++ ':' :: sourceOf f.type.parts)

def tokens (f : FieldSource) : Balanced :=
  visibilityTokens f.isPublic (.ident f.name.text (.colon f.type.tokens.balanced))

def declared (f : FieldSource) : Field String := ⟨f.name.text, f.type.normalized, .boolean f.isPublic⟩

end FieldSource

def listedSource (trailing : Bool) : List (List Char) → List Char
  | [] => []
  | [a] => a ++ if trailing then [','] else []
  | a :: b :: r => a ++ ',' :: listedSource trailing (b :: r)

def structSource (isPublic : Bool) (name : Name) (fields : List FieldSource) (trailing : Bool) : List Char :=
  (if isPublic then "pub ".toList else []) ++ ("struct ".toList ++ (name.chars ++
    '\x7b' :: (listedSource trailing (fields.map FieldSource.source) ++ ['\x7d'])))

def structTokens (isPublic : Bool) (name : Name) (fields : List FieldSource) (trailing : Bool) : Balanced :=
  visibilityTokens isPublic (.ident "struct" (.ident name.text
    (.group .brace (.listed trailing (fields.map FieldSource.tokens)) .nil)))

section
variable {x : List Char} {ws : List Word}

/-- A keyword with a blank behind it. -/
theorem lexes_keyword (y : Ident) (hws : Lexes x ws) :
    Lexes (y.chars ++ ' ' :: x) (⟨.ident, String.ofList y.chars⟩ :: ws) :=
  TypeLexeme.lexes_name false y (TypeLexeme.closesWord_cons (by decide) (by decide) x) (hws.blank (by decide))

theorem lexes_visibility (isPublic : Bool) {rest : Balanced} (hws : Lexes x (rest.words ++ ws)) :
    Lexes ((if isPublic then "pub ".toList else []) ++ x) ((visibilityTokens isPublic rest).words ++ ws) := by
  cases isPublic with
  | false => exact hws
  | true => exact lexes_keyword ⟨'p', ['u', 'b'], by decide, by decide⟩ hws

/-- A name with a mark behind it. -/
theorem lexes_nameThen (n : Name) {c : Char} (hc : c = ':' ∨ c = '\x7b') (hws : Lexes (c :: x) ws) :
    Lexes (n.chars ++ c :: x) (n.word :: ws) := by
  refine TypeLexeme.lexes_name n.isRaw n.ident ?_ hws
  obtain rfl | rfl := hc <;> exact TypeLexeme.closesWord_cons (by decide) (by decide) x

theorem lexes_field (f : FieldSource) (hx : EndsType x) (hws : Lexes x ws) :
    Lexes (f.source ++ x) (f.tokens.words ++ ws) := by
  have htype := lexes_parts f.type.apart hx hws
  have hwords : (lexemesOf (.lexeme (.separator ':' (by decide)) :: f.type.parts)).map TypeLexeme.word ++ ws
      = ⟨.punct, ":"⟩ :: (f.type.tokens.words ++ ws) := by
    rw [f.type.written]
    rfl
  rw [hwords] at htype
  have hname := lexes_nameThen f.name (.inl rfl) htype
  rw [FieldSource.source, List.append_assoc, List.append_assoc]
  exact lexes_visibility f.isPublic hname

theorem lexes_comma (hws : Lexes x ws) : Lexes (',' :: x) (⟨.punct, ","⟩ :: ws) := by
  have hl : lexeme ',' x = .ok ⟨some .punct, [','], x⟩ := rfl
  exact .take hl nofun hws

theorem words_listed_one (trailing : Bool) (a : Balanced) :
    (Balanced.listed trailing [a]).words = a.words ++ if trailing then [⟨.punct, ","⟩] else [] := by
  show (a ++ _).words = _
  rw [Balanced.words_append]
  cases trailing <;> rfl

theorem words_listed_cons (trailing : Bool) (a b : Balanced) (r : List Balanced) :
    (Balanced.listed trailing (a :: b :: r)).words
      = a.words ++ ⟨.punct, ","⟩ :: (Balanced.listed trailing (b :: r)).words := by
  show (a ++ _).words = _
  rw [Balanced.words_append]
  rfl

theorem lexes_listed (fs : List FieldSource) (trailing : Bool) (hx : EndsType x) (hws : Lexes x ws) :
    Lexes (listedSource trailing (fs.map FieldSource.source) ++ x)
      ((Balanced.listed trailing (fs.map FieldSource.tokens)).words ++ ws) := by
  have hcomma : ∀ y : List Char, EndsType (',' :: y) := fun y c hc => .inl (Option.some.inj hc).symm
  induction fs with
  | nil => exact hws
  | cons f fs ih =>
    cases fs with
    | nil =>
      show Lexes (f.source ++ (if trailing then [','] else []) ++ x) ((Balanced.listed trailing [f.tokens]).words ++ ws)
      rw [words_listed_one, List.append_assoc, List.append_assoc]
      cases trailing with
      | false => exact lexes_field f hx hws
      | true => exact lexes_field f (hcomma x) (lexes_comma hws)
    | cons g fs =>
      show Lexes (f.source ++ ',' :: listedSource trailing (g.source :: fs.map FieldSource.source) ++ x)
        ((Balanced.listed trailing (f.tokens :: g.tokens :: fs.map FieldSource.tokens)).words ++ ws)
      rw [words_listed_cons, List.append_assoc, List.append_assoc]
      exact lexes_field f (hcomma _) (lexes_comma ih)

theorem lexes_struct (isPublic : Bool) (name : Name) (fields : List FieldSource) (trailing : Bool) :
    Lexes (structSource isPublic name fields trailing) (structTokens isPublic name fields trailing).words := by
  have hclose : Lexes ['\x7d'] [.closing .brace] := by
    have hl : lexeme '\x7d' [] = .ok ⟨some .punct, ['\x7d'], []⟩ := rfl
    exact .take hl nofun lexes_nil
  have hend : EndsType ['\x7d'] := fun c hc => .inr (Option.some.inj hc).symm
  have hbody := lexes_listed fields trailing hend hclose
  have hopen : Lexes _ (⟨.punct, "\x7b"⟩ :: _) := .take (lexeme_opening (c := '\x7b') (by decide) _) nofun hbody
  have hname := lexes_nameThen name (.inr rfl) hopen
  have hkeyword := lexes_keyword ⟨'s', ['t', 'r', 'u', 'c', 't'], by decide, by decide⟩ hname
  have hall := @lexes_visibility _ [] isPublic (.ident "struct" (.ident name.text
    (.group .brace (.listed trailing (fields.map FieldSource.tokens)) .nil))) (by rwa [List.append_nil])
  rwa [List.append_nil] at hall

end

/-- No word of a type is an exclamation mark. -/
theorem TypeLexeme.text_ne_bang (u : TypeLexeme) : u.word.text ≠ "!" := by
  intro h
  have hchars : u.chars = ['!'] := by
    rw [← String.toList_ofList (l := u.chars)]
    exact congrArg String.toList h
  cases u with
  | name isRaw y =>
    cases isRaw with
    | true => exact absurd (List.cons.inj hchars).1 (by decide)
    | false =>
      have hfirst : y.first = '!' := (List.cons.inj hchars).1
      exact absurd (hfirst ▸ y.starts) (by decide)
  | lifetime y => exact absurd (List.cons.inj hchars).1 (by decide)
  | number first rest digit continues =>
    have hfirst : first = '!' := (List.cons.inj hchars).1
    exact absurd (hfirst ▸ digit) (by decide)
  | path => exact absurd (List.cons.inj hchars).1 (by decide)
  | arrow => exact absurd (List.cons.inj hchars).1 (by decide)
  | separator c single =>
    have hc : c = '!' := (List.cons.inj hchars).1
    exact absurd (hc ▸ single) (by decide)

theorem forall_words_visibility {P : Word → Prop} (hpub : P ⟨.ident, "pub"⟩) (isPublic : Bool) {rest : Balanced}
    (h : ∀ w ∈ rest.words, P w) : ∀ w ∈ (visibilityTokens isPublic rest).words, P w := by
  cases isPublic with
  | false => exact h
  | true => exact List.forall_mem_cons.2 ⟨hpub, h⟩

theorem forall_words_listed {P : Word → Prop} (hcomma : P ⟨.punct, ","⟩) (trailing : Bool) {as : List Balanced}
    (h : ∀ a ∈ as, ∀ w ∈ a.words, P w) : ∀ w ∈ (Balanced.listed trailing as).words, P w := by
  induction as with
  | nil => exact fun w hw => absurd hw List.not_mem_nil
  | cons a as ih =>
    obtain ⟨ha, has⟩ := List.forall_mem_cons.1 h
    cases as with
    | nil =>
      rw [words_listed_one]
      cases trailing with
      | false => exact List.forall_mem_append.2 ⟨ha, fun w hw => absurd hw List.not_mem_nil⟩
      | true => exact List.forall_mem_append.2 ⟨ha, List.forall_mem_singleton.2 hcomma⟩
    | cons b as =>
      rw [words_listed_cons]
      exact List.forall_mem_append.2 ⟨ha, List.forall_mem_cons.2 ⟨hcomma, ih has⟩⟩

theorem FieldSource.text_ne_bang (f : FieldSource) : ∀ w ∈ f.tokens.words, w.text ≠ "!" := by
  refine forall_words_visibility (by decide) f.isPublic ?_
  refine List.forall_mem_cons.2 ⟨f.name.text_ne_singleton (c := '!') (by decide), List.forall_mem_cons.2 ⟨by decide, ?_⟩⟩
  show ∀ w ∈ f.type.tokens.words, w.text ≠ "!"
  rw [f.type.written]
  exact List.forall_mem_map.2 fun u _ => u.text_ne_bang

theorem reads_fieldSource (f : FieldSource) {ms ns : List Mark} (h : TypeTokens.ListEnd ms ns) :
    Read.Reads Read.field (f.tokens.marks ++ ms) (· = some f.declared) ns := by
  have htype : ∀ what, Read.Reads (Read.readType [","] what) (f.type.tokens.marks ++ ms) (· = f.type.normalized) ms := by
    rw [← f.type.spelling_tokens]
    exact fun _ => TypeTokens.reads_readType ⟨by decide, by decide, by decide⟩ f.type.nonempty f.type.ends
      (stops_listEnd h)
  rw [FieldSource.tokens, marks_visibility, List.append_assoc]
  exact reads_field_of htype h

theorem reads_structTokens (isPublic : Bool) (name : Name) (fields : List FieldSource) (trailing : Bool) :
    Read.Reads Read.file (structTokens isPublic name fields trailing).marks
      (· = [.struct { name := name.text, fields := fields.map FieldSource.declared, isPublic := .boolean isPublic }].map
        .declaration) [] := by
  have hfields : Read.Reads Read.fields (Balanced.listed trailing (fields.map FieldSource.tokens)).marks
      (· = fields.map FieldSource.declared) [] :=
    reads_listed FieldSource.tokens fields (fun _ _ => marks_visibility_ne_nil _ _ _)
      (fun f _ _ _ _ h => reads_fieldSource f h) trailing true
  have hitem := reads_structItem isPublic name hfields []
  rw [List.append_nil] at hitem
  exact reads_file_single (marks_visibility_ne_nil _ _ _) hitem

/-- What is recorded for the type of a field is the normal form of its text without the comments. -/
theorem readSource_fields (isPublic : Bool) (name : Name) (fields : List FieldSource) (trailing : Bool)
    (moduleName : String) :
    readSource (String.ofList (structSource isPublic name fields trailing)) moduleName =
      ⟨.ok ⟨.text moduleName, .text "", [.struct
        { name := name.text
          fields := fields.map fun f => ⟨f.name.text, String.ofList (normalize (clearedOf f.type.parts)), .boolean f.isPublic⟩
          isPublic := .boolean isPublic }], .text ""⟩, []⟩ := by
  have hlexes := lexes_struct isPublic name fields trailing
  rw [← String.toList_ofList (l := structSource isPublic name fields trailing)] at hlexes
  obtain ⟨cs, hcs, hmarks⟩ := exists_cellsOf hlexes
  have hbang : ∀ w ∈ wordsOf cs, w.text ≠ "!" := by
    rw [wordsOf_eq hmarks]
    have hfields : ∀ w ∈ (Balanced.listed trailing (fields.map FieldSource.tokens)).words, w.text ≠ "!" :=
      forall_words_listed (by decide) trailing (List.forall_mem_map.2 fun f _ => f.text_ne_bang)
    refine forall_words_visibility (by decide) isPublic (List.forall_mem_cons.2 ⟨by decide, List.forall_mem_cons.2 ⟨?_, ?_⟩⟩)
    · exact name.text_ne_singleton (c := '!') (by decide)
    · refine List.forall_mem_cons.2 ⟨by decide, List.forall_mem_append.2 ⟨hfields, ?_⟩⟩
      exact List.forall_mem_singleton.2 (by decide)
  have hext : extension? [] cs = none := by
    refine extension_eq_none ?_
    rintro ⟨b, hb, hinfix⟩
    have hmem := hinfix.subset (List.mem_cons_of_mem _ List.mem_cons_self)
    exact hbang b hmem hb
  have hread := reads_structTokens isPublic name fields trailing
  rw [readSource, hcs]
  exact readCells_of_extension hread moduleName hmarks hext

namespace Sample

def bytes : TypeSource where
  parts := [.gap (.blank ' ' (by decide)), .lexeme (.separator '&' (by decide)),
    .gap (.block "/* a /* b */ */".toList ⟨_, .other ' ' (.other 'a' (.other ' ' (.comment
      (.other ' ' (.other 'b' (.other ' ' .nil))) (.other ' ' .nil)))), rfl⟩ (by decide)),
    .lexeme (.lifetime ⟨'a', [], by decide, by decide⟩), .gap (.line " c".toList (by decide) (by decide)),
    .lexeme (.separator '[' (by decide)), .lexeme (.name false ⟨'u', ['8'], by decide, by decide⟩),
    .lexeme (.separator ';' (by decide)), .gap (.blank '\t' (by decide)), .lexeme (.number '4' [] (by decide) (by decide)),
    .lexeme (.separator ']' (by decide))]
  apart := by decide
  tokens := .word .ampersand (.word (.lifetime ⟨'a', [], by decide, by decide⟩) (.group .bracket
    (.word (nameOf 'u' ['8'] (by decide)).typeWord (.word ⟨⟨.punct, ";"⟩, by decide, ';', [], rfl, by decide, by decide⟩
      (.word ⟨⟨.literal, "4"⟩, by decide, '4', [], rfl, by decide, by decide⟩ .nil))) .nil))
  written := rfl
  nonempty := by simp
  ends := by
    show ∀ w ∈ _, _
    decide

end Sample

theorem readSource_fields_bytes :
    readSource "pub struct P\x7bx: &/* a /* b */ */'a// c\n[u8;\t4],\x7d" "m" =
      ⟨.ok ⟨.text "m", .text "", [.struct { name := "P", fields := [⟨"x", "&'a[u8;4]", .boolean false⟩] }], .text ""⟩, []⟩ :=
  readSource_fields true Sample.point [⟨false, Sample.nameOf 'x' [] (by decide), Sample.bytes⟩] true "m"

end RingBridge.Source
