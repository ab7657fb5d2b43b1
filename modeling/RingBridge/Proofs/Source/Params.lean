import RingBridge.Proofs.Source.Render
import RingBridge.Proofs.Spelling.Primitive
/-!
Parameters and receivers are read as they are written.
-/
namespace RingBridge.Source
open Text Spelling

theorem Name.pieces_text (n : Name) : piecesOf n.text.toList = [.word n.chars] := by
  have h := piecesOf_word n.isValid endsWord_nil
  rw [List.append_nil] at h
  rw [n.toList_text, h]
  rfl

namespace TypeTokens

theorem pieces_lifetime (l : Option Ident) (r : TypeTokens) : (lifetime l r).pieces = lifetimePieces l ++ r.pieces := by
  cases l with
  | none => rfl
  | some l =>
    have h := piecesOf_word (isValid_lifetime l) endsWord_nil
    rw [List.append_nil] at h
    show piecesOf (lifetimeText l).toList ++ r.pieces = _
    rw [lifetimeText, String.toList_ofList, h]
    rfl

theorem pieces_mutable (m : Bool) (r : TypeTokens) : (mutable m r).pieces = mutPieces m ++ r.pieces := by
  cases m <;> rfl

end TypeTokens

/-- A type that does not start with a reference mark is not spelled as a reference. -/
theorem head_spell_ne {ps : List Piece} (hv : ∀ p ∈ ps, p.IsValid) (h : ps.head? ≠ some (.sep '&')) :
    (spell ps).head? ≠ some '&' := by
  cases ps with
  | nil => simp [spell]
  | cons p ps =>
    have hp := hv p List.mem_cons_self
    cases p with
    | sep c => simpa [spell] using h
    | word w =>
      obtain ⟨hne, hw⟩ := hp
      obtain ⟨c, t, rfl⟩ := List.exists_cons_of_ne_nil hne
      rw [spell_word, List.cons_append, List.head?_cons]
      intro e
      have hc := (hw c List.mem_cons_self).1
      rw [Option.some.inj e] at hc
      exact absurd hc (by decide)

namespace SelfType

def mode : SelfType → Receiver
  | owned _ _ => .byValue
  | reference _ m _ _ _ _ => referenceMode m

theorem receiverOf_tokens (t : SelfType) (pattern : List String) : Read.receiverOf pattern t.tokens.texts = t.mode := by
  cases t with
  | owned type h =>
    have hne : type.tokens.texts.isEmpty = false := by
      have := type.nonempty
      cases ht : type.tokens with
      | nil => exact absurd ht this
      | word | group | angle => rfl
    have hhead := head_spell_ne type.tokens.isValid_pieces h
    rw [Read.receiverOf, tokens, hne]
    simp only [Bool.false_eq_true, if_false]
    rw [TypeTokens.spelling_texts, String.toList_ofList, if_neg hhead]
    rfl
  | reference l m head rest hl hr =>
    have hp : (tokens (reference l m head rest hl hr)).pieces
        = .sep '&' :: (lifetimePieces l ++ (mutPieces m ++ .word head.chars :: rest.pieces)) := by
      show Piece.sep '&' :: (TypeTokens.lifetime l (.mutable m (.word head.typeWord rest))).pieces = _
      rw [TypeTokens.pieces_lifetime, TypeTokens.pieces_mutable, TypeTokens.pieces_word]
      show _ = Piece.sep '&' :: (lifetimePieces l ++ (mutPieces m ++ ([Piece.word head.chars] ++ rest.pieces)))
      rw [← head.pieces_text]
      rfl
    have hne : (tokens (reference l m head rest hl hr)).texts.isEmpty = false := rfl
    have hv : ∀ p ∈ .word head.chars :: rest.pieces, p.IsValid := isValid_cons head.isValid rest.isValid_pieces
    have hw : head.chars ≠ "mut".toList := by
      intro e
      refine head.text_ne (s := "mut") (by decide) ?_
      rw [Name.text, e]
      rfl
    have hq : head.chars.head? ≠ some '\'' := head.head_ne (by decide)
    rw [Read.receiverOf, hne]
    simp only [Bool.false_eq_true, if_false]
    rw [TypeTokens.spelling_texts, String.toList_ofList, hp, spell, isMutReference_referred l m hl hv hw hq]
    rfl

end SelfType

/-- A parameter is cut at its first colon, which may stand in its pattern. -/
theorem cut_at_colon (pattern type : List String) :
    (pattern ++ ":" :: type).takeWhile (· != ":") = pattern.takeWhile (· != ":") ∧
      (pattern ++ ":" :: type).dropWhile (· != ":") = pattern.dropWhile (· != ":") ++ ":" :: type := by
  induction pattern with
  | nil => exact ⟨rfl, rfl⟩
  | cons a pattern ih =>
    cases ha : a != ":" with
    | true =>
      simp only [List.cons_append, List.takeWhile_cons, List.dropWhile_cons, ha, if_true, ih, and_self]
    | false =>
      simp only [List.cons_append, List.takeWhile_cons, List.dropWhile_cons, ha, Bool.false_eq_true, if_false,
        and_self]

theorem takeWhile_no_colon {as : List String} (h : ":" ∉ as) :
    as.takeWhile (· != ":") = as ∧ as.dropWhile (· != ":") = [] := by
  have hp : ∀ a ∈ as, (a != ":") = true := fun a ha => bne_iff_ne.2 fun e => h (e ▸ ha)
  have ht : (as ++ []).takeWhile (· != ":") = as ++ [].takeWhile (· != ":") := List.takeWhile_append_of_pos hp
  have hd : (as ++ []).dropWhile (· != ":") = [].dropWhile (· != ":") := List.dropWhile_append_of_pos hp
  rw [List.append_nil, List.takeWhile_nil, List.append_nil] at ht
  rw [List.append_nil, List.dropWhile_nil] at hd
  exact ⟨ht, hd⟩

theorem takeWhile_colon {as : List String} (bs : List String) (h : ":" ∉ as) :
    (as ++ ":" :: bs).takeWhile (· != ":") = as ∧ (as ++ ":" :: bs).dropWhile (· != ":") = ":" :: bs := by
  obtain ⟨ht, hd⟩ := takeWhile_no_colon h
  rw [(cut_at_colon as bs).1, (cut_at_colon as bs).2, ht, hd]
  exact ⟨rfl, rfl⟩

/-- What stands in front of the first colon names the parameter, and what stands behind it is its type. -/
theorem takenOf_colon (first : Bool) (pattern type : List String)
    (h : (pattern.takeWhile (· != ":")).getLast? ≠ some "self") :
    Read.takenOf first (pattern ++ ":" :: type) = .ok (.param ⟨Read.patternName (pattern.takeWhile (· != ":")),
      Read.spelling (pattern.dropWhile (· != ":") ++ ":" :: type).tail⟩) := by
  obtain ⟨ht, hd⟩ := cut_at_colon pattern type
  obtain ⟨c, r, hr⟩ : ∃ c r, pattern.dropWhile (· != ":") ++ ":" :: type = c :: r :=
    List.exists_cons_of_ne_nil (List.append_ne_nil_of_right_ne_nil _ (List.cons_ne_nil _ _))
  rw [Read.takenOf]
  simp only [ht, hd, hr, h, decide_false, Bool.and_false, Bool.false_eq_true, if_false, List.tail_cons]

/-- A name, a colon and what its type is written as. -/
theorem takenOf_named (first : Bool) (name : Name) (type : List String) :
    Read.takenOf first (name.text :: ":" :: type) = .ok (.param ⟨name.text, Read.spelling type⟩) := by
  have hcolon : name.text ≠ ":" := name.text_ne_singleton (c := ':') (by decide)
  have hself : name.text ≠ "self" := name.text_ne (by decide)
  have hmut : name.text ≠ "mut" := name.text_ne (by decide)
  have href : name.text ≠ "ref" := name.text_ne (by decide)
  have hfront : ":" ∉ [name.text] := fun h => hcolon (List.mem_singleton.1 h).symm
  obtain ⟨ht, hd⟩ := takeWhile_no_colon hfront
  have hname : Read.patternName [name.text] = name.text := by simp [Read.patternName, hmut, href]
  have hlast : [name.text].getLast? ≠ some "self" := fun h => hself (Option.some.inj h)
  have htaken := takenOf_colon first [name.text] type (by rwa [ht])
  rw [ht, hd, hname] at htaken
  exact htaken

theorem takenOf_param (first : Bool) (p : ParamItem) :
    Read.takenOf first p.tokens.texts = .ok (.param p.declared) := takenOf_named first p.name p.type.tokens.texts

def selfTexts (m : Bool) : List String := if m then ["mut", "self"] else ["self"]

def SelfItem.pattern : SelfItem → List String
  | value m => selfTexts m
  | reference l m => "&" :: (l.toList.map lifetimeText ++ selfTexts m)
  | typed m _ => selfTexts m

theorem SelfItem.texts_tokens (s : SelfItem) :
    s.tokens.texts = match s with
      | typed _ t => s.pattern ++ ":" :: t.tokens.texts
      | _ => s.pattern := by
  cases s with
  | value m => cases m <;> rfl
  | reference l m => cases l <;> cases m <;> rfl
  | typed m t => cases m <;> rfl

theorem SelfItem.colon_not_mem (s : SelfItem) : ":" ∉ s.pattern := by
  have hself : ∀ m, ":" ∉ selfTexts m := by decide
  cases s with
  | value m => exact hself m
  | typed m t => exact hself m
  | reference l m =>
    intro h
    obtain h | h := List.mem_append.1 ((List.mem_cons.1 h).resolve_left (by decide))
    · obtain ⟨x, _, hx⟩ := List.mem_map.1 h
      exact lifetimeText_ne x (s := ":") (by decide) hx
    · exact hself m h

theorem SelfItem.getLast_pattern (s : SelfItem) : s.pattern.getLast? = some "self" := by
  have hself : ∀ m, (selfTexts m).getLast? = some "self" := by decide
  cases s with
  | value m => exact hself m
  | typed m t => exact hself m
  | reference l m => rw [pattern, ← List.cons_append, List.getLast?_append, hself]; rfl

theorem contains_mut (l : Option Ident) (m : Bool) :
    ("&" :: (l.toList.map lifetimeText ++ selfTexts m)).contains "mut" = m := by
  have hl : ∀ x, "mut" ≠ lifetimeText x := fun x => (lifetimeText_ne x (by decide)).symm
  cases l <;> cases m <;> simp [selfTexts, hl]

theorem takenOf_self (s : SelfItem) : Read.takenOf true s.tokens.texts = .ok (.receiver s.declared) := by
  obtain ⟨ht, hd⟩ := takeWhile_no_colon s.colon_not_mem
  have hlast := s.getLast_pattern
  cases s with
  | value m =>
    rw [SelfItem.texts_tokens, Read.takenOf]
    simp only [ht, hd, hlast, decide_true, Bool.and_self, if_true]
    cases m <;> rfl
  | reference l m =>
    rw [SelfItem.texts_tokens, Read.takenOf]
    have hm := contains_mut l m
    have hmode : Read.receiverOf (SelfItem.reference l m).pattern [] = referenceMode m := by
      simp only [Read.receiverOf, SelfItem.pattern, List.isEmpty_nil, List.head?_cons, hm, if_true]
      rfl
    simp only [ht, hd, hlast, decide_true, Bool.and_self, if_true, List.tail_nil, hmode]
    rfl
  | typed m t =>
    obtain ⟨ht, hd⟩ := takeWhile_colon t.tokens.texts (SelfItem.typed m t).colon_not_mem
    rw [SelfItem.texts_tokens, Read.takenOf]
    simp only [ht, hd, hlast, decide_true, Bool.and_self, if_true, List.tail_cons, t.receiverOf_tokens]
    cases t <;> rfl

end RingBridge.Source
