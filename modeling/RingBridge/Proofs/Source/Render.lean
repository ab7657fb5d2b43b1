import RingBridge.Proofs.Source.TypeTokens
import RingBridge.Proofs.Spelling.Head
import RingBridge.Document
/-!
Items as they are declared, the tokens they are written as, and the declarations that belong to them.
-/
namespace RingBridge.Source
open Text Spelling

def reservedNames : List String := ["pub", "self", "mut", "ref", "where", "for"]

structure Name where
  isRaw : Bool
  ident : Ident
  notReserved : isRaw = true ∨ String.ofList ident.chars ∉ reservedNames

namespace Name

def chars (n : Name) : List Char := (if n.isRaw then ['r', '#'] else []) ++ n.ident.chars

def text (n : Name) : String := String.ofList n.chars

def word (n : Name) : Word := ⟨.ident, n.text⟩

theorem toList_text (n : Name) : n.text.toList = n.chars := String.toList_ofList

theorem isValid (n : Name) : (Piece.word n.chars).IsValid := by
  refine ⟨by simp [chars, Ident.chars], fun c hc => ?_⟩
  obtain hc | hc := List.mem_append.1 hc
  · cases hr : n.isRaw with
    | false => simp [hr] at hc
    | true =>
      have hraw : ∀ d ∈ ['r', '#'], isSeparator d = false ∧ isBlank d = false := by decide
      exact hraw c (by simpa [hr] using hc)
  · exact n.ident.isValid.2 c hc

theorem text_ne (n : Name) {s : String} (hs : s ∈ reservedNames) : n.text ≠ s := by
  intro e
  cases hr : n.isRaw with
  | true =>
    have hnohash : ∀ r ∈ reservedNames, '#' ∉ r.toList := by decide
    refine hnohash s hs ?_
    rw [← e, toList_text, chars, if_pos hr]
    simp
  | false =>
    refine n.notReserved.resolve_left (by simp [hr]) ?_
    rw [text, chars, hr] at e
    exact e ▸ hs

theorem front (n : Name) : ∃ c r, n.chars = c :: r ∧ isNameStart c = true := by
  rw [chars]
  cases n.isRaw with
  | true => exact ⟨'r', _, rfl, by decide⟩
  | false => exact ⟨n.ident.first, n.ident.rest, rfl, n.ident.starts⟩

/-- No name starts with a character that starts no identifier. -/
theorem head_ne (n : Name) {c : Char} (hc : isNameStart c = false) : n.chars.head? ≠ some c := by
  obtain ⟨d, r, h, hd⟩ := n.front
  intro e
  rw [h, List.head?_cons] at e
  rw [Option.some.inj e, hc] at hd
  exact absurd hd (by decide)

theorem text_ne_singleton (n : Name) {c : Char} (hc : isNameStart c = false) : n.text ≠ String.singleton c := by
  intro e
  refine n.head_ne hc ?_
  rw [← n.toList_text, e, String.toList_singleton]
  rfl

def typeWord (n : Name) : TypeWord := ⟨n.word, by simp [word], by
  obtain ⟨c, r, h, hc⟩ := n.front
  have hb : ∀ d ∈ bracketChars, isNameStart d = false := by decide
  refine ⟨c, r, n.toList_text.trans h, isBlank_of_isWord (isWord_of_isNameStart hc), fun hm => ?_⟩
  rw [hb c hm] at hc
  exact absurd hc (by decide)⟩

end Name

/-- The tokens of a whole type: there are some, and none outside of brackets ends it. -/
structure TypeText where
  tokens : TypeTokens
  nonempty : tokens ≠ .nil
  ends : tokens.Lacks [",", ";", "where"]

def TypeText.spelling (t : TypeText) : String := Read.spelling t.tokens.texts

def lifetimeText (l : Ident) : String := String.ofList ('\'' :: l.chars)

theorem lifetimeText_ne (l : Ident) {s : String} (hs : s.toList.head? ≠ some '\'') : lifetimeText l ≠ s := by
  rintro rfl
  exact hs (by rw [lifetimeText, String.toList_ofList]; rfl)

namespace TypeWord

def self : TypeWord := ⟨⟨.ident, "self"⟩, by decide, 's', ['e', 'l', 'f'], rfl, by decide, by decide⟩

def mutable : TypeWord := ⟨⟨.ident, "mut"⟩, by decide, 'm', ['u', 't'], rfl, by decide, by decide⟩

def colon : TypeWord := ⟨⟨.punct, ":"⟩, by decide, ':', [], rfl, by decide, by decide⟩

def ampersand : TypeWord := ⟨⟨.punct, "&"⟩, by decide, '&', [], rfl, by decide, by decide⟩

def lifetime (l : Ident) : TypeWord :=
  ⟨⟨.lifetime, lifetimeText l⟩, by simp, '\'', l.chars, String.toList_ofList, by decide, by decide⟩

end TypeWord

namespace TypeTokens

def lifetime (l : Option Ident) (rest : TypeTokens) : TypeTokens :=
  match l with
  | some l => word (.lifetime l) rest
  | none => rest

def mutable (m : Bool) (rest : TypeTokens) : TypeTokens := if m then word .mutable rest else rest

end TypeTokens

namespace Balanced

def ident (text : String) (rest : Balanced) : Balanced := word ⟨.ident, text⟩ rfl rest

def comma (rest : Balanced) : Balanced := word ⟨.punct, ","⟩ (by decide) rest

def colon (rest : Balanced) : Balanced := word ⟨.punct, ":"⟩ (by decide) rest

def arrow (rest : Balanced) : Balanced := word ⟨.punct, "->"⟩ (by decide) rest

def listed (trailing : Bool) : List Balanced → Balanced
  | [] => nil
  | [a] => a ++ if trailing then comma nil else nil
  | a :: b :: r => a ++ comma (listed trailing (b :: r))

end Balanced

def visibilityTokens (isPublic : Bool) (rest : Balanced) : Balanced := if isPublic then .ident "pub" rest else rest

structure FieldItem where
  isPublic : Bool
  name : Name
  type : TypeText

def FieldItem.tokens (f : FieldItem) : Balanced :=
  visibilityTokens f.isPublic (.ident f.name.text (.colon f.type.tokens.balanced))

def FieldItem.declared (f : FieldItem) : Field String := ⟨f.name.text, f.type.spelling, .boolean f.isPublic⟩

structure ParamItem where
  name : Name
  type : TypeText

def ParamItem.tokens (p : ParamItem) : TypeTokens := .word p.name.typeWord (.word .colon p.type.tokens)

def ParamItem.declared (p : ParamItem) : Param String := ⟨p.name.text, p.type.spelling⟩

/-- The type that a receiver is written with. Behind a reference stands a name, and no `mut` hides in a lifetime. -/
inductive SelfType where
  | owned (type : TypeText) (h : type.tokens.pieces.head? ≠ some (.sep '&'))
  | reference (lifetime : Option Ident) (mutable : Bool) (head : Name) (rest : TypeTokens)
      (hl : ∀ l, lifetime = some l → ¬ "mut".toList <:+ l.chars) (hr : rest.Lacks [","])

/-- A receiver: by value, by reference with its lifetime, or with a type of its own. -/
inductive SelfItem where
  | value (mutable : Bool)
  | reference (lifetime : Option Ident) (mutable : Bool)
  | typed (mutable : Bool) (type : SelfType)

def SelfType.tokens : SelfType → TypeTokens
  | owned t _ => t.tokens
  | reference l m head rest _ _ => .word .ampersand (.lifetime l (.mutable m (.word head.typeWord rest)))

def SelfItem.tokens : SelfItem → TypeTokens
  | value m => .mutable m (.word .self .nil)
  | reference l m => .word .ampersand (.lifetime l (.mutable m (.word .self .nil)))
  | typed m t => .mutable m (.word .self (.word .colon t.tokens))

def referenceMode (mutable : Bool) : Receiver := if mutable then .byMutRef else .byRef

def SelfItem.declared : SelfItem → Receiver
  | value _ => .byValue
  | reference _ m => referenceMode m
  | typed _ (.owned _ _) => .byValue
  | typed _ (.reference _ m _ _ _ _) => referenceMode m

structure FunctionItem where
  isPublic : Bool
  name : Name
  self? : Option SelfItem
  params : List ParamItem
  trailing : Bool
  result : Option TypeText
  body : Balanced

namespace FunctionItem

def paramTokens (f : FunctionItem) : Balanced :=
  .listed f.trailing (f.self?.toList.map (fun s => s.tokens.balanced) ++ f.params.map fun p => p.tokens.balanced)

def resultTokens (result : Option TypeText) (rest : Balanced) : Balanced :=
  match result with
  | some t => .arrow (t.tokens.balanced ++ rest)
  | none => rest

def core (f : FunctionItem) : Balanced :=
  .ident "fn" (.ident f.name.text
    (.group .paren f.paramTokens (resultTokens f.result (.group .brace f.body .nil))))

def tokens (f : FunctionItem) : Balanced := visibilityTokens f.isPublic f.core

def resultSpelling : Option TypeText → Option String
  | some t => if t.tokens.isUnit then none else some t.spelling
  | none => none

def declared (f : FunctionItem) : Function String where
  name := f.name.text
  params := f.params.map ParamItem.declared
  result := resultSpelling f.result
  isPublic := .boolean f.isPublic
  receiver := (f.self?.map SelfItem.declared).getD .absent

end FunctionItem

inductive Item where
  | struct (isPublic : Bool) (name : Name) (fields : List FieldItem) (trailing : Bool)
  | impl (isPublic : Bool) (name : Name) (methods : List FunctionItem)
  | function (f : FunctionItem)

namespace Item

def concat : List Balanced → Balanced
  | [] => .nil
  | a :: r => a ++ concat r

def isPublic : Item → Bool
  | struct isPublic _ _ _ | impl isPublic _ _ => isPublic
  | function f => f.isPublic

def core : Item → Balanced
  | struct _ name fields trailing =>
    .ident "struct" (.ident name.text (.group .brace (.listed trailing (fields.map FieldItem.tokens)) .nil))
  | impl _ name methods =>
    .ident "impl" (.ident name.text (.group .brace (concat (methods.map FunctionItem.tokens)) .nil))
  | function f => f.core

def tokens (i : Item) : Balanced := visibilityTokens i.isPublic i.core

def declared : Item → Declaration String
  | struct isPublic name fields _ =>
    .struct { name := name.text, fields := fields.map FieldItem.declared, isPublic := .boolean isPublic }
  | impl _ name methods => .impl { name := name.text, methods := methods.map FunctionItem.declared }
  | function f => .func f.declared

end Item

def fileTokens (items : List Item) : Balanced := Item.concat (items.map Item.tokens)

end RingBridge.Source
