import RingBridge.Proofs.Module.Retyped
import RingBridge.Proofs.Module.Total
import RingBridge.Proofs.Shape.Owner
/-!
In the methods of an impl, `Self` is the struct of the impl: a module is the same whichever of the two the types name.
-/
namespace RingBridge
open Spelling

/-- The same value, or the text of a type and that of the type with a struct in the place of `Self`. Blanks may be set
    differently in the two. -/
inductive Value.SelfReplaced (owner : TypeName) : Value → Value → Prop
  | same (v : Value) : SelfReplaced owner v v
  | type {t : TypeExpr} {a b : String} (h : t.SelfApart) (ha : Spaced t.pieces a.toList)
    (hb : Spaced (t.pieces.map (Piece.replaceSelf owner)) b.toList) : SelfReplaced owner (.text a) (.text b)

theorem Value.SelfReplaced.alike {owner : TypeName} (howner : owner.chars ≠ selfName) {v w : Value}
    (h : v.SelfReplaced owner w) : v.Alike (String.ofList owner.chars) w := by
  cases h with
  | same v => exact .same v
  | @type t a b h ha hb =>
    refine .text ?_
    rw [← t.pieces_replaceSelf] at hb
    rw [Export.ownShape, Export.ownShape, t.ofSpelling_of_spaced ha, (t.replaceSelf owner).ofSpelling_of_spaced hb,
      TypeExpr.shape_replaceSelf howner h]

inductive Declaration.SelfReplaced : Declaration Value → Declaration Value → Prop
  | same (decl : Declaration Value) : SelfReplaced decl decl
  | impl {owner : TypeName} {name : String} {fs gs : List (Function Value)} (howner : owner.chars ≠ selfName)
    (hbase : baseName name = String.ofList owner.chars)
    (h : List.Forall₂ (Function.Retyped (Value.SelfReplaced owner)) fs gs) :
    SelfReplaced (.impl ⟨.text name, fs⟩) (.impl ⟨.text name, gs⟩)

theorem Declaration.SelfReplaced.retyped {decl decl' : Declaration Value} (h : decl.SelfReplaced decl') :
    decl.Retyped decl' := by
  cases h with
  | same => exact .same decl
  | @impl owner name fs gs howner hbase h =>
    refine .impl (h.imp fun f g hfg => ?_)
    rw [hbase]
    exact hfg.imp fun _ _ => Value.SelfReplaced.alike howner

namespace Settings
variable {s : Settings} {d : Document Value} {given : Option String}

/-- Without handlers, a module is the same if impls name their structs in the place of `Self`, in any types of
    parameters and results, as deep as `Self` stands in them. -/
theorem generate_replaceSelf
    (hbare : ∀ joined, d.joinedPrefix given = .ok joined → (s.moduleFor joined).handlers.entries = [])
    {decls : List (Declaration Value)} (h : List.Forall₂ Declaration.SelfReplaced d.decls decls) :
    s.generate { d with decls } given = s.generate d given :=
  generate_retyped hbare (h.imp fun _ _ => Declaration.SelfReplaced.retyped)

def mergeMethod (struct : String) : Function String where
  name := "merge"
  params := [⟨"others", "&[" ++ struct ++ "]"⟩]
  result := some ("Option<" ++ struct ++ ">")
  receiver := .byRef

def mergeDocument (struct : String) : Document String where
  decls := [.impl ⟨"Counter", [mergeMethod struct]⟩]

theorem generate_replaceSelf_counter : ∃ m, generate {} ((mergeDocument "Self").map .text) none = .ok m ∧
    generate {} ((mergeDocument "Counter").map .text) none = .ok m := by
  let owner : TypeName := ⟨⟨'C', ['o', 'u', 'n', 't', 'e', 'r'], by decide, by decide⟩, by decide, by decide⟩
  have hspell : ∀ u : TypeExpr, Spaced u.pieces u.spelling.toList := by
    intro u
    rw [TypeExpr.spelling, String.toList_ofList]
    exact spaced_spell u.isValid_pieces
  have htype : ∀ u : TypeExpr, u.SelfApart →
      Value.SelfReplaced owner (.text u.spelling) (.text (u.replaceSelf owner).spelling) := fun u hu =>
    .type hu (hspell u) (u.pieces_replaceSelf ▸ hspell (u.replaceSelf owner))
  have hmethod : Function.Retyped (Value.SelfReplaced owner) ((mergeMethod "Self").map .text)
      ((mergeMethod "Counter").map .text) :=
    ⟨rfl, .cons ⟨rfl, htype (.slice none false .self) TypeExpr.selfApart_self⟩ .nil,
      .some (htype (.wrapped [] .option .self) TypeExpr.selfApart_self), rfl, rfl, rfl⟩
  have hbase : baseName "Counter" = String.ofList owner.chars := (baseName_plain (by decide)).trans (by decide)
  obtain ⟨m, hm, -⟩ := @exists_generate {} (mergeDocument "Self") none "" rfl
  refine ⟨m, hm, ?_⟩
  rw [← hm]
  exact @generate_replaceSelf {} ((mergeDocument "Self").map .text) none (fun _ _ => rfl) _
    (.cons (.impl (by decide) hbase (.cons hmethod .nil)) .nil)

end Settings
end RingBridge
