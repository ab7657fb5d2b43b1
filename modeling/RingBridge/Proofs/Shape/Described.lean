import RingBridge.Proofs.Shape.Names
/-!
What the names of kinds say. A shape is described by the kind of what is inside it, and by the layers around that which
may be missing it.
-/
namespace RingBridge

def startsList (kind : String) : Bool :=
  "list of ".toList.isPrefixOf kind.toList || "list [".toList.isPrefixOf kind.toList

theorem startsList_append {lead : String} (h : startsList lead = true) (rest : String) :
    startsList (lead ++ rest) = true := by
  rw [startsList, Bool.or_eq_true, List.isPrefixOf_iff_prefix, List.isPrefixOf_iff_prefix] at h ⊢
  rw [String.toList_append]
  exact h.imp (fun h => h.trans (List.prefix_append _ _)) fun h => h.trans (List.prefix_append _ _)

/-- A text names a kind of value, or nothing, and may add that there is none or that an error is raised. Pointers are
    named after one of `structs`. -/
inductive Describes (structs : List String) : String → Option Kind → Prop
  | nothing : Describes structs "nothing" none
  | number : Describes structs "number" (some .number)
  | string : Describes structs "string" (some .string)
  | list {t} : startsList t = true → Describes structs t (some .list)
  | pointer {n} : n ∈ structs → Describes structs (n ++ " pointer") (some .pointer)
  | orNothing {t k} : Describes structs t k → Describes structs (t ++ " or nothing") k
  | raises {t k} : Describes structs t k → Describes structs (t ++ " (raises on error)") k

namespace Describes
variable {structs : List String} {t : String} {k : Option Kind}

theorem list_append {lead : String} (h : startsList lead = true) (rest : String) :
    Describes structs (lead ++ rest) (some .list) := .list (startsList_append h rest)

def Apart (t : String) : Prop := ∀ rest, startsList (t ++ rest) = false

theorem apart_append {lead : String} (h : Apart lead) (tail : String) : Apart (lead ++ tail) := by
  intro rest
  rw [String.append_assoc]
  exact h (tail ++ rest)

/-- A text that is long enough does not begin as that of a list only because of what comes after it. -/
theorem apart_of_length (h : startsList t = false) (hlength : 8 ≤ t.toList.length) : Apart t := by
  intro rest
  rw [startsList, Bool.or_eq_false_iff] at h ⊢
  have hshort : ∀ {cs : List Char}, cs.length ≤ 8 → cs.isPrefixOf t.toList = false →
      cs.isPrefixOf (t ++ rest).toList = false := by
    intro cs hcs hfalse
    rw [Bool.eq_false_iff, ne_eq, List.isPrefixOf_iff_prefix] at hfalse ⊢
    rw [String.toList_append]
    exact fun hp => hfalse (List.prefix_of_prefix_length_le hp (List.prefix_append _ _) (Nat.le_trans hcs hlength))
  exact ⟨hshort (by decide) h.1, hshort (by decide) h.2⟩

/-- Unless a struct is named like a list, only a text that begins as that of a list describes one. -/
theorem list_or_apart (hstructs : ∀ n ∈ structs, startsList (n ++ " pointer") = false) (h : Describes structs t k) :
    k = some .list ∧ startsList t = true ∨ k ≠ some .list ∧ Apart t := by
  induction h with
  | nothing | number | string => exact .inr ⟨nofun, fun rest => by simp [startsList, List.isPrefixOf]⟩
  | list h => exact .inl ⟨rfl, h⟩
  | pointer hn => exact .inr ⟨nofun, apart_of_length (hstructs _ hn) (by simp)⟩
  | orNothing _ ih | raises _ ih => exact ih.imp (.imp_right fun h => startsList_append h _) (.imp_right fun h => apart_append h _)

/-- Texts that do not begin as that of a list end in different ways. -/
theorem eq_of_not_list (h : Describes structs t k) (hl : startsList t = false) {t' : String} {k' : Option Kind}
    (h' : Describes structs t' k') (he : t' = t) : k' = k := by
  have hends : ∀ {a b : String}, a = b → a.toList.reverse = b.toList.reverse := fun h => by rw [h]
  induction h generalizing t' k' with
  | list h => exact absurd h (by rw [hl]; decide)
  | nothing | number | string | pointer _ =>
    cases h' with
    | list hl' => exact absurd (he ▸ hl') (by rw [hl]; decide)
    | _ => first | rfl | exact absurd (hends he) (by simp)
  | orNothing _ ih | raises _ ih =>
    have hinner := Bool.eq_false_iff.2 fun h => Bool.false_ne_true (hl.symm.trans (startsList_append h _))
    cases h' with
    | list hl' => exact absurd (he ▸ hl') (by rw [hl]; decide)
    | orNothing h' | raises h' => first | exact ih hinner h' (by simpa using he) | exact absurd (hends he) (by simp)
    | _ => exact absurd (hends he) (by simp)

/-- A text describes one kind. -/
theorem unique (hstructs : ∀ n ∈ structs, startsList (n ++ " pointer") = false) (h : Describes structs t k)
    {k' : Option Kind} (h' : Describes structs t k') : k' = k := by
  have happend : ∀ {b : Bool}, startsList (t ++ "") = b → startsList t = b := by simp
  obtain ⟨rfl, hl⟩ | ⟨-, ha⟩ := h.list_or_apart hstructs
  · obtain ⟨rfl, -⟩ | ⟨-, ha⟩ := h'.list_or_apart hstructs
    · rfl
    · exact absurd (hl.symm.trans (happend (ha ""))) (by decide)
  · exact h.eq_of_not_list (happend (ha "")) h' rfl

end Describes

namespace Shape

def inside? : Shape → Option Kind
  | number _ | boolean | unknown _ => some .number
  | text _ => some .string
  | vector _ _ | slice _ _ _ | tuple _ _ | mapping _ _ _ => some .list
  | named _ _ => some .pointer
  | unit => none
  | option t _ | result t _ | boxed t _ | reference t _ _ => t.inside?

/-- A shape is described by the kind of what is inside it. -/
theorem describes_kindText : (s : Shape) → Describes s.names s.kindText s.inside?
  | number _ | boolean | unknown _ => .number
  | text _ => .string
  | unit => .nothing
  | vector t _ | slice t _ _ => .list_append (by decide : startsList "list of " = true) t.kindText
  | tuple ts _ => by
    rw [kindText, String.append_assoc]
    exact .list_append (by decide) _
  | mapping k v _ => by
    rw [kindText, String.append_assoc, String.append_assoc, String.append_assoc]
    exact .list_append (by decide) _
  | named n _ => .pointer (List.mem_singleton_self n)
  | option t _ => .orNothing (describes_kindText t)
  | result t _ => .raises (describes_kindText t)
  | boxed t _ | reference t _ _ => describes_kindText t

end Shape
end RingBridge
