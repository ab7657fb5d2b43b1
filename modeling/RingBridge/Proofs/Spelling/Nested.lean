import RingBridge.Proofs.Spelling.Balanced
import RingBridge.Proofs.Spelling.Pieces
/-!
Well nested texts with no dash and no semicolon, as types are written in. The parts between the commas of a list are
found again, and so is the bracket that closes one.
-/
namespace RingBridge.Spelling
open Text

def IsPlain (c : Char) : Prop := c ∉ ['<', '>', '(', ')', '[', ']', '\x7b', '\x7d', ',', ';', '-']

instance (c : Char) : Decidable (IsPlain c) := inferInstanceAs (Decidable (c ∉ _))

theorem IsPlain.ne {c d : Char} (hc : IsPlain c) (hd : ¬ IsPlain d) : c ≠ d := fun h => hd (h ▸ hc)

theorem IsPlain.not_isBracket {c : Char} (hc : IsPlain c) : ¬ IsBracket openers c := by
  rintro ⟨o, ho, rfl | ho'⟩
  · have hopener : ∀ o ∈ openers, ¬ IsPlain o := by decide
    exact hopener _ ho hc
  · obtain ⟨_, rfl⟩ | ⟨_, rfl⟩ | ⟨_, rfl⟩ | ⟨_, rfl⟩ := closer_cases ho' <;> exact absurd hc (by decide)

/-- Texts that are well nested, without dashes and semicolons; `commas` tells whether commas may stand outside of all
    brackets. -/
structure Nested (commas : Bool) (cs : List Char) : Prop where
  wellNested : WellNested openers (if commas then none else some ',') cs
  dash : '-' ∉ cs
  semicolon : ';' ∉ cs

namespace Nested
variable {b : Bool} {cs ds : List Char}

theorem append (h : Nested b cs) (hd : Nested b ds) : Nested b (cs ++ ds) where
  wellNested := h.wellNested.append hd.wellNested
  dash := by simp [h.dash, hd.dash]
  semicolon := by simp [h.semicolon, hd.semicolon]

theorem of_plain (h : ∀ c ∈ cs, IsPlain c) : Nested b cs where
  wellNested := by
    refine .of_plain fun c hc => ⟨(h c hc).not_isBracket, fun he => ?_⟩
    cases b with
    | true => cases he
    | false => exact (h c hc).ne (d := ',') (by decide) (Option.some.inj he).symm
  dash hm := absurd (h _ hm) (by decide)
  semicolon hm := absurd (h _ hm) (by decide)

theorem nil : Nested b [] := .of_plain nofun

theorem plain {c : Char} (hc : IsPlain c) (h : Nested b cs) : Nested b (c :: cs) :=
  .append (.of_plain (List.forall_mem_singleton.2 hc)) h

theorem comma (h : Nested true cs) : Nested true (',' :: cs) where
  wellNested := .plain (by decide) nofun h.wellNested
  dash := by simp [h.dash]
  semicolon := by simp [h.semicolon]

theorem bracket {o c : Char} (hc : closer? o = some c) (h : Nested true cs) : Nested b (o :: (cs ++ [c])) where
  wellNested := .group (mem_openers hc) hc h.wellNested (fun _ hlast => h.dash (List.mem_of_getLast? hlast)) .nil
  dash := by
    obtain ⟨rfl, rfl⟩ | ⟨rfl, rfl⟩ | ⟨rfl, rfl⟩ | ⟨rfl, rfl⟩ := closer_cases hc <;> simp [h.dash]
  semicolon := by
    obtain ⟨rfl, rfl⟩ | ⟨rfl, rfl⟩ | ⟨rfl, rfl⟩ | ⟨rfl, rfl⟩ := closer_cases hc <;> simp [h.semicolon]

/-- A text with no comma outside of its brackets does not end in one. -/
theorem getLast?_ne (h : Nested false cs) : cs.getLast? ≠ some ',' := h.wellNested.getLast?_ne (by decide)

end Nested

theorem splitTop_intercalate {as : List (List Char)} (h : ∀ a ∈ as, Nested false a ∧ trim a = a ∧ a ≠ []) :
    splitTop ',' ([','].intercalate as) = as := by
  have hparts : ∀ a ∈ as, IsPart ',' a := fun a ha => ⟨(h a ha).1.wellNested, (h a ha).2.1, (h a ha).2.2⟩
  cases as with
  | nil => simp [List.intercalate_nil, splitTop, splitFrom, trim, trimStart, trimEnd]
  | cons a r => exact (splitFrom_intercalate (by decide) hparts (List.cons_ne_nil a r) none).1

/-- A list of one part with a comma after it. -/
theorem splitTop_comma {a : List Char} (h : Nested false a) (ht : trim a = a) : splitTop ',' (a ++ [',']) = [a] := by
  rw [splitTop, splitFrom_sep (by decide) h.wellNested, ht]
  simp [splitFrom, trim, trimStart, trimEnd]

/-- The bracket after a nested text closes the one in front of it. -/
theorem closingFrom_bracket {b : Bool} {cs : List Char} (h : Nested b cs) :
    closingFrom '<' '>' 1 '<' 1 (cs ++ ['>']) = some (cs ++ ['>']).length :=
  closingFrom_eq_length.2 ⟨cs, rfl, h.wellNested.angles, fun hlast => h.dash (List.mem_of_getLast? hlast)⟩

end RingBridge.Spelling
