import RingBridge.Proofs.Module.Owner
import RingBridge.Proofs.Module.Tags
/-!
Where `Self` stays in the code. In an impl it gives way to the struct, except in the arguments of named types; in fields
and functions it is a named type like others. Code names `Self` only where such a type does.
-/
namespace RingBridge
open Wrapper

def namesSelf (x : String) : Bool := (Text.splitWhere (fun c => !Text.isWord c) x.toList).contains selfName

/-- What stands in a text behind its path stands in it. -/
theorem Spelling.mem_splitWhere_of_stripPath {p : Char → Bool} (hp : p ':' = true) {w cs : List Char}
    (h : w ∈ Text.splitWhere p (stripPath cs)) : w ∈ Text.splitWhere p cs := by
  fun_induction stripPath cs with
  | case1 cs r hsegment ih =>
    obtain ⟨x, rfl⟩ := exists_of_afterSegment? hsegment
    have hsplit : Text.splitWhere p (x.chars ++ ':' :: ':' :: r) =
        Text.splitWhere p (x.chars ++ [':']) ++ Text.splitWhere p r := by
      rw [← splitWhere_append p _ hp, List.append_assoc]
      rfl
    rw [hsplit]
    exact List.mem_append_right _ (ih h)
  | case2 cs _ => exact h

theorem namesSelf_of_baseName {x : String} (h : Spelling.baseName x = "Self") : namesSelf x = true := by
  rw [namesSelf, List.contains_iff_mem]
  refine Spelling.mem_splitWhere_of_stripPath (by decide) ?_
  have hbase : (Spelling.stripPath x.toList).takeWhile (· != '<') = selfName := String.ofList_injective h
  rw [← List.takeWhile_append_dropWhile (p := (· != '<')) (l := Spelling.stripPath x.toList), hbase]
  cases hrest : (Spelling.stripPath x.toList).dropWhile (· != '<') with
  | nil => decide
  | cons c r =>
    have hc : c = '<' := by
      have hnot := List.head?_dropWhile_not (· != '<') (Spelling.stripPath x.toList)
      rw [hrest] at hnot
      simpa using hnot
    rw [hc, Spelling.splitWhere_append _ _ (by decide)]
    exact List.mem_append_left _ (by decide)

def Atom.pointee? : Atom → Option String
  | expr (.borrow _ s _) | expr (.duplicate _ s) | stmt (.free _ s) | receive _ s => some s
  | _ => none

/-- The types of a declaration in which `Self` is left. -/
def Declaration.unresolved (decl : Declaration Value) : List String := decl.opaques.filter namesSelf

def Limits.naming (structs : String → Prop) : Limits where
  accesses _ := True
  tags := structs
  borrows := structs
  frees := structs
  chars _ := True
  word _ _ := trivial

theorem Atom.Within.pointee {a : Atom} {structs : String → Prop} (h : a.Within (.naming structs)) {x : String}
    (hx : a.pointee? = some x) : structs x := by
  unfold pointee? at hx
  split at hx <;> cases hx
  · exact h.borrowed _ rfl
  · exact h.borrowed _ rfl
  · exact h.freed _ rfl
  · exact h.tagged _ rfl

namespace Declaration.Offers
variable {decl : Declaration Value} {e : Export}

theorem within_unresolved (h : decl.Offers e)
    (howner : ∀ v, decl.owner? = some v → namesSelf (Spelling.baseName v.plain) = false) :
    e.Within (.naming fun x => namesSelf x = true → x ∈ decl.unresolved) := by
  have hown : ∀ r, e.owner? = some r → namesSelf r = true → r ∈ decl.unresolved := by
    intro r hr hself
    obtain ⟨n, hn, rfl⟩ := h.comesFrom.owner r hr
    exact nomatch (howner _ hn).symm.trans hself
  refine ⟨fun r hr => hown r (by rw [hr]; rfl), fun _ _ _ _ => trivial, hown, fun r hr x hx => ?_⟩
  have hmem : namesSelf x = true → x ∈ decl.unresolved := fun hself => List.mem_filter.2 ⟨h.mem_opaques hr hx, hself⟩
  exact ⟨hmem, hmem, fun _ _ => trivial⟩

end Declaration.Offers

namespace Settings
variable {s : Settings} {d : Document Value} {given : Option String} {m : Module}

/-- Without handlers, and without a struct or an impl under the name `Self`: in the types of pointers, a wrapper names
    `Self` only where its declaration has it left in a type, and a tag is that of `Self` only if some declaration has
    it left. Where no type has it left, nothing names it. -/
theorem generate_unresolved (h : s.generate d given = .ok m)
    (hbare : (s.moduleFor m.modulePrefix).handlers.entries = [])
    (howners : ∀ decl ∈ d.decls, ∀ v, decl.owner? = some v → namesSelf (Spelling.baseName v.plain) = false) :
    (∀ w ∈ m.wrappers, ∃ decl ∈ d.decls, ∃ e, decl.Offers e ∧ w = e.wrapper (s.converterFor m) ∧
      ∀ a ∈ w.body.atoms, ∀ x, a.pointee? = some x → namesSelf x = true → x ∈ decl.unresolved) ∧
    ∀ t ∈ m.tags.entries, t.2 = "Self" → ∃ decl ∈ d.decls, ∃ x ∈ decl.unresolved, Spelling.baseName x = "Self" := by
  have hc : (s.converterFor m).IsBare := Converter.isBare_converter hbare _
  have hatoms : ∀ {decl : Declaration Value} {e : Export}, decl ∈ d.decls → decl.Offers e →
      ∀ a ∈ (e.wrapper (s.converterFor m)).body.atoms,
        a.Within (.naming fun x => namesSelf x = true → x ∈ decl.unresolved) := fun hd he =>
    (Export.body_within hc _ (he.within_unresolved (howners _ hd)) fun _ _ => trivial).atoms
  constructor
  · intro w hw
    obtain ⟨decl, hd, e, he, rfl⟩ := offers_of_generate h hw
    exact ⟨decl, hd, e, he, rfl, fun a ha x hx => (hatoms hd he a ha).pointee hx⟩
  · intro t ht hself
    obtain ht | ⟨x, hx, rfl⟩ := Tags.mem_entries_recordAll ht
    · cases ht
    · obtain ⟨w, hw, hx⟩ := List.mem_flatMap.1 hx
      obtain ⟨decl, hd, e, he, rfl⟩ := offers_of_generate h hw
      obtain ⟨a, ha, hx⟩ := (Export.mem_structs hc _ e).1 hx
      exact ⟨decl, hd, x, (hatoms hd he a ha).tagged x hx (namesSelf_of_baseName hself), hself⟩

theorem ofSpelling_self_items : Shape.ofSpelling "&[Self]" = .slice (.named "Self" "Self") false "&[Self]" :=
  TypeExpr.ofSpelling_spelling (.slice none false .self)

theorem ofSpelling_self_option : Shape.ofSpelling "Option<Self>" = .option (.named "Self" "Self") "Option<Self>" :=
  TypeExpr.ofSpelling_spelling (.wrapped [] .option .self)

theorem ofSpelling_self_reference : Shape.ofSpelling "&Self" = .reference (.named "Self" "Self") false "&Self" :=
  TypeExpr.ofSpelling_spelling (.reference none false .self)

/-- A method with `Self` in its types leaves none of it. -/
theorem generate_unresolved_counter : ∃ m, generate {} ((mergeDocument "Self").map .text) none = .ok m ∧
    (∀ w ∈ m.wrappers, ∀ a ∈ w.body.atoms, ∀ x, a.pointee? = some x → namesSelf x = false) ∧
    ∀ t ∈ m.tags.entries, t.2 ≠ "Self" := by
  obtain ⟨m, hm, -⟩ := @exists_generate {} (mergeDocument "Self") none "" rfl
  have hbase : Spelling.baseName "Counter" = "Counter" := (Spelling.baseName_plain (by decide)).trans (by decide)
  have hcounter : namesSelf "Counter" = false := by decide
  have hunresolved : ∀ decl ∈ ((mergeDocument "Self").map Value.text).decls, decl.unresolved = [] := by
    refine List.forall_mem_singleton.2 (List.filter_eq_nil_iff.2 fun x hx => ?_)
    obtain rfl | hx := List.mem_cons.1 hx
    · show ¬ namesSelf (Spelling.baseName "Counter") = true
      rw [hbase, hcounter]
      exact Bool.false_ne_true
    · obtain ⟨hx, hne⟩ := List.mem_filter.1 hx
      obtain ⟨type, htype, hx⟩ := List.mem_flatMap.1 hx
      have htype : type ∈ [Value.text "&[Self]", .text "Option<Self>"] := htype
      have hself : x = "Self" := by
        simp only [List.mem_cons, List.not_mem_nil, or_false] at htype
        obtain rfl | rfl := htype
        · simpa [Declaration.namedTypes, Value.plain, ofSpelling_self_items, Shape.names] using hx
        · simpa [Declaration.namedTypes, Value.plain, ofSpelling_self_option, Shape.names] using hx
      simp [hself] at hne
  have howners : ∀ decl ∈ ((mergeDocument "Self").map Value.text).decls, ∀ v, decl.owner? = some v →
      namesSelf (Spelling.baseName v.plain) = false := by
    refine List.forall_mem_singleton.2 fun v hv => ?_
    cases hv
    show namesSelf (Spelling.baseName "Counter") = false
    rw [hbase, hcounter]
  obtain ⟨hwrappers, htags⟩ := generate_unresolved hm rfl howners
  refine ⟨m, hm, fun w hw a ha x hx => ?_, fun t ht hself => ?_⟩
  · obtain ⟨decl, hd, e, -, -, hnames⟩ := hwrappers w hw
    cases hself : namesSelf x with
    | false => rfl
    | true => exact absurd (hunresolved decl hd ▸ hnames a ha x hx hself) List.not_mem_nil
  · obtain ⟨decl, hd, x, hx, -⟩ := htags t ht hself
    exact absurd (hunresolved decl hd ▸ hx) List.not_mem_nil

def checkFunction : Function String := { name := "check", params := [⟨"x", "&Self"⟩] }

/-- There is no struct and no impl, and yet `Self` has a tag and stands in the type of a pointer. -/
theorem generate_names_self : ∃ m, generate {} { decls := [.func (checkFunction.map .text)] } none = .ok m ∧
    ("SELF_TYPE", "Self") ∈ m.tags.entries ∧
    ∃ w ∈ m.wrappers, ∃ a ∈ w.body.atoms, a.pointee? = some "Self" := by
  have hm : generate {} { decls := [.func (checkFunction.map .text)] } none =
    .ok ⟨.text "", "", [(Export.function checkFunction).wrapper {}]⟩ := rfl
  have hwrapper : (Export.function checkFunction).wrapper {} = Operation.wrapper {}
      { exported := Name.exported "" ["check"], params := [⟨"x", "&Self"⟩], shapes := [Shape.ofSpelling "&Self"],
        call := .function "check" } := rfl
  rw [ofSpelling_self_reference] at hwrapper
  refine ⟨_, hm, ?_, _, List.mem_singleton_self _, .expr (.borrow "__ptr_x" "Self" false), ?_, rfl⟩
  · have htags : (Module.tags ⟨.text "", "", [(Export.function checkFunction).wrapper {}]⟩).entries =
        [(Name.tag "Self", Spelling.baseName "Self")] := by
      rw [hwrapper]
      rfl
    have htag : Name.tag "Self" = "SELF_TYPE" := tag_plain (by decide) (by decide)
    have hbase : Spelling.baseName "Self" = "Self" := (Spelling.baseName_plain (by decide)).trans (by decide)
    rw [htags, htag, hbase]
    exact List.mem_singleton_self _
  · rw [hwrapper]
    have hanswer : Atom.expr (.borrow "__ptr_x" "Self" false) ∈
        (Answer.ofCall none (.function "check" [.borrow "__ptr_x" "Self" false]) {}).1.atoms := .tail _ (.head _)
    exact List.mem_append_right _ (List.mem_append_right _ (List.mem_append_right _ hanswer))

end Settings
end RingBridge
