import RingBridge.Proofs.Shape.TypeExpr
/-!
Arguments of generic types. A spelling has arguments exactly if it is a path, a head and a group of angle brackets that is
closed by the last character, and a list of arguments that is written between the brackets is found again.
-/
namespace RingBridge.Spelling
open Text

def pathText (path : List Ident) : List Char := path.flatMap fun x => x.chars ++ [':', ':']

def angled (path : List Ident) (head : Ident) (inner : List Char) : List Char :=
  pathText path ++ (head.chars ++ '<' :: (inner ++ ['>']))

theorem stripPath_pathText (path : List Ident) {cs : List Char} (h : afterSegment? cs = none) :
    stripPath (pathText path ++ cs) = cs := by
  induction path with
  | nil => exact stripPath_eq_self h
  | cons x path ih =>
    have hcons : pathText (x :: path) ++ cs = x.chars ++ ':' :: ':' :: (pathText path ++ cs) := by simp [pathText]
    rw [hcons, stripPath_segment, ih]

theorem exists_pathText (cs : List Char) : ∃ path, cs = pathText path ++ stripPath cs := by
  fun_induction stripPath cs with
  | case1 cs r h ih =>
    obtain ⟨x, rfl⟩ := exists_of_afterSegment? h
    obtain ⟨path, hpath⟩ := ih
    exact ⟨x :: path, by simpa [pathText] using hpath⟩
  | case2 cs h => exact ⟨[], rfl⟩

/-- The text between angle brackets that are a group: its angle brackets match, and it does not end in the dash of an
    arrow. -/
structure IsInner (inner : List Char) : Prop where
  nested : WellNested ['<'] none inner
  ends : inner.getLast? ≠ some '-'

theorem generic?_eq_some {cs h : List Char} {args : List (List Char)} : generic? cs = some (h, args) ↔
    ∃ path head inner, cs = angled path head inner ∧ h = head.chars ∧ IsInner inner ∧ args = splitTop ',' inner := by
  constructor
  · intro hg
    unfold generic? at hg
    split at hg
    · next hd tail hname =>
      split at hg
      · next hclosed =>
        obtain ⟨rfl, rfl⟩ := Prod.mk.inj (Option.some.inj hg)
        obtain ⟨inner, rfl, hnested, hends⟩ := closingFrom_eq_length.1 hclosed
        obtain ⟨path, hpath⟩ := exists_pathText cs
        obtain ⟨head, rfl, hstrip⟩ := exists_of_name? hname
        rw [hstrip] at hpath
        exact ⟨path, head, inner, hpath, rfl, ⟨hnested, hends⟩, by rw [List.dropLast_concat]⟩
      · cases hg
    · cases hg
  · rintro ⟨path, head, inner, rfl, rfl, ⟨hnested, hends⟩, rfl⟩
    have htail : IsTail ('<' :: (inner ++ ['>'])) := .inr ⟨_, rfl⟩
    have hclosed := closingFrom_eq_length.2 ⟨inner, rfl, hnested, hends⟩
    rw [generic?, angled, stripPath_pathText path (afterSegment?_head head htail), name?_ident head htail.stopsWord]
    simp only [hclosed, if_pos, List.dropLast_concat]

theorem genericArgs?_eq_some {heads : List (List Char)} {cs : List Char} {args : List (List Char)} :
    genericArgs? heads cs = some args ↔ ∃ path head inner, head.chars ∈ heads ∧ cs = angled path head inner ∧
      IsInner inner ∧ args = splitTop ',' inner := by
  constructor
  · intro h
    unfold genericArgs? at h
    split at h
    · next hd as hg =>
      split at h
      · next hmem =>
        cases h
        obtain ⟨path, head, inner, hcs, rfl, hinner, hargs⟩ := generic?_eq_some.1 hg
        exact ⟨path, head, inner, List.contains_iff_mem.1 hmem, hcs, hinner, hargs⟩
      · cases h
    · cases h
  · rintro ⟨path, head, inner, hmem, hcs, hinner, hargs⟩
    have hg := generic?_eq_some.2 ⟨path, head, inner, hcs, rfl, hinner, hargs⟩
    rw [genericArgs?, hg]
    exact if_pos (List.contains_iff_mem.2 hmem)

structure IsArgument (a : List Char) : Prop extends IsPart ',' a where
  ends : a.getLast? ≠ some '-'

theorem IsInner.comma {as bs : List Char} (ha : IsInner as) (hb : IsInner bs) : IsInner (as ++ ',' :: bs) where
  nested := ha.nested.append (.plain (by decide) nofun hb.nested)
  ends := by
    rw [List.getLast?_append, List.getLast?_cons, Option.some_or]
    cases hlast : bs.getLast? with
    | none => simp
    | some c =>
      intro he
      exact hb.ends (hlast.trans he)

theorem isInner_nil : IsInner [] := ⟨.nil, nofun⟩

theorem IsArgument.isInner {a : List Char} (h : IsArgument a) : IsInner a := ⟨h.nested.angles, h.ends⟩

theorem isInner_intercalate : (args : List (List Char)) → (∀ a ∈ args, IsArgument a) → IsInner ([','].intercalate args)
  | [], _ => isInner_nil
  | [a], h => by
    rw [List.intercalate_singleton]
    exact (h a (List.mem_singleton_self a)).isInner
  | a :: b :: r, h => by
    obtain ⟨ha, hr⟩ := List.forall_mem_cons.1 h
    rw [List.intercalate_cons_cons, List.append_assoc]
    exact ha.isInner.comma (isInner_intercalate (b :: r) hr)

/-- The angle brackets behind a head are closed by the last character. -/
theorem closing?_angled (path : List Ident) (head : Ident) {inner : List Char} (h : IsInner inner) :
    closing? (angled path head inner) (pathText path ++ head.chars).length =
      .ok (some ((angled path head inner).length - 1 : Nat)) := by
  have hdrop : searchFrom (angled path head inner) (pathText path ++ head.chars).length = '<' :: (inner ++ ['>']) := by
    rw [searchFrom, if_pos (Int.natCast_nonneg _), Int.toNat_natCast, angled, ← List.append_assoc, List.drop_left]
  have hlength : (angled path head inner).length - 1 = (pathText path ++ head.chars).length + (inner ++ ['>']).length := by
    simp only [angled, List.length_append, List.length_cons, List.length_nil]
    omega
  have hclosed := closingFrom_eq_length.2 ⟨inner, rfl, h.nested, h.ends⟩
  rw [closing?, hdrop, hlength]
  simp only [closer?, hclosed, Int.natCast_add]
  rfl

def std : Ident := ⟨'s', "td".toList, by decide, by decide⟩

theorem isArgument_string : IsArgument "String".toList := ⟨⟨.of_plain (by decide), by decide, by decide⟩, by decide⟩

/-- The argument has an arrow outside of its brackets, and a comma inside of them. -/
theorem isArgument_function : IsArgument "fn(u8)->Vec<(u8,u16)>".toList := by
  have hname : WellNested openers (some ',') "fn".toList := .of_plain (by decide)
  have hbyte : WellNested openers none "u8".toList := .of_plain (by decide)
  have hvec : WellNested openers (some ',') "Vec".toList := .of_plain (by decide)
  have hpair : WellNested openers none "(u8,u16)".toList :=
    .group (i := "u8,u16".toList) (by decide) rfl (.of_plain (by decide)) nofun .nil
  have hresult : WellNested openers (some ',') "<(u8,u16)>".toList :=
    .group (i := "(u8,u16)".toList) (by decide) rfl hpair (by decide) .nil
  exact ⟨⟨hname.append (.group (by decide) rfl hbyte nofun (.arrow (by decide) (hvec.append hresult))), by decide, by decide⟩,
    by decide⟩

/-- A list of arguments is found again, whatever the head and the path in front of it, and with one comma behind it too.
    Nothing else has arguments than a path, one of the heads, and a group of angle brackets that is closed by the last
    character. Parts with any separator between them, other than a bracket, are found again by themselves. -/
theorem genericArgs?_angled (heads : List (List Char)) :
    (∀ path head args, head.chars ∈ heads → args ≠ [] → (∀ a ∈ args, IsArgument a) →
      genericArgs? heads (angled path head ([','].intercalate args)) = some args ∧
        genericArgs? heads (angled path head ([','].intercalate args ++ [','])) = some args) ∧
    (∀ cs args, genericArgs? heads cs = some args → ∃ path head inner, head.chars ∈ heads ∧ cs = angled path head inner ∧
      IsInner inner ∧ closing? cs (pathText path ++ head.chars).length = .ok (some (cs.length - 1 : Nat)) ∧
      args = splitTop ',' inner) ∧
    ∀ sep parts, ¬ IsBracket openers sep → parts ≠ [] → (∀ a ∈ parts, IsPart sep a) →
      splitTop sep ([sep].intercalate parts) = parts := by
  refine ⟨fun path head args hhead hne hargs => ?_, fun cs args h => ?_, fun sep parts hsep hne hparts => ?_⟩
  · obtain ⟨hplain, htrailing⟩ := splitFrom_intercalate (by decide) (fun a ha => (hargs a ha).toIsPart) hne none
    have hinner := isInner_intercalate args hargs
    exact ⟨genericArgs?_eq_some.2 ⟨path, head, _, hhead, rfl, hinner, hplain.symm⟩,
      genericArgs?_eq_some.2 ⟨path, head, _, hhead, rfl, hinner.comma isInner_nil, htrailing.symm⟩⟩
  · obtain ⟨path, head, inner, hhead, rfl, hinner, hargs⟩ := genericArgs?_eq_some.1 h
    exact ⟨path, head, inner, hhead, rfl, hinner, closing?_angled path head hinner, hargs⟩
  · exact (splitFrom_intercalate hsep hparts hne none).1

theorem genericArgs?_angled_map :
    genericArgs? ["HashMap".toList] "std::HashMap<String,fn(u8)->Vec<(u8,u16)>,>".toList =
        some ["String".toList, "fn(u8)->Vec<(u8,u16)>".toList] ∧
      splitTop ',' "String,fn(u8)->Vec<(u8,u16)>".toList = ["String".toList, "fn(u8)->Vec<(u8,u16)>".toList] := by
  have hargs : ∀ a ∈ ["String".toList, "fn(u8)->Vec<(u8,u16)>".toList], IsArgument a :=
    List.forall_mem_cons.2 ⟨isArgument_string, List.forall_mem_singleton.2 isArgument_function⟩
  obtain ⟨hlist, -, hparts⟩ := genericArgs?_angled ["HashMap".toList]
  exact ⟨(hlist [std] Pairing.hashMap.name _ (by decide) (by decide) hargs).2,
    hparts ',' _ (by decide) (by decide) fun a ha => (hargs a ha).toIsPart⟩

end RingBridge.Spelling
