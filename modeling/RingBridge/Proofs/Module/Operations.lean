import RingBridge.Proofs.Module.Order
import Mathlib.Data.List.Flatten
import Mathlib.Data.List.Nodup
/-!
The names of a struct's operations. A constructor and accessors give way to the methods that stand in for them, so they
never have the name of a method. The destructor gives way to none, and it alone can share its name with a method.
-/
namespace RingBridge

theorem List.flatMap_filter_of_nil {α β : Type} {p : α → Bool} {f : α → List β} {xs : List α}
    (h : ∀ x ∈ xs, p x = false → f x = []) : (xs.filter p).flatMap f = xs.flatMap f := by
  induction xs with
  | nil => rfl
  | cons x xs ih =>
    obtain ⟨hx, hxs⟩ := List.forall_mem_cons.1 h
    rw [List.filter_cons]
    cases hp : p x with
    | true => rw [if_pos rfl, List.flatMap_cons, List.flatMap_cons, ih hxs]
    | false => rw [if_neg Bool.false_ne_true, List.flatMap_cons, hx hp, List.nil_append, ih hxs]

/-- What comes from structs and impls, first that of all structs. -/
theorem Document.perm_flatMap {α : Type} {d : Document Value} {f : Declaration Value → List α}
    (hf : ∀ g, .func g ∈ d.decls → f (.func g) = []) : (d.decls.flatMap f).Perm
      (d.structs.flatMap (fun t => f (.struct t)) ++ d.impls.flatMap fun i => f (.impl i)) := by
  unfold structs impls
  generalize d.decls = decls at hf ⊢
  induction decls with
  | nil => exact .nil
  | cons decl decls ih =>
    have ih := ih fun g hg => hf g (List.mem_cons_of_mem decl hg)
    cases decl with
    | struct t =>
      simp only [List.flatMap_cons, List.filterMap_cons, List.append_assoc]
      exact ih.append_left _
    | impl i =>
      simp only [List.flatMap_cons, List.filterMap_cons]
      exact (ih.append_left _).trans (List.perm_append_comm_assoc ..)
    | func g =>
      simp only [List.flatMap_cons, List.filterMap_cons, hf g (List.mem_cons_self ..), List.nil_append]
      exact ih

namespace Export

def op : Export → String
  | destructor _ => "delete"
  | constructor _ => "new"
  | getter _ field _ => "get_" ++ field
  | setter _ field _ => "set_" ++ field
  | method _ f | function f => f.name

/-- The names of the operations of a struct, as far as the struct leaves them open. -/
def opsOf (struct : String) (es : List Export) : List String :=
  (es.filter fun e => e.owner? = some struct).map op

theorem name_of_owner {e : Export} {n : String} (h : e.owner? = some (Spelling.baseName n)) (modulePrefix : String) :
    e.name modulePrefix = Name.exported modulePrefix [Name.lowerText (Spelling.baseName n), e.op] := by
  cases e with
  | function f => cases h
  | method s f =>
    cases h
    rfl
  | destructor s | constructor s | getter s x type | setter s x type =>
    cases h
    rw [name, structName, Spelling.baseName_baseName]
    rfl

theorem exported_injective (modulePrefix struct : String) :
    Function.Injective fun op => Name.exported modulePrefix [struct, op] := by
  intro a b h
  simp only [Name.exported, String.intercalate_cons_cons, String.intercalate_singleton, String.append_right_inj] at h
  exact h

theorem registration_owner (c : Converter) (name : String) (e : Export) :
    (e.wrapperAs c name).registration.owner = e.owner? := by cases e <;> rfl

/-- The registrations of a struct have names of their own if its operations have. -/
theorem nodup_names_iff {c : Converter} {es : List Export} {n : String} :
    ((((es.map (wrapper c)).map Wrapper.registration).filter
        fun r => r.owner = some (Spelling.baseName n)).map Registration.name).Nodup ↔
      (opsOf (Spelling.baseName n) es).Nodup := by
  have hnames : (((es.map (wrapper c)).map Wrapper.registration).filter
      fun r => r.owner = some (Spelling.baseName n)).map Registration.name =
        (opsOf (Spelling.baseName n) es).map fun op =>
          Name.exported c.modulePrefix [Name.lowerText (Spelling.baseName n), op] := by
    rw [opsOf, List.map_map, List.filter_map, List.map_map, List.map_map]
    simp only [Function.comp_def, wrapper, registration_owner]
    refine List.map_congr_left fun e he => ?_
    rw [(registration_name ..).1]
    exact name_of_owner (by simpa using (List.mem_filter.1 he).2) _
  rw [hnames, List.nodup_map_iff (exported_injective ..)]

end Export

/-- All exports of a declaration have its owner. -/
theorem Declaration.Offers.owner_eq {decl : Declaration Value} {e : Export} (h : decl.Offers e) :
    e.owner? = decl.owner?.map fun v => Spelling.baseName v.plain := by
  cases h with
  | destructor hn | constructor hn | getter hn | setter hn | method hn =>
    rw [Declaration.owner?, Option.map_some, hn]
    rfl
  | function => rfl

def Field.accessorNames (f : Field Value) : List String := ["get_" ++ f.name.plain, "set_" ++ f.name.plain]

namespace Plan
variable {p : Plan} {struct : String} {es : List Export}

/-- An export that is offered unless a method stands in for it, and then no method has its name. -/
theorem ops_unless {found : Bool} {o : Offer} {name : String} (h : (if found then [] else [o]) = es.map .ok)
    (ho : ∀ e, o = .ok e → e.op = name) (hfound : found = false → p.index.hasText struct name = false) :
    (es.map Export.op).Sublist [name] ∧ ∀ x ∈ es.map Export.op, p.index.hasText struct x = false := by
  cases found with
  | true =>
    rw [List.map_eq_nil_iff.1 h.symm]
    exact ⟨List.nil_sublist _, nofun⟩
  | false =>
    obtain ⟨e, rfl, he⟩ := List.map_eq_singleton_iff.1 h.symm
    rw [List.map_singleton, ho e he.symm]
    exact ⟨List.Sublist.refl _, List.forall_mem_singleton.2 (hfound rfl)⟩

/-- The accessors of a field, and no method has their names. -/
theorem ops_accessors {f : Field Value} (h : p.accessors struct f = es.map .ok) :
    (es.map Export.op).Sublist f.accessorNames ∧
      ∀ o ∈ es.map Export.op, p.index.hasText struct o = false := by
  unfold accessors at h
  split at h
  · next key _ =>
    obtain ⟨gets, sets, rfl, hgets, hsets⟩ := List.map_eq_append_iff.1 h.symm
    have hgetter : ∀ e, (Document.typeText f.type).map (Export.getter struct f.name.plain) = .ok e →
        e.op = "get_" ++ f.name.plain := by
      intro e he
      obtain ⟨type, _, rfl⟩ := Except.exists_of_map_eq_ok he
      rfl
    have hsetter : ∀ e, setterOf struct f = .ok e → e.op = "set_" ++ f.name.plain := by
      intro e he
      obtain ⟨type, _, he⟩ := Except.exists_of_bind_eq_ok he
      obtain ⟨x, hx, he⟩ := Except.exists_of_bind_eq_ok he
      cases he
      rw [Document.text_of_paramText hx]
      rfl
    obtain ⟨hget, hgetFree⟩ := ops_unless hgets.symm hgetter fun hfound => (Bool.or_eq_false_iff.1 hfound).2
    obtain ⟨hset, hsetFree⟩ := ops_unless hsets.symm hsetter id
    rw [List.map_append]
    exact ⟨hget.append hset, List.forall_mem_append.2 ⟨hgetFree, hsetFree⟩⟩
  · obtain ⟨e, _, he⟩ := List.map_eq_singleton_iff.1 h.symm
    cases he

/-- A struct has its destructor first. What comes after it is a constructor and accessors, and no method has their
    names. -/
theorem ops_structExports {t : Struct Value} (h : p.structExports struct t = es.map .ok) : ∃ others,
    es.map Export.op = "delete" :: others ∧
      others.Sublist ("new" :: t.fields.flatMap Field.accessorNames) ∧
      ∀ o ∈ others, p.index.hasText struct o = false := by
  obtain ⟨e, rest, rfl, he, hrest⟩ := List.map_eq_cons_iff.1 h.symm
  cases he
  refine ⟨rest.map Export.op, rfl, ?_⟩
  split at hrest
  · obtain ⟨news, accessors, rfl, hnews, haccessors⟩ := List.map_eq_append_iff.1 hrest
    obtain ⟨group, heach, rfl⟩ := Except.exists_groups haccessors.symm
    obtain ⟨hnew, hnewFree⟩ := ops_unless hnews.symm (fun e he => Except.ok.inj he ▸ rfl) id
    have hfields := (List.Sublist.flatMap_right t.publicFields fun f hf => (ops_accessors (heach f hf)).1).trans
      (List.filter_sublist.flatMap Field.accessorNames)
    rw [List.map_append, List.map_flatMap]
    refine ⟨hnew.append hfields, List.forall_mem_append.2 ⟨hnewFree, fun o ho => ?_⟩⟩
    obtain ⟨f, hf, ho⟩ := List.mem_flatMap.1 ho
    exact (ops_accessors (heach f hf)).2 o ho
  · rw [List.map_eq_nil_iff.1 hrest]
    exact ⟨List.nil_sublist _, nofun⟩

/-- The exports of an impl have the names of the methods that are selected. -/
theorem ops_methods {i : Impl Value} (h : p.methods struct i = es.map .ok) :
    (es.map Export.op).map Value.text = (i.methods.filter (p.selectsMethod struct)).map Function.name := by
  unfold methods at h
  generalize i.methods.filter (p.selectsMethod struct) = selected at h ⊢
  induction selected generalizing es with
  | nil =>
    rw [List.map_eq_nil_iff.1 h.symm]
    rfl
  | cons f fs ih =>
    obtain ⟨e, es, rfl, he, hes⟩ := List.map_eq_cons_iff.1 h.symm
    obtain ⟨g, hg, rfl⟩ := Except.exists_of_map_eq_ok he.symm
    rw [List.map_cons, List.map_cons, List.map_cons, ih hes.symm, Document.eq_map_of_functionText hg]
    rfl

end Plan

/-- Fields with names of their own have accessors with names of their own, and none is called as the constructor or the
    destructor is. -/
theorem nodup_accessorNames {fields : List (Field Value)} (h : (fields.map fun f => f.name.plain).Nodup) :
    ("delete" :: "new" :: fields.flatMap Field.accessorNames).Nodup := by
  have hget : ∀ x, "delete" ≠ "get_" ++ x ∧ "new" ≠ "get_" ++ x := by
    intro x
    simp [← String.toList_inj]
  have hset : ∀ x, "delete" ≠ "set_" ++ x ∧ "new" ≠ "set_" ++ x := by
    intro x
    simp [← String.toList_inj]
  have hcross : ∀ x y, "get_" ++ x ≠ "set_" ++ y := by
    intro x y
    simp [← String.toList_inj]
  have hmem : ∀ o ∈ fields.flatMap Field.accessorNames, "delete" ≠ o ∧ "new" ≠ o := by
    intro o ho
    obtain ⟨f, _, ho⟩ := List.mem_flatMap.1 ho
    obtain rfl | ho := List.mem_cons.1 ho
    · exact hget _
    · exact List.mem_singleton.1 ho ▸ hset _
  have hfields : (fields.flatMap Field.accessorNames).Nodup := by
    refine List.nodup_flatMap.2 ⟨fun f _ => ?_, (List.pairwise_map.1 h).imp fun {f g} hne => ?_⟩
    · exact List.nodup_cons.2 ⟨fun hm => hcross _ _ (List.mem_singleton.1 hm), List.nodup_singleton _⟩
    · intro o hf hg
      simp only [Field.accessorNames, List.mem_cons, List.not_mem_nil, or_false] at hf hg
      obtain rfl | rfl := hf
      · obtain hg | hg := hg
        · exact hne (String.append_right_inj _ |>.1 hg)
        · exact hcross _ _ hg
      · obtain hg | hg := hg
        · exact hcross _ _ hg.symm
        · exact hne (String.append_right_inj _ |>.1 hg)
  refine List.nodup_cons.2 ⟨fun hm => ?_, List.nodup_cons.2 ⟨fun hm => (hmem _ hm).2 rfl, hfields⟩⟩
  obtain hm | hm := List.mem_cons.1 hm
  · exact absurd hm (by decide)
  · exact (hmem _ hm).1 rfl

namespace Document

theorem mem_structs {d : Document Value} {t : Struct Value} : t ∈ d.structs ↔ .struct t ∈ d.decls := by
  rw [structs, List.mem_filterMap]
  constructor
  · rintro ⟨decl, hd, ht⟩
    cases decl with
    | struct u => exact Option.some.inj ht ▸ hd
    | impl i | func f => cases ht
  · exact fun h => ⟨_, h, rfl⟩

theorem mem_of_once {d : Document Value} {struct : String} {t : Struct Value}
    (h : (d.structs.filter fun u => Spelling.baseName u.name.plain = struct) = [t]) :
    t ∈ d.structs ∧ Spelling.baseName t.name.plain = struct := by
  have hm : t ∈ d.structs.filter fun u => Spelling.baseName u.name.plain = struct := h ▸ List.mem_singleton_self t
  simpa using hm

def methodsOf (d : Document Value) (struct : String) : List Value :=
  (d.impls.filter fun i => Spelling.baseName i.name.plain = struct).flatMap fun i => i.methods.map Function.name

/-- Some impl of the struct has a public method of the name, and neither is left out. -/
def HasMethod (d : Document Value) (ignored : List String) (struct name : String) : Prop :=
  struct ∉ ignored ∧ struct ++ "::" ++ name ∉ ignored ∧
    ∃ i, .impl i ∈ d.decls ∧ Spelling.baseName i.name.plain = struct ∧
      ∃ f ∈ i.methods, f.name = .text name ∧ f.isPublic.isTrue = true

end Document

namespace Plan
variable {p : Plan} {d : Document Value} {struct : String} {group : Declaration Value → List Export}

/-- The names of a struct's operations are those that come from the declarations of the struct. -/
theorem opsOf_group {decl : Declaration Value} {es : List Export} (h : p.exports decl = es.map .ok) :
    Export.opsOf struct es =
      if (decl.owner?.map fun v => Spelling.baseName v.plain) = some struct then es.map Export.op else [] := by
  have howner : ∀ e ∈ es, e.owner? = decl.owner?.map fun v => Spelling.baseName v.plain :=
    fun e he => (offers_of_mem (h ▸ List.mem_map_of_mem he)).owner_eq
  unfold Export.opsOf
  split
  · next hs => rw [List.filter_eq_self.2 fun e he => by simp [howner e he, hs]]
  · next hs =>
    rw [List.filter_eq_nil_iff.2 fun e he => by simp [howner e he, hs]]
    rfl

variable (heach : ∀ decl ∈ d.decls, p.exports decl = (group decl).map .ok)
include heach

/-- The operations of a struct that is declared once. -/
theorem flatMap_structs {t : Struct Value}
    (honce : (d.structs.filter fun u => Spelling.baseName u.name.plain = struct) = [t]) :
    d.structs.flatMap (fun u => Export.opsOf struct (group (.struct u))) = (group (.struct t)).map Export.op := by
  have hdecl : ∀ u ∈ d.structs, Export.opsOf struct (group (.struct u)) =
      if Spelling.baseName u.name.plain = struct then (group (.struct u)).map Export.op else [] := by
    intro u hu
    rw [opsOf_group (heach _ (Document.mem_structs.1 hu))]
    simp [Declaration.owner?]
  obtain ⟨ht, hname⟩ := Document.mem_of_once honce
  rw [← List.flatMap_filter_of_nil fun u hu hne => ?_, honce, List.flatMap_singleton, hdecl t ht, if_pos hname]
  rw [hdecl u hu, if_neg (by simpa using hne)]

/-- The operations that come from an impl are the selected methods, if it is an impl of the struct. -/
theorem opsOf_impl {i : Impl Value} (hi : i ∈ d.impls) :
    (Export.opsOf struct (group (.impl i))).map Value.text =
      if Spelling.baseName i.name.plain = struct ∧ struct ∉ p.ignored then
        (i.methods.filter (p.selectsMethod struct)).map Function.name
      else [] := by
  have hexports := heach _ (Document.mem_impls.1 hi)
  obtain ⟨n, hn, hoffers⟩ := named_eq_map hexports
  have howner : ((Declaration.impl i).owner?.map fun v => Spelling.baseName v.plain) = some (Spelling.baseName n) := by
    rw [Declaration.owner?, hn]
    rfl
  have hplain : Spelling.baseName i.name.plain = Spelling.baseName n := by
    rw [hn]
    rfl
  rw [opsOf_group hexports, howner, hplain]
  by_cases hbase : Spelling.baseName n = struct
  · rw [if_pos (congrArg some hbase)]
    rw [hbase, ignores] at hoffers
    split at hoffers
    · next hin =>
      rw [List.map_eq_nil_iff.1 hoffers.symm, if_neg fun h => h.2 (by simpa using hin)]
      rfl
    · next hin => rw [ops_methods hoffers, if_pos ⟨hbase, by simpa using hin⟩]
  · rw [if_neg fun h => hbase (Option.some.inj h), if_neg fun h => hbase h.1]
    rfl

/-- The operations that come from impls are the public methods that are not left out. -/
theorem mem_flatMap_impls {o : String} :
    o ∈ d.impls.flatMap (fun i => Export.opsOf struct (group (.impl i))) ↔ d.HasMethod p.ignored struct o := by
  have himpl : ∀ i ∈ d.impls, o ∈ Export.opsOf struct (group (.impl i)) ↔
      (Spelling.baseName i.name.plain = struct ∧ struct ∉ p.ignored) ∧
        ∃ f ∈ i.methods, p.selectsMethod struct f = true ∧ f.name = .text o := by
    intro i hi
    have hinj : Function.Injective Value.text := fun _ _ => Value.text.inj
    rw [← List.mem_map_of_injective hinj, opsOf_impl heach hi]
    split
    · next h => simp [h, and_assoc]
    · next h => simp [h]
  have hselects : ∀ f : Function Value, f.name = .text o →
      (p.selectsMethod struct f = true ↔ f.isPublic.isTrue = true ∧ struct ++ "::" ++ o ∉ p.ignored) := by
    intro f hf
    rw [selectsMethod, hf]
    simp [ignores, Value.plain]
  rw [List.mem_flatMap]
  constructor
  · rintro ⟨i, hi, ho⟩
    obtain ⟨⟨hbase, hignored⟩, f, hf, hselected, hname⟩ := (himpl i hi).1 ho
    obtain ⟨hpublic, hkept⟩ := (hselects f hname).1 hselected
    exact ⟨hignored, hkept, i, Document.mem_impls.1 hi, hbase, f, hf, hname, hpublic⟩
  · rintro ⟨hignored, hkept, i, hi, hbase, f, hf, hname, hpublic⟩
    have hi := Document.mem_impls.2 hi
    exact ⟨i, hi, (himpl i hi).2 ⟨⟨hbase, hignored⟩, f, hf, (hselects f hname).2 ⟨hpublic, hkept⟩, hname⟩⟩

/-- Methods with names of their own are operations with names of their own. -/
theorem nodup_flatMap_impls (hmethods : (d.methodsOf struct).Nodup) :
    (d.impls.flatMap fun i => Export.opsOf struct (group (.impl i))).Nodup := by
  refine List.Nodup.of_map Value.text (List.Nodup.sublist ?_ hmethods)
  rw [List.map_flatMap, Document.methodsOf, ← List.flatMap_filter_of_nil fun i hi hne => ?_]
  · refine List.Sublist.flatMap_right _ fun i hi => ?_
    rw [opsOf_impl heach (List.mem_filter.1 hi).1]
    split
    · exact List.filter_sublist.map _
    · exact List.nil_sublist _
  · rw [opsOf_impl heach hi, if_neg fun h => (of_decide_eq_false hne) h.1]

/-- The index knows the methods among the operations. -/
theorem hasText_of_hasMethod (hindex : MethodIndex.ofDocument d = .ok p.index) {n o : String}
    (h : d.HasMethod p.ignored (Spelling.baseName n) o) : p.index.hasText (Spelling.baseName n) o = true := by
  obtain ⟨_, _, i, hi, hbase, f, hf, hname, _⟩ := h
  obtain ⟨k, hk, _⟩ := named_eq_map (heach _ hi)
  rw [hk] at hbase
  exact (MethodIndex.has_ofDocument hindex).2 ⟨i, hi, k, hk, by rw [Spelling.baseName_baseName]; exact hbase, f, hf,
    by rw [hname]; rfl⟩

/-- The operations of a struct have names of their own, unless a method is called as the destructor is. -/
theorem nodup_opsOf_iff (hindex : MethodIndex.ofDocument d = .ok p.index) {t : Struct Value}
    (honce : (d.structs.filter fun u => Spelling.baseName u.name.plain = Spelling.baseName t.name.plain) = [t])
    (hfields : (t.fields.map fun f => f.name.plain).Nodup)
    (hmethods : (d.methodsOf (Spelling.baseName t.name.plain)).Nodup) :
    (Export.opsOf (Spelling.baseName t.name.plain) (d.decls.flatMap group)).Nodup ↔
      ¬ (t.name.plain ∉ p.ignored ∧ d.HasMethod p.ignored (Spelling.baseName t.name.plain) "delete") := by
  have hfunc : ∀ g, .func g ∈ d.decls → Export.opsOf (Spelling.baseName t.name.plain) (group (.func g)) = [] := by
    intro g hg
    rw [opsOf_group (heach _ hg)]
    rfl
  have hparts : Export.opsOf (Spelling.baseName t.name.plain) (d.decls.flatMap group) =
      d.decls.flatMap fun decl => Export.opsOf (Spelling.baseName t.name.plain) (group decl) := by
    rw [Export.opsOf, List.filter_flatMap, List.map_flatMap]
    rfl
  have himpls := nodup_flatMap_impls heach hmethods
  rw [hparts, (Document.perm_flatMap hfunc).nodup_iff, flatMap_structs heach honce, List.nodup_append]
  obtain ⟨n, hn, hoffers⟩ := named_eq_map (heach _ (Document.mem_structs.1 (Document.mem_of_once honce).1))
  have hplain : t.name.plain = n := by
    rw [hn]
    rfl
  rw [hplain] at himpls ⊢
  rw [ignores] at hoffers
  split at hoffers
  · next hin =>
    rw [List.map_eq_nil_iff.1 hoffers.symm]
    refine ⟨fun _ h => h.1 (by simpa using hin), fun _ => ⟨List.nodup_nil, himpls, fun _ h => absurd h List.not_mem_nil⟩⟩
  · next hin =>
    obtain ⟨others, hops, hothers, hfree⟩ := ops_structExports hoffers
    have hstruct : ("delete" :: others).Nodup := (nodup_accessorNames hfields).sublist (hothers.cons_cons _)
    rw [hops]
    constructor
    · rintro ⟨_, _, hne⟩ ⟨_, hdelete⟩
      exact hne "delete" (List.mem_cons_self ..) "delete" ((mem_flatMap_impls heach).2 hdelete) rfl
    · refine fun hdelete => ⟨hstruct, himpls, fun o ho o' ho' heq => ?_⟩
      subst heq
      have hmethod := (mem_flatMap_impls heach).1 ho'
      -- A method with the name of a constructor or an accessor is in the index, and then that is not exported.
      obtain rfl | ho := List.mem_cons.1 ho
      · exact hdelete ⟨by simpa using hin, hmethod⟩
      · exact absurd ((hfree o ho).symm.trans (hasText_of_hasMethod heach hindex hmethod)) (by decide)

end Plan

namespace Settings
variable {s : Settings} {d : Document Value} {given : Option String} {m : Module}

def leftOut (s : Settings) (m : Module) : List String := s.ignored ++ (s.moduleFor m.modulePrefix).ignored

/-- A generated module holds the exports of each declaration in order, and all are selected by one plan. -/
theorem exists_group_of_generate (h : s.generate d given = .ok m) :
    ∃ (p : Plan) (group : Declaration Value → List Export),
    p.ignored = s.leftOut m ∧ MethodIndex.ofDocument d = .ok p.index ∧
    (∀ decl ∈ d.decls, p.exports decl = (group decl).map .ok) ∧
    m.wrappers = (d.decls.flatMap group).map (Export.wrapper (s.converterFor m)) := by
  obtain ⟨p, es, _, hp, he, hm⟩ := generate_eq_ok.1 h
  obtain ⟨index, hindex, hp⟩ := Except.exists_of_bind_eq_ok hp
  cases hp
  obtain ⟨group, heach, rfl⟩ := Except.exists_groups he
  exact ⟨_, group, rfl, hindex, heach, congrArg Module.wrappers hm⟩

/-- Take a struct that is declared once in a document, whose fields have names of their own, and whose methods have
    over all its impls. Then the registrations that the struct owns have names of their own, unless the struct is
    exported and one of its public methods that are not left out is called `delete`, as the destructor is. -/
theorem generate_distinct (h : s.generate d given = .ok m) {t : Struct Value}
    (honce : (d.structs.filter fun u => Spelling.baseName u.name.plain = Spelling.baseName t.name.plain) = [t])
    (hfields : (t.fields.map fun f => f.name.plain).Nodup)
    (hmethods : (d.methodsOf (Spelling.baseName t.name.plain)).Nodup) :
    ((m.registrations.filter fun r => r.owner = some (Spelling.baseName t.name.plain)).map Registration.name).Nodup ↔
      ¬ (t.name.plain ∉ s.leftOut m ∧ d.HasMethod (s.leftOut m) (Spelling.baseName t.name.plain) "delete") := by
  obtain ⟨p, group, hignored, hindex, heach, hwrappers⟩ := exists_group_of_generate h
  rw [Module.registrations, hwrappers, Export.nodup_names_iff, ← hignored]
  exact Plan.nodup_opsOf_iff heach hindex honce hfields hmethods

/-- Here a method stands in for a getter, and no name comes twice. -/
theorem generate_distinct_gauge : ∃ m, generate {} (gaugeDocument.map Value.text) none = .ok m ∧
    ((gaugeDocument.map Value.text).structs.filter fun u => Spelling.baseName u.name.plain = "Gauge") =
      [gaugeStruct.map Value.text] ∧
    ((gaugeStruct.map Value.text).fields.map fun f => f.name.plain).Nodup ∧
    ((gaugeDocument.map Value.text).methodsOf "Gauge").Nodup ∧
    ((m.registrations.filter fun r => r.owner = some "Gauge").map Registration.name).Nodup := by
  have hbase : Spelling.baseName (gaugeStruct.map Value.text).name.plain = "Gauge" := baseName_gauge
  have honce : ((gaugeDocument.map Value.text).structs.filter fun u => Spelling.baseName u.name.plain = "Gauge") =
      [gaugeStruct.map Value.text] := by
    show [gaugeStruct.map Value.text].filter _ = _
    simp [hbase]
  have hfields : ((gaugeStruct.map Value.text).fields.map fun f => f.name.plain).Nodup := List.nodup_singleton _
  have hmethods : ((gaugeDocument.map Value.text).methodsOf "Gauge").Nodup := by
    show (([(⟨.text "Gauge", [levelMethod.map Value.text]⟩ : Impl Value)].filter _).flatMap _).Nodup
    simp [Value.plain, baseName_gauge]
  obtain ⟨m, hm, -⟩ := @exists_generate {} gaugeDocument none "" rfl
  refine ⟨m, hm, honce, hfields, hmethods, ?_⟩
  rw [← hbase] at honce hmethods ⊢
  refine (generate_distinct hm honce hfields hmethods).2 fun hdelete => ?_
  obtain ⟨_, _, _, i, hi, _, f, hf, hname, _⟩ := hdelete
  have hi : Declaration.impl i ∈ [.impl ⟨.text "Gauge", [levelMethod.map Value.text]⟩,
      .struct (gaugeStruct.map Value.text)] := hi
  simp only [List.mem_cons, Declaration.impl.injEq, reduceCtorEq, List.not_mem_nil, or_false] at hi
  subst hi
  rw [List.mem_singleton.1 hf] at hname
  exact absurd (Value.text.inj hname) (by decide)

def counterDocument : Document String where
  decls := [.struct { name := "Counter" }, .impl ⟨"Counter", [{ name := "delete", receiver := .byRef }]⟩]

/-- Here two registrations have one name, though the struct is declared once, and the names of its fields and those of
    its methods are distinct. -/
theorem generate_deletes_clash : ∃ m t, generate {} (counterDocument.map Value.text) none = .ok m ∧
    ((counterDocument.map Value.text).structs.filter fun u =>
      Spelling.baseName u.name.plain = Spelling.baseName t.name.plain) = [t] ∧
    (t.fields.map fun f => f.name.plain).Nodup ∧
    ((counterDocument.map Value.text).methodsOf (Spelling.baseName t.name.plain)).Nodup ∧
    ¬ ((m.registrations.filter fun r => r.owner = some (Spelling.baseName t.name.plain)).map Registration.name).Nodup := by
  let t : Struct Value := { name := .text "Counter" }
  let reset : Function Value := { name := .text "delete", receiver := .byRef }
  have honce : ((counterDocument.map Value.text).structs.filter fun u =>
      Spelling.baseName u.name.plain = Spelling.baseName t.name.plain) = [t] := by
    show [t].filter _ = _
    simp
  have hmethods : ((counterDocument.map Value.text).methodsOf (Spelling.baseName t.name.plain)).Nodup := by
    show (([(⟨.text "Counter", [reset]⟩ : Impl Value)].filter _).flatMap _).Nodup
    simp [t, Value.plain]
  obtain ⟨m, hm, -⟩ := @exists_generate {} counterDocument none "" rfl
  obtain ⟨p, group, hignored, hindex, heach, hwrappers⟩ := exists_group_of_generate hm
  refine ⟨m, t, hm, honce, List.nodup_nil, hmethods, ?_⟩
  rw [Module.registrations, hwrappers, Export.nodup_names_iff,
    Plan.nodup_opsOf_iff heach hindex honce List.nodup_nil hmethods, not_not, hignored]
  exact ⟨List.not_mem_nil, List.not_mem_nil, List.not_mem_nil, ⟨.text "Counter", [reset]⟩, .tail _ (.head _), rfl, reset, .head _, rfl, rfl⟩

end Settings
end RingBridge
