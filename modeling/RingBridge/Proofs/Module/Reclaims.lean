import RingBridge.Proofs.Code.Freed
import RingBridge.Proofs.Handle.Answers
import RingBridge.Proofs.Module.Tags
import RingBridge.Proofs.Module.Total
/-!
Handles can be given back. Where every named type is a struct of the document, the tags of a module are those of the
structs, and for each of them one wrapper reads a handle and frees the struct behind it.
-/
namespace RingBridge
open Code Layout Wrapper

def reclaimRows (wrapper const struct : String) : List Row :=
  [⟨0, "ring_func!(" ++ wrapper ++ ", |p| \x7b"⟩, ⟨1, "ring_check_paracount!(p, 1);"⟩, ⟨1, "ring_check_cpointer!(p, 1);"⟩,
    ⟨1, "let ptr = ring_get_cpointer!(p, 1, " ++ const ++ ");"⟩, ⟨1, "if !ptr.is_null() \x7b"⟩,
    ⟨2, "unsafe \x7b let _ = Box::from_raw(ptr as *mut " ++ struct ++ "); \x7d"⟩,
    ⟨2, "ring_api_setnullpointer(p, 1);"⟩, ⟨1, "\x7d"⟩, ⟨0, "\x7d);"⟩, ⟨0, ""⟩]

/-- A call that passes the checks goes one way, on which it reads the handle in the first argument under the tag. Where
    the pointer is null, nothing else is done; elsewhere what it points to is freed once, as the struct, and the handle
    is cleared. -/
structure Wrapper.Reclaims (w : Wrapper) (const struct : String) : Prop where
  ways : ∃ s, Name.tag s = const ∧ ∀ f : Facts, ∃ p, (∀ q r, w.body.Path q r ∧ f.Agrees .start q ↔ q = p ∧ r = true) ∧
    f.deeds .start p = .read 1 s ::
      if f.blank (.slot (.argument 1)) then [] else [.free (.read (.slot (.argument 1))) struct, .clear]
  text : Writes w.ops (reclaimRows w.registration.wrapper const struct)

/-- A struct is freed somewhere in the wrapper, as whatever and on whichever way. -/
def Wrapper.Frees (w : Wrapper) : Prop := ∃ a ∈ w.body.atoms, a.freed?.isSome

namespace Wrapper.Reclaims
variable {w : Wrapper} {const const' struct struct' : String}

theorem frees (h : w.Reclaims const struct) : w.Frees := by
  obtain ⟨s, -, hways⟩ := h.ways
  -- Where nothing is blank, the struct is freed.
  obtain ⟨p, hp, hdeeds⟩ := hways ⟨fun _ => none, fun _ => false⟩
  have hfree : Deed.free (.read (.slot (.argument 1))) struct ∈ Facts.deeds ⟨fun _ => none, fun _ => false⟩ .start p := by
    rw [hdeeds]
    exact List.mem_cons_of_mem _ (List.mem_cons_self ..)
  obtain ⟨x, hx⟩ := Facts.exists_free hfree
  exact ⟨_, ((hp p true).2 ⟨rfl, rfl⟩).1.free_mem_atoms hx, rfl⟩

/-- A wrapper reclaims under one tag only. -/
theorem const_eq (h : w.Reclaims const struct) (h' : w.Reclaims const' struct') : const = const' := by
  obtain ⟨s, rfl, hways⟩ := h.ways
  obtain ⟨s', rfl, hways'⟩ := h'.ways
  -- Over a null pointer both go the same way, on which only the handle is read.
  obtain ⟨p, hp, hdeeds⟩ := hways ⟨fun _ => none, fun _ => true⟩
  obtain ⟨p', hp', hdeeds'⟩ := hways' ⟨fun _ => none, fun _ => true⟩
  obtain ⟨rfl, -⟩ := (hp' p true).1 ((hp p true).2 ⟨rfl, rfl⟩)
  cases hdeeds.symm.trans hdeeds'
  rfl

end Wrapper.Reclaims

def Limits.freeing (frees : String → Prop) : Limits := { on (fun _ => True) (fun _ => True) with frees }

namespace Export
variable {c : Converter}

def destroyed? : Export → Option String
  | destructor struct => some struct
  | _ => none

theorem destroyed?_eq_some {e : Export} {struct : String} : e.destroyed? = some struct ↔ e = destructor struct := by
  cases e <;> simp [destroyed?]

theorem atoms_destructor (c : Converter) (name struct : String) : ((destructor struct).wrapperAs c name).body.atoms =
    [.stmt (.checkCount 1), .stmt (.check .pointer 1), .stmt (.bind false "ptr" (.handle 1 struct)),
      .expr (.handle 1 struct), .test (.notNull "ptr"), .stmt (.free "ptr" struct), .stmt .clearHandle] := rfl

/-- The wrapper of an export frees nothing but the struct of a destructor. -/
theorem eq_destructor_of_freed (hc : c.IsBare) {name : String} {e : Export} {a : Atom}
    (ha : a ∈ (e.wrapperAs c name).body.atoms) {struct : String} (hfreed : a.freed? = some struct) :
    e = destructor struct := by
  have hwithin : e.Within (.freeing fun s => e = destructor s) :=
    ⟨fun _ he => he, fun _ _ _ _ => trivial, fun _ _ => trivial, fun _ _ _ _ => ⟨trivial, trivial, fun _ _ => trivial⟩⟩
  exact ((body_within hc name hwithin fun _ _ => trivial).atoms a ha).freed struct hfreed

def reclaimSteps (struct : String) (b : Bool) : List Step :=
  [.stmt (.checkCount 1), .stmt (.check .pointer 1), .stmt (.bind false "ptr" (.handle 1 struct)),
    .move (.test (.notNull "ptr") b)] ++ if b then [.stmt (.free "ptr" struct), .stmt .clearHandle] else []

theorem destructor_through (c : Converter) (name struct : String) :
    ((destructor struct).wrapperAs c name).body.Through fun p => ∃ b, p = reclaimSteps struct b := by
  have hreclaim : (Handle.reclaim struct).Through fun p => ∃ b, p = (reclaimSteps struct b).drop 2 :=
    .line_seq rfl (.when (.line_seq rfl (.line rfl ⟨true, rfl⟩)) ⟨false, rfl⟩)
  apply Through.seq
  apply Through.line_seq rfl
  apply Through.line rfl
  apply Through.seq
  apply Through.skip
  apply Through.seq
  apply Through.skip
  apply hreclaim.weaken
  rintro p ⟨b, rfl⟩
  exact ⟨b, rfl⟩

theorem agrees_reclaimSteps {f : Facts} {struct : String} {b : Bool} :
    f.Agrees .start (reclaimSteps struct b) ↔ b = !f.blank (.slot (.argument 1)) := by
  have hrest : f.Agrees (Known.start.set "ptr" (.read (.slot (.argument 1))))
      (if b then [.stmt (.free "ptr" struct), .stmt .clearHandle] else []) :=
    f.agrees_of_untested (by cases b <;> simp)
  have hbind : f.Agrees .start (reclaimSteps struct b) ↔ f.Agrees (Known.start.set "ptr" (.read (.slot (.argument 1))))
      (.move (.test (.notNull "ptr") b) :: if b then [.stmt (.free "ptr" struct), .stmt .clearHandle] else []) := by
    simp [reclaimSteps, Facts.Agrees, Facts.step, Step.binders, Stmt.binders]
  rw [hbind, Facts.agrees_test, and_iff_left hrest]
  simp [Facts.holds, Facts.isBlank, eq_comm]

theorem deeds_reclaimSteps (f : Facts) (struct : String) (b : Bool) : f.deeds .start (reclaimSteps struct b) =
    .read 1 struct :: if b then [.free (.read (.slot (.argument 1))) struct, .clear] else [] := by
  cases b <;> rfl

theorem writes_destructor (c : Converter) (name struct : String) :
    Writes ((destructor struct).wrapperAs c name).ops (reclaimRows (Name.wrapper name) (Name.tag struct) struct) := by
  have hcount : "ring_check_paracount!(p, 1);" = (Stmt.checkCount 1).code := rfl
  have hcheck : "ring_check_cpointer!(p, 1);" = (Stmt.check .pointer 1).code := rfl
  have hread : "let ptr = ring_get_cpointer!(p, 1, " ++ Name.tag struct ++ ");" =
      (Stmt.bind false "ptr" (.handle 1 struct)).code := by
    rw [Handle.Request.code_bind_handle]
    rfl
  have hfree : "unsafe \x7b let _ = Box::from_raw(ptr as *mut " ++ struct ++ "); \x7d" = (Stmt.free "ptr" struct).code := rfl
  have htest : "if !ptr.is_null() \x7b" = "if " ++ (Test.notNull "ptr").code ++ " \x7b" := rfl
  rw [reclaimRows, hcount, hcheck, hread, hfree, htest]
  have hblock := ((writes_line (Stmt.free "ptr" struct).code).append
    (writes_line Stmt.clearHandle.code)).inside.block ("if " ++ (Test.notNull "ptr").code ++ " \x7b") "\x7d"
  have hbody := ((writes_line (Stmt.checkCount 1).code).append
    (writes_line (Stmt.check .pointer 1).code)).append
    ((writes_line (Stmt.bind false "ptr" (.handle 1 struct)).code).append hblock)
  exact (hbody.inside.block ("ring_func!(" ++ Name.wrapper name ++ ", |p| \x7b") "\x7d);").append (writes_line "")

theorem destructor_reclaims (c : Converter) (name struct : String) :
    ((destructor struct).wrapperAs c name).Reclaims (Name.tag struct) struct := by
  refine ⟨⟨struct, rfl, fun f => ⟨reclaimSteps struct (!f.blank (.slot (.argument 1))), ?_, ?_⟩⟩,
    writes_destructor c name struct⟩
  · have hthrough := destructor_through c name struct
    have hways : ∀ q r, ((destructor struct).wrapperAs c name).body.Path q r ∧ f.Agrees .start q →
        q = reclaimSteps struct (!f.blank (.slot (.argument 1))) ∧ r = true := by
      rintro q r ⟨hq, hagrees⟩
      obtain ⟨rfl, b, rfl⟩ := hthrough q r hq
      rw [agrees_reclaimSteps.1 hagrees]
      exact ⟨rfl, rfl⟩
    intro q r
    refine ⟨hways q r, ?_⟩
    rintro ⟨rfl, rfl⟩
    -- Some way agrees with the facts, and there is no other than this one.
    obtain ⟨q, r, hq, hagrees⟩ := exists_agreeing f .start ((destructor struct).wrapperAs c name).body
    obtain ⟨rfl, rfl⟩ := hways q r ⟨hq, hagrees⟩
    exact ⟨hq, hagrees⟩
  · rw [deeds_reclaimSteps]
    cases f.blank (.slot (.argument 1)) <;> rfl

theorem frees_iff (hc : c.IsBare) (name : String) (e : Export) :
    (e.wrapperAs c name).Frees ↔ ∃ struct, e = destructor struct := by
  constructor
  · rintro ⟨a, ha, hfreed⟩
    obtain ⟨struct, hstruct⟩ := Option.isSome_iff_exists.1 hfreed
    exact ⟨struct, eq_destructor_of_freed hc ha hstruct⟩
  · rintro ⟨struct, rfl⟩
    exact (destructor_reclaims c name struct).frees

end Export

def Declaration.structNames : Declaration Value → List String
  | struct t => [Spelling.baseName t.name.plain]
  | impl _ | func _ => []

namespace Document
variable {d : Document Value}

/-- Every named type in a declaration is a struct of the document. -/
def IsClosed (d : Document Value) : Prop :=
  ∀ decl ∈ d.decls, ∀ x ∈ decl.opaques, ∃ t ∈ d.structs, Spelling.baseName t.name.plain = Spelling.baseName x

/-- No two structs have one name in upper case. -/
def HasDistinctStructs (d : Document Value) : Prop :=
  (d.structs.map fun t => Text.onText Text.upper (Spelling.baseName t.name.plain)).Nodup

theorem structNames_decls (d : Document Value) :
    d.decls.flatMap Declaration.structNames = d.structs.map fun t => Spelling.baseName t.name.plain := by
  unfold structs
  induction d.decls with
  | nil => rfl
  | cons decl decls ih => cases decl <;> simp [Declaration.structNames, ih]

end Document

namespace Plan
variable {p : Plan}

/-- Where no name is left out, a declaration has a destructor for the struct that it declares, and no other. -/
theorem filterMap_destroyed (hp : p.ignored = []) {decl : Declaration Value} {es : List Export}
    (h : p.exports decl = es.map .ok) : es.filterMap Export.destroyed? = decl.structNames := by
  have hoffers : ∀ e ∈ es, decl.Offers e := fun e he => offers_of_mem (h ▸ List.mem_map_of_mem he)
  cases decl with
  | struct t =>
    obtain ⟨n, hn, h⟩ := named_eq_map h
    have hignores : p.ignores n = false := by
      rw [ignores, hp]
      rfl
    obtain ⟨rest, hrest, hcases⟩ := p.exists_structExports (Spelling.baseName n) t
    rw [hignores, if_neg Bool.false_ne_true, hrest] at h
    obtain ⟨e, es, rfl, he, hes⟩ := List.map_eq_cons_iff.1 h.symm
    cases he
    have hothers : es.filterMap Export.destroyed? = [] := by
      apply List.filterMap_eq_nil_iff.2
      intro e he
      obtain rfl | ⟨_, _, _, _, rfl | rfl⟩ := hcases e (hes ▸ List.mem_map_of_mem he) <;> rfl
    have hfirst : (Export.destructor (Spelling.baseName n) :: es).filterMap Export.destroyed? =
      Spelling.baseName n :: es.filterMap Export.destroyed? := rfl
    rw [hfirst, hothers, Declaration.structNames, hn]
    rfl
  | impl i | func f =>
    apply List.filterMap_eq_nil_iff.2
    intro e he
    cases hoffers e he
    rfl

theorem filterMap_destroyed_flatten (hp : p.ignored = []) {decls : List (Declaration Value)} {parts : List (List Export)}
    (h : decls.map p.exports = parts.map (List.map .ok)) :
    parts.flatten.filterMap Export.destroyed? = decls.flatMap Declaration.structNames := by
  induction decls generalizing parts with
  | nil =>
    rw [List.map_eq_nil_iff.1 h.symm]
    rfl
  | cons decl decls ih =>
    obtain ⟨part, parts, rfl, hpart, hparts⟩ := List.map_eq_cons_iff.1 h.symm
    rw [List.flatten_cons, List.filterMap_append, filterMap_destroyed hp hpart.symm, ih hparts.symm, List.flatMap_cons]

end Plan

theorem Declaration.Offers.owner {decl : Declaration Value} {e : Export} (h : decl.Offers e) {struct : String}
    (hs : e.owner? = some struct) : struct ∈ decl.structNames ∨ struct ∈ decl.opaques := by
  cases h with
  | destructor hn | constructor hn | getter hn | setter hn =>
    cases hs
    exact .inl (by rw [structNames, hn]; exact List.mem_singleton_self _)
  | method hn =>
    cases hs
    exact .inr (by rw [opaques, hn]; exact List.mem_cons_self ..)
  | function => cases hs

namespace Settings
variable {s : Settings} {d : Document Value} {given : Option String} {m : Module}

theorem mem_structNames {b : String} : b ∈ d.decls.flatMap Declaration.structNames ↔
    ∃ t ∈ d.structs, Spelling.baseName t.name.plain = b := by
  rw [Document.structNames_decls, List.mem_map]

/-- In a closed document, every tag is that of a struct. -/
theorem exists_struct_of_mem_keys (h : s.generate d given = .ok m)
    (hbare : (s.moduleFor m.modulePrefix).handlers.entries = []) (hclosed : d.IsClosed) {const : String}
    (hconst : const ∈ m.tags.keys) : ∃ t ∈ d.structs, Name.tag t.name.plain = const := by
  obtain ⟨w, hw, a, ha, struct, hs, rfl⟩ := (mem_keys_of_generate h hbare const).1 hconst
  obtain ⟨decl, hd, e, he, rfl⟩ := offers_of_generate h hw
  let L : Limits := .on (fun _ => True) fun x => ∃ t ∈ d.structs, Spelling.baseName t.name.plain = Spelling.baseName x
  -- What the wrapper passes on is the struct of the declaration or one of its named types.
  have hwithin : e.Within L := by
    refine ⟨fun _ _ => trivial, fun x _ => Limits.allows_on x, fun x hx => ?_, fun r hr x hx =>
      ⟨hclosed decl hd x (he.mem_opaques hr hx), trivial, Limits.allows_on x⟩⟩
    obtain hx | hx := he.owner hx
    · obtain ⟨t, ht, rfl⟩ := mem_structNames.1 (List.mem_flatMap.2 ⟨decl, hd, hx⟩)
      exact ⟨t, ht, (Spelling.baseName_baseName _).symm⟩
    · exact hclosed decl hd x hx
  obtain ⟨t, ht, hbase⟩ :=
    ((Export.body_within (Converter.isBare_converter hbare _) _ hwithin fun _ _ => trivial).atoms a ha).tagged struct hs
  exact ⟨t, ht, by rw [Name.tag, hbase, ← Name.tag]⟩

/-- Where no name is left out, a struct has a destructor, and no other destructor is for its tag. -/
theorem exists_destructor (h : s.generate d given = .ok m)
    (hignored : s.ignored = [] ∧ (s.moduleFor m.modulePrefix).ignored = []) (hdistinct : d.HasDistinctStructs)
    {t : Struct Value} (ht : t ∈ d.structs) : ∃ front back : List Export,
      m.wrappers = (front ++ .destructor (Spelling.baseName t.name.plain) :: back).map (Export.wrapper (s.converterFor m)) ∧
      ∀ struct, .destructor struct ∈ front ++ back → Name.tag struct ≠ Name.tag t.name.plain := by
  obtain ⟨p, parts, hp, hparts, hwrappers⟩ := parts_of_generate h
  have hplan : p.ignored = [] := by
    obtain ⟨index, _, hp⟩ := Except.exists_of_bind_eq_ok hp
    cases hp
    rw [hignored.1, hignored.2, List.append_nil]
  have hnames := Plan.filterMap_destroyed_flatten hplan hparts
  have hmem : Spelling.baseName t.name.plain ∈ parts.flatten.filterMap Export.destroyed? :=
    hnames ▸ mem_structNames.2 ⟨t, ht, rfl⟩
  obtain ⟨e, he, hbase⟩ := List.mem_filterMap.1 hmem
  obtain rfl := Export.destroyed?_eq_some.1 hbase
  obtain ⟨front, back, hsplit⟩ := List.append_of_mem he
  refine ⟨front, back, hsplit ▸ hwrappers, fun struct hstruct htag => ?_⟩
  -- Another destructor for this tag is for another struct, whose name then is the same in upper case.
  have hdestroyed : parts.flatten.filterMap Export.destroyed? = front.filterMap Export.destroyed? ++
      Spelling.baseName t.name.plain :: back.filterMap Export.destroyed? := by
    rw [hsplit, List.filterMap_append]
    rfl
  have hother : struct ∈ (front ++ back).filterMap Export.destroyed? := List.mem_filterMap.2 ⟨_, hstruct, rfl⟩
  obtain ⟨t', _, rfl⟩ : ∃ t' ∈ d.structs, Spelling.baseName t'.name.plain = struct := by
    rw [← mem_structNames, ← hnames, hdestroyed]
    rw [List.filterMap_append] at hother
    exact List.mem_append.2 ((List.mem_append.1 hother).imp_right (List.mem_cons_of_mem _))
  have hdistinct : ((front.filterMap Export.destroyed? ++
      Spelling.baseName t.name.plain :: back.filterMap Export.destroyed?).map (Text.onText Text.upper)).Nodup := by
    rw [← hdestroyed, hnames, Document.structNames_decls, List.map_map]
    exact hdistinct
  rw [List.map_append, List.map_cons, List.perm_middle.nodup_iff, List.nodup_cons, ← List.map_append,
    ← List.filterMap_append] at hdistinct
  rw [Name.tag_eq_tag_iff, Spelling.baseName_baseName] at htag
  exact hdistinct.1 (List.mem_map.2 ⟨_, hother, htag⟩)

/-- Take a document whose named types are all structs of it, with names that differ in upper case, in a module without
    handlers where no name is left out. If all its names and types are text, it is generated. The tags are then those
    of the structs, and for each of them one wrapper, under the name of the destructor, reads a handle and frees the
    struct. Another wrapper that frees anything does so under another tag, and frees what it read under that. -/
theorem generate_reclaims {joined : String} (hjoined : d.joinedPrefix given = .ok joined)
    (hbare : (s.moduleFor joined).handlers.entries = [])
    (hignored : s.ignored = [] ∧ (s.moduleFor joined).ignored = [])
    (hclosed : d.IsClosed) (hdistinct : d.HasDistinctStructs) :
    (∀ e : Document String, d = e.map .text → ∃ m, s.generate d given = .ok m) ∧
      ∀ m, s.generate d given = .ok m →
        (∀ const, const ∈ m.tags.keys ↔ ∃ t ∈ d.structs, Name.tag t.name.plain = const) ∧
          ∀ t ∈ d.structs, ∃ front w back, m.wrappers = front ++ w :: back ∧
            w.registration.name = Export.structName joined (Spelling.baseName t.name.plain) "delete" ∧
            w.Reclaims (Name.tag t.name.plain) (Spelling.baseName t.name.plain) ∧
            ∀ w' ∈ front ++ back, (w'.Frees → ∃ struct, Name.tag struct ≠ Name.tag t.name.plain ∧
                w'.Reclaims (Name.tag struct) struct) ∧
              ∀ struct, ¬ w'.Reclaims (Name.tag t.name.plain) struct := by
  constructor
  · rintro e rfl
    obtain ⟨m, hm, _⟩ := s.exists_generate e hjoined
    exact ⟨m, hm⟩
  · intro m h
    obtain rfl : m.modulePrefix = joined := by
      obtain ⟨joined', hjoined', h⟩ := Except.exists_of_bind_eq_ok h
      obtain ⟨es, _, h⟩ := Except.exists_of_bind_eq_ok h
      cases h
      exact Except.ok.inj (hjoined'.symm.trans hjoined)
    have hc : (s.converterFor m).IsBare := Converter.isBare_converter hbare _
    refine ⟨fun const => ⟨exists_struct_of_mem_keys h hbare hclosed, ?_⟩, fun t ht => ?_⟩
    · rintro ⟨t, ht, rfl⟩
      obtain ⟨front, back, hwrappers, _⟩ := exists_destructor h hignored hdistinct ht
      refine (mem_keys_of_generate h hbare _).2 ⟨_, hwrappers ▸ List.mem_map_of_mem
        (List.mem_append_right front (List.mem_cons_self ..)), .expr (.handle 1 (Spelling.baseName t.name.plain)), ?_, _,
        rfl, Name.tag_baseName _⟩
      rw [Export.wrapper, Export.atoms_destructor]
      simp
    · obtain ⟨front, back, hwrappers, hothers⟩ := exists_destructor h hignored hdistinct ht
      rw [List.map_append, List.map_cons] at hwrappers
      have hreclaims := Export.destructor_reclaims (s.converterFor m)
      refine ⟨_, _, _, hwrappers, ?_, Name.tag_baseName t.name.plain ▸ hreclaims _ _, fun w' hw' => ?_⟩
      · rw [Export.wrapper, (Export.registration_name ..).1, modulePrefix_converterFor hbare]
        rfl
      · rw [← List.map_append] at hw'
        obtain ⟨e, he, rfl⟩ := List.mem_map.1 hw'
        rw [Export.wrapper, Export.frees_iff hc]
        constructor
        · rintro ⟨struct, rfl⟩
          exact ⟨struct, hothers struct he, hreclaims _ struct⟩
        · intro struct hr
          obtain ⟨struct', rfl⟩ := (Export.frees_iff hc _ _).1 hr.frees
          exact hothers struct' he ((hreclaims _ struct').const_eq hr)

def shelfDocument : Document Value where
  decls := [.impl { name := .text "Item", methods := [{ name := .text "new" }] },
    .struct { name := .text "Shelf", fields := [⟨.text "items", .text "Vec<Item>", .boolean true⟩] },
    .struct { name := .text "Item", isPublic := .boolean false }]

/-- Here the private struct is handed out by its impl and in a list, and can be freed. -/
theorem generate_reclaims_items : ∃ m, generate {} shelfDocument none = .ok m ∧
    (∀ const, const ∈ m.tags.keys ↔ const = "SHELF_TYPE" ∨ const = "ITEM_TYPE") ∧
    ∃ front w back, m.wrappers = front ++ w :: back ∧ w.registration.name = "item_delete" ∧
      w.Reclaims "ITEM_TYPE" "Item" ∧
      ∀ w' ∈ front ++ back, (w'.Frees → ∃ struct, Name.tag struct ≠ "ITEM_TYPE" ∧ w'.Reclaims (Name.tag struct) struct) ∧
        ∀ struct, ¬ w'.Reclaims "ITEM_TYPE" struct := by
  have hitem : Spelling.baseName "Item" = "Item" := (Spelling.baseName_plain (by decide)).trans (by decide)
  have hshelf : Spelling.baseName "Shelf" = "Shelf" := (Spelling.baseName_plain (by decide)).trans (by decide)
  have hitemTag : Name.tag "Item" = "ITEM_TYPE" := tag_plain (by decide) (by decide)
  have hshelfTag : Name.tag "Shelf" = "SHELF_TYPE" := tag_plain (by decide) (by decide)
  have hitems : Shape.ofSpelling "Vec<Item>" = .vector (.named "Item" "Item") "Vec<Item>" :=
    TypeExpr.ofSpelling_spelling (.wrapped [] .vec (.named [] ⟨⟨'I', ['t', 'e', 'm'], by decide, by decide⟩,
      by decide, by decide⟩ [] []))
  have hclosed : shelfDocument.IsClosed := by
    have huses : ∀ decl ∈ shelfDocument.decls, ∀ x ∈ decl.opaques, x = "Item" := by
      simp [shelfDocument, Declaration.opaques, Declaration.namedTypes, Function.types, Value.plain, hitem, hitems,
        Shape.names]
    intro decl hd x hx
    rw [huses decl hd x hx]
    exact ⟨_, .tail _ (.head _), rfl⟩
  have hdistinct : shelfDocument.HasDistinctStructs := by
    have hbases : shelfDocument.structs.map (fun t => Spelling.baseName t.name.plain) = ["Shelf", "Item"] := by
      rw [← hshelf, ← hitem]
      rfl
    have hnodup : (["Shelf", "Item"].map (Text.onText Text.upper)).Nodup := by decide
    rw [← hbases, List.map_map] at hnodup
    exact hnodup
  obtain ⟨hgenerated, hreclaims⟩ := @generate_reclaims {} shelfDocument none "" rfl rfl ⟨rfl, rfl⟩ hclosed hdistinct
  obtain ⟨m, hm⟩ := hgenerated {
    decls := [.impl { name := "Item", methods := [{ name := "new" }] },
      .struct { name := "Shelf", fields := [⟨"items", "Vec<Item>", .boolean true⟩] },
      .struct { name := "Item", isPublic := .boolean false }] } rfl
  obtain ⟨htags, hdestructors⟩ := hreclaims m hm
  have hdestructor := hdestructors { name := .text "Item", isPublic := .boolean false } (.tail _ (.head _))
  simp only [Value.plain, hitem, hitemTag, Export.structName] at hdestructor
  refine ⟨m, hm, fun const => ?_, hdestructor⟩
  rw [htags]
  simp [shelfDocument, Document.structs, Value.plain, hshelfTag, hitemTag, eq_comm]

end Settings
end RingBridge
