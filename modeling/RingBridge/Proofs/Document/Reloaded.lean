import RingBridge.Command.Run
import RingBridge.Proofs.Document.Written
import RingBridge.Proofs.Source.Complete
import RingBridge.Proofs.Source.Named
/-!
Documents from source, written as data and read again. All of them are read back as they were, and give the same modules,
but for those in which a name or a type is missing.
-/
namespace RingBridge

def Function.HasName (f : Function Value) : Prop := f.name.isTrue = true ∧ f.result ≠ some .null

def Declaration.HasNames : Declaration Value → Prop
  | struct t => t.name.isTrue = true
  | impl i => i.name.isTrue = true ∧ ∀ f ∈ i.methods, f.HasName
  | func f => f.HasName

namespace Document
variable {α β : Type}

/-- Read as it was written, or stopped at an entry without a name or a type. -/
def ReadsBack (x : Except DocumentError α) (a : α) : Prop :=
  x = .ok a ∨ ∃ what key, x = .error (.entryWithout what key)

namespace ReadsBack

theorem ok (a : α) : ReadsBack (.ok a) a := .inl rfl

theorem bind {x : Except DocumentError α} {f : α → Except DocumentError β} {a : α} {b : β} (hx : ReadsBack x a)
    (hf : ReadsBack (f a) b) : ReadsBack (x >>= f) b := by
  obtain rfl | ⟨what, key, rfl⟩ := hx
  · exact hf
  · exact .inr ⟨what, key, rfl⟩

/-- A loop is stopped at the first entry that stops it. -/
theorem mapM {write : α → Value} {read : Value → Except DocumentError β} {g : α → β} {xs : List α}
    (h : ∀ x ∈ xs, ReadsBack (read (write x)) (g x)) : ReadsBack ((xs.map write).mapM read) (xs.map g) := by
  induction xs with
  | nil => exact .ok []
  | cons x xs ih =>
    obtain ⟨hx, hxs⟩ := List.forall_mem_cons.1 h
    rw [List.map_cons, List.mapM_cons]
    exact hx.bind ((ih hxs).bind (.ok _))

theorem mapM_self {write : α → Value} {read : Value → Except DocumentError α} {xs : List α}
    (h : ∀ x ∈ xs, ReadsBack (read (write x)) x) : ReadsBack ((xs.map write).mapM read) xs := by
  have hmap : ReadsBack ((xs.map write).mapM read) (xs.map id) := .mapM h
  rwa [List.map_id] at hmap

end ReadsBack

theorem readsBack_entryOf (what : Entry) {fs : Fields} {name type : Value} (hn : fieldOr fs "name" .null = name)
    (ht : fieldOr fs "type" .null = type) : ReadsBack (entryOf what (.record fs)) (⟨name, type⟩, fs) := by
  simp only [entryOf, hn, ht]
  split
  · exact .inr ⟨_, _, rfl⟩
  · split
    · exact .inr ⟨_, _, rfl⟩
    · exact .ok _

theorem readsBack_fieldOf (struct : String) (f : Field Value) : ReadsBack (fieldOf struct f.toValue) f :=
  (readsBack_entryOf _ rfl rfl).bind (.ok f)

theorem readsBack_paramOf (function : String) (p : Param Value) : ReadsBack (paramOf function p.toValue) p :=
  (readsBack_entryOf _ rfl rfl).bind (.ok p)

theorem readsBack_functionOf {f : Function Value} (h : f.HasName) {fs : Fields}
    (hfs : ∀ key default, key ∈ ["name", "params", "result", "receiver", "public", "comment"] →
      fieldOr fs key default = fieldOr f.entries key default) : ReadsBack (functionOf fs) f := by
  rw [functionOf_eq h.1 h.2 hfs]
  exact (ReadsBack.mapM_self fun p _ => readsBack_paramOf _ p).bind (.ok f)

theorem readsBack_declarationOf {decl : Declaration Value} (h : decl.HasNames) :
    ReadsBack (declarationOf decl.toValue) (some decl) := by
  cases decl with
  | struct t =>
    rw [declarationOf_struct h]
    exact (ReadsBack.mapM_self fun f _ => readsBack_fieldOf _ f).bind (.ok _)
  | impl i =>
    have hmethods : ∀ f ∈ i.methods, ReadsBack (methodOf (.record f.entries)) f :=
      fun f hf => readsBack_functionOf (h.2 f hf) fun _ _ _ => rfl
    rw [declarationOf_impl h.1]
    exact (ReadsBack.mapM_self hmethods).bind (.ok _)
  | func f =>
    rw [declarationOf_func]
    exact (readsBack_functionOf h (fieldOr_func f)).bind (.ok _)

/-- Only a missing name or type of an entry keeps a document from being read back. -/
theorem readsBack_ofValue {d : Document Value} (h : ∀ decl ∈ d.decls, decl.HasNames) :
    ReadsBack (ofValue d.toValue) { d with comment := .text "" } := by
  have hdecls : ReadsBack ((d.decls.map Declaration.toValue).mapM declarationOf) (d.decls.map some) :=
    .mapM fun decl hdecl => readsBack_declarationOf (h decl hdecl)
  rw [ofValue_eq]
  refine hdecls.bind ?_
  rw [filterMap_id_map_some]
  exact .ok _

end Document

theorem Value.isTrue_text {s : String} : (Value.text s).isTrue = true ↔ s ≠ "" := by
  simp [Value.isTrue]

namespace Source

theorem IsIdentifier.ne_empty {x : String} (h : IsIdentifier x) : x ≠ "" := by
  rintro rfl
  obtain ⟨i, hi | hi⟩ := h <;> cases hi

theorem hasName_map {f : Function String} (h : IsIdentifier f.name) : (f.map Value.text).HasName := by
  refine ⟨Value.isTrue_text.2 h.ne_empty, fun hnull => ?_⟩
  obtain ⟨r, -, hr⟩ := Option.map_eq_some_iff.1 hnull
  cases hr

/-- Declarations from source have their names. -/
theorem hasNames_of_readSource {text moduleName : String} {d : Document String}
    (h : (readSource text moduleName).document = .ok d) : ∀ decl ∈ d.decls, (decl.map Value.text).HasNames := by
  have hitems : Read.ItemsYield AreSpelled (fun f => IsIdentifier f.name) fun decl => (decl.map Value.text).HasNames := {
    inside := Read.gives_skipGroup
    function := Read.gives_function
    struct := fun isPublic docs s t u hs e => Value.isTrue_text.2 (Read.gives_struct isPublic docs s t u hs e).1.ne_empty
    func := fun f hf => hasName_map hf
    impl := fun i hname hms => by
      refine ⟨Value.isTrue_text.2 hname, fun f hf => ?_⟩
      obtain ⟨g, hg, rfl⟩ := List.mem_map.1 hf
      exact hasName_map (hms g hg) }
  exact hitems.readSource (fun _ => areSpelled_of_cellsOf) h

theorem isComplete_function {f : Function String} (hname : IsIdentifier f.name) (ht : f.IsTyped) :
    (f.map Value.text).IsComplete := by
  obtain ⟨hname, hnull⟩ := hasName_map hname
  refine ⟨hname, fun p hp => ?_, hnull⟩
  obtain ⟨q, hq, rfl⟩ := List.mem_map.1 hp
  exact ⟨Value.isTrue_text.2 (ht q hq).1, Value.isTrue_text.2 (ht q hq).2⟩

theorem isComplete_declaration {decl : Declaration String} (hn : IsNamed decl) (ht : decl.IsTyped) :
    (decl.map Value.text).IsComplete := by
  cases decl with
  | struct t =>
    refine ⟨Value.isTrue_text.2 hn.1.ne_empty, fun f hf => ?_⟩
    obtain ⟨g, hg, rfl⟩ := List.mem_map.1 hf
    exact ⟨Value.isTrue_text.2 (hn.2 g hg).ne_empty, Value.isTrue_text.2 (ht g hg)⟩
  | impl i =>
    refine ⟨Value.isTrue_text.2 ht.1, fun f hf => ?_⟩
    obtain ⟨g, hg, rfl⟩ := List.mem_map.1 hf
    exact isComplete_function (hn g hg) (ht.2 g hg)
  | func f => exact isComplete_function hn ht

theorem decls_prefixed (o : Command.Options) (d : Document Value) : (o.prefixed d).decls = d.decls := by
  unfold Command.Options.prefixed
  split <;> rfl

theorem comment_prefixed (o : Command.Options) (d : Document Value) : (o.prefixed d).comment = d.comment := by
  unfold Command.Options.prefixed
  split <;> rfl

/-- A given prefix does the same as one that has been written into the document. -/
theorem generate_prefixed (s : Settings) (o : Command.Options) (d : Document Value) :
    s.generate (o.prefixed d) none = s.generate d o.modulePrefix := by
  unfold Command.Options.prefixed
  split
  · next p hp =>
    rw [hp]
    rfl
  · next hp =>
    rw [hp]

/-- Source text carries no comment of its own. -/
theorem comment_of_readSource {text moduleName : String} {d : Document String}
    (h : (readSource text moduleName).document = .ok d) : d.comment = .text "" := by
  unfold readSource at h
  split at h
  · cases h
  · unfold readCells at h
    split at h
    · cases h
    · split at h
      · cases h
        rfl
      · cases h

/-- A document from source, written under any prefix, is read back as it was written, and gives the same module as the
    source does under that prefix. Only an entry without a name or a type keeps it from being read back, and then a name
    or a type is missing at a colon of the source text too. -/
theorem readSource_reloads {text moduleName : String} {d : Document String}
    (h : (readSource text moduleName).document = .ok d) (o : Command.Options) :
    let source := d.map Value.text
    let written := o.prefixed source
    Document.ofValue written.toValue = .ok written ∧
        (∀ s : Settings, s.generate written none = s.generate source o.modulePrefix) ∨
      (∃ what key, Document.ofValue written.toValue = .error (.entryWithout what key)) ∧
        ∃ ts, tokenize text = .ok ts ∧ Lacks (ts.map Token.word) := by
  intro source written
  have hsame : { written with comment := .text "" } = written := by
    have hcomment : written.comment = .text "" := (comment_prefixed o source).trans (comment_of_readSource h)
    rw [← hcomment]
  have hdecls : written.decls = d.decls.map (Declaration.map Value.text) := decls_prefixed o source
  have hgenerate := fun s : Settings => generate_prefixed s o source
  have hnames : ∀ decl ∈ written.decls, decl.HasNames := by
    rw [hdecls]
    exact List.forall_mem_map.2 (hasNames_of_readSource h)
  obtain hok | herror := Document.readsBack_ofValue hnames
  · exact .inl ⟨hok.trans (congrArg _ hsame), hgenerate⟩
  · obtain ⟨ts, hts, hlacks | htyped⟩ := isTyped_of_readSource h
    · exact .inr ⟨herror, ts, hts, hlacks⟩
    · have hcomplete : written.IsComplete := by
        rw [Document.IsComplete, hdecls]
        exact List.forall_mem_map.2 fun decl hd => isComplete_declaration (isNamed_of_readSource h decl hd) (htyped decl hd)
      have hok := Document.ofValue_of_isComplete hcomplete
      exact .inl ⟨hok.trans (congrArg _ hsame), hgenerate⟩

/-- A method and a function, read back under another prefix. -/
theorem readSource_reloads_counter : ∃ d : Document String,
    (readSource "impl C \x7b pub fn get(&self, i: u8) -> i32; \x7d").document = .ok d ∧
    Document.ofValue (Command.Options.prefixed ⟨"c.rs", none, some "m", [], none, none⟩ (d.map Value.text)).toValue =
      .ok { d.map Value.text with modulePrefix := .text "m" } ∧
    ∀ s : Settings, s.generate { d.map Value.text with modulePrefix := .text "m" } none =
      s.generate (d.map Value.text) (some "m") := by
  have hread : (readSource "impl C \x7b pub fn get(&self, i: u8) -> i32; \x7d").document =
      .ok ⟨.text "", .text "", [.impl ⟨"C", [⟨"get", [⟨"i", "u8"⟩], some "i32", .boolean true, .byRef, .text ""⟩]⟩],
        .text ""⟩ := by
    with_unfolding_all rfl
  refine ⟨_, hread, (readSource_reloads hread ⟨"c.rs", none, some "m", [], none, none⟩).resolve_right ?_⟩
  rintro ⟨⟨what, key, herror⟩, -⟩
  cases herror

/-- A parameter without a type is read from source, and not from data. -/
theorem readSource_reloads_not : ∃ d : Document String, (readSource "fn f(a:) \x7b \x7d").document = .ok d ∧
    Document.ofValue (d.map Value.text).toValue = .error (.entryWithout (.param "f") "type") := by
  have hread : (readSource "fn f(a:) \x7b \x7d").document =
      .ok ⟨.text "", .text "", [.func ⟨"f", [⟨"a", ""⟩], none, .boolean false, .absent, .text ""⟩], .text ""⟩ := by
    with_unfolding_all rfl
  exact ⟨_, hread, rfl⟩

end Source
end RingBridge
