import RingBridge.Proofs.Module.Exports
/-!
What the index of methods holds: every method of every impl, under the base name of the impl. There is an index if all
these names can be told apart, in whatever order the impls come.
-/
namespace RingBridge

namespace Document
variable {d d' : Document Value}

def methodNames (d : Document Value) : List (Value × Value) :=
  d.impls.flatMap fun i => i.methods.map fun f => (i.name, f.name)

theorem mem_methodNames {e : Value × Value} :
    e ∈ d.methodNames ↔ ∃ i ∈ d.impls, ∃ f ∈ i.methods, e = (i.name, f.name) := by
  simp [methodNames, eq_comm]

theorem mem_impls {i : Impl Value} : i ∈ d.impls ↔ .impl i ∈ d.decls := by
  rw [impls, List.mem_filterMap]
  constructor
  · rintro ⟨decl, hd, hi⟩
    cases decl with
    | impl j => exact Option.some.inj hi ▸ hd
    | struct t | func f => cases hi
  · exact fun h => ⟨_, h, rfl⟩

theorem perm_methodNames (h : d.decls.Perm d'.decls) : d.methodNames.Perm d'.methodNames :=
  (h.filterMap _).flatMap_right _

end Document

namespace MethodIndex
variable {m m' : MethodIndex} {d : Document Value}

def pair? : Value × Value → Option (String × Key)
  | (.text n, v) => v.key?.map fun k => (Spelling.baseName n, k)
  | _ => none

theorem pair?_eq_some {e : Value × Value} {x : String × Key} :
    pair? e = some x ↔ ∃ n, e.1 = .text n ∧ Spelling.baseName n = x.1 ∧ e.2.key? = some x.2 := by
  obtain ⟨v, w⟩ := e
  cases v with
  | text n => cases hk : w.key? <;> simp [pair?, hk, Prod.ext_iff]
  | _ => simp [pair?]

theorem mem_add {struct : String} {k : Key} {x : String × Key} :
    x ∈ (m.add struct k).pairs ↔ x ∈ m.pairs ∨ (Spelling.baseName struct, k) = x := by
  simp only [add, List.contains_iff_mem]
  split
  · next h => exact ⟨.inl, fun hx => hx.elim id fun he => he ▸ h⟩
  · rw [List.mem_append, List.mem_singleton, eq_comm (a := x)]

theorem exists_addNamed (m : MethodIndex) {e : Value × Value} :
    (∃ m', m.addNamed e.1 e.2 = .ok m') ↔ ∃ x, pair? e = some x := by
  obtain ⟨v, w⟩ := e
  cases v with
  | text n =>
    cases hk : w.key? <;>
      simp [addNamed, pair?, Document.nameText, Document.nameKey, hk, bind, Except.bind, pure, Except.pure]
  | _ => simp [addNamed, pair?, Document.nameText, bind, Except.bind]

theorem mem_addNamed {e : Value × Value} (h : m.addNamed e.1 e.2 = .ok m') {x : String × Key} :
    x ∈ m'.pairs ↔ x ∈ m.pairs ∨ pair? e = some x := by
  obtain ⟨n, hn, h⟩ := Except.exists_of_bind_eq_ok h
  obtain ⟨k, hk, h⟩ := Except.exists_of_bind_eq_ok h
  cases h
  rw [mem_add, pair?_eq_some, Document.text_of_nameText hn, Document.key_of_nameKey hk]
  simp [Prod.ext_iff]

def addAll (m : MethodIndex) (es : List (Value × Value)) : Except TextError MethodIndex :=
  es.foldlM (fun m e => m.addNamed e.1 e.2) m

theorem exists_addAll {es : List (Value × Value)} (m : MethodIndex) :
    (∃ m', m.addAll es = .ok m') ↔ ∀ e ∈ es, ∃ x, pair? e = some x := by
  induction es generalizing m with
  | nil => exact ⟨fun _ => nofun, fun _ => ⟨m, rfl⟩⟩
  | cons e es ih =>
    rw [List.forall_mem_cons, ← exists_addNamed m]
    constructor
    · rintro ⟨m', h⟩
      obtain ⟨m₁, hfirst, hrest⟩ := Except.exists_of_bind_eq_ok h
      exact ⟨⟨m₁, hfirst⟩, (ih m₁).1 ⟨m', hrest⟩⟩
    · rintro ⟨⟨m₁, hfirst⟩, hrest⟩
      obtain ⟨m', h⟩ := (ih m₁).2 hrest
      refine ⟨m', ?_⟩
      rw [addAll, List.foldlM_cons, hfirst]
      exact h

theorem mem_addAll {es : List (Value × Value)} (h : m.addAll es = .ok m') {x : String × Key} :
    x ∈ m'.pairs ↔ x ∈ m.pairs ∨ ∃ e ∈ es, pair? e = some x := by
  induction es generalizing m with
  | nil =>
    cases h
    simp
  | cons e es ih =>
    obtain ⟨m₁, hfirst, hrest⟩ := Except.exists_of_bind_eq_ok h
    simp only [ih hrest, mem_addNamed hfirst, List.mem_cons, exists_eq_or_imp, or_assoc]

theorem ofDocument_eq (d : Document Value) : ofDocument d = addAll {} d.methodNames := by
  have himpls : ∀ (is : List (Impl Value)) (m : MethodIndex),
      is.foldlM (fun m i => i.methods.foldlM (fun m f => m.addNamed i.name f.name) m) m =
        m.addAll (is.flatMap fun i => i.methods.map fun f => (i.name, f.name)) := by
    intro is m
    induction is generalizing m with
    | nil => rfl
    | cons i is ih =>
      rw [List.flatMap_cons, addAll, List.foldlM_append, List.foldlM_map, List.foldlM_cons]
      exact congrArg _ (funext ih)
  exact himpls d.impls {}

/-- There is an index if every impl with methods has a name that is text, and every method one that can be compared. -/
theorem exists_ofDocument_iff : (∃ m, ofDocument d = .ok m) ↔ ∀ e ∈ d.methodNames, ∃ x, pair? e = some x := by
  rw [ofDocument_eq, exists_addAll]

theorem mem_ofDocument (h : ofDocument d = .ok m) {x : String × Key} :
    x ∈ m.pairs ↔ ∃ e ∈ d.methodNames, pair? e = some x := by
  rw [ofDocument_eq] at h
  rw [mem_addAll h]
  simp

/-- The index has a method if an impl of the struct has it. -/
theorem has_ofDocument (h : ofDocument d = .ok m) {struct : String} {k : Key} :
    m.has struct k = true ↔ ∃ i, .impl i ∈ d.decls ∧ ∃ n, i.name = .text n ∧
      Spelling.baseName n = Spelling.baseName struct ∧ ∃ f ∈ i.methods, f.name.key? = some k := by
  rw [has, List.contains_iff_mem, mem_ofDocument h]
  constructor
  · rintro ⟨e, he, hx⟩
    obtain ⟨i, hi, f, hf, rfl⟩ := Document.mem_methodNames.1 he
    obtain ⟨n, hn, hbase, hk⟩ := pair?_eq_some.1 hx
    exact ⟨i, Document.mem_impls.1 hi, n, hn, hbase, f, hf, hk⟩
  · rintro ⟨i, hi, n, hn, hbase, f, hf, hk⟩
    exact ⟨_, Document.mem_methodNames.2 ⟨i, Document.mem_impls.2 hi, f, hf, rfl⟩, pair?_eq_some.2 ⟨n, hn, hbase, hk⟩⟩

/-- Documents with the same declarations have the same methods in their indexes. -/
theorem exists_ofDocument_perm {d' : Document Value} (hperm : d'.decls.Perm d.decls) (h : ofDocument d = .ok m) :
    ∃ m', ofDocument d' = .ok m' ∧ m'.has = m.has := by
  have hnames := Document.perm_methodNames hperm
  obtain ⟨m', h'⟩ := exists_ofDocument_iff.2 fun e he => exists_ofDocument_iff.1 ⟨m, h⟩ e (hnames.mem_iff.1 he)
  refine ⟨m', h', funext fun struct => funext fun k => ?_⟩
  rw [Bool.eq_iff_iff, has, has, List.contains_iff_mem, List.contains_iff_mem, mem_ofDocument h', mem_ofDocument h]
  simp only [hnames.mem_iff]

end MethodIndex
end RingBridge
