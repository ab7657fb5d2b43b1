import RingBridge.Proofs.Binding.Limits
import RingBridge.Proofs.Binding.Readers
import RingBridge.Proofs.Code.Reads
import RingBridge.Proofs.Wrapper.Paths
/-!
Reads of parameters: what is read from an argument or a list item has been checked or tested to be of the kind it is
read as, however shapes nest. A binding uses no argument but its own.
-/
namespace RingBridge
open Code

/-- Every read in code stands where its kind is known. -/
def Code.Tested (c : Code) (known : List KindAt) : Prop := ∀ r ∈ c.reads known, r.IsTested

namespace Code.Tested
variable {a b c : Code} {known : List KindAt}

theorem seq (ha : a.Tested known) (hb : b.Tested (a.after known)) : (Code.seq a b).Tested known :=
  List.forall_mem_append.2 ⟨ha, hb⟩

/-- Code that reads nothing. -/
theorem of_nil (h : c.reads known = []) : c.Tested known := by
  intro r hr
  rw [h] at hr
  cases hr

theorem line {s : Stmt} {k : KindAt} (hs : s.reads known = [⟨k, known⟩]) (hk : k ∈ known) : (Code.line s).Tested known := by
  intro r hr
  have hr : r ∈ s.reads known := hr
  rw [hs] at hr
  obtain rfl := List.mem_singleton.1 hr
  exact hk

theorem letIf {x : String} {t : Test} (ha : a.Tested (t.found ++ known)) (hb : b.Tested known) :
    (Code.letIf x t a b).Tested known := List.forall_mem_append.2 ⟨ha, hb⟩

theorem letChain {x : String} {t₁ t₂ : Test} {a₁ a₂ : Code} (h₁ : a₁.Tested (t₁.found ++ known))
    (h₂ : a₂.Tested (t₂.found ++ known)) (hb : b.Tested known) : (Code.letChain x t₁ a₁ t₂ a₂ b).Tested known :=
  List.forall_mem_append.2 ⟨h₁, List.forall_mem_append.2 ⟨h₂, hb⟩⟩

end Code.Tested

@[simp] theorem Expr.reads_boxes (e : Expr) (k : Nat) (known : List KindAt) : (e.boxes k).reads known = e.reads known := by
  induction k with
  | zero => rfl
  | succ k ih => exact ih

@[simp] theorem Pointee.reads_value (p : Pointee) (ptr : String) (known : List KindAt) : (p.value ptr).reads known = [] := by
  cases h : p.borrowed <;> simp [Pointee.value, h, Expr.reads, Expr.read?]

@[simp] theorem Shape.reads_scalar (s : Shape) (slot : Slot) (known : List KindAt) :
    (s.scalar slot).reads known = [⟨⟨s.scalarKind, slot⟩, known⟩] := by
  cases s <;> rfl

namespace Binding
variable {known : List KindAt}

def ItemReader.Tests (item : ItemReader) : Prop := ∀ target list i n known, (item target list i n).1.Tested known

theorem listPointer_tested {ptr list i : String} {n : NameScope} :
    (listPointer ptr list i n).1.Tested known := by
  apply Code.Tested.letChain
  · exact .line rfl (List.mem_cons_self ..)
  · apply Code.Tested.seq
    · exact .line rfl (List.mem_cons_self ..)
    · intro r hr
      obtain rfl : r = _ := List.mem_singleton.1 hr
      exact List.mem_cons_self ..
  · exact .of_nil rfl

theorem pushLeaf_tests (s : Shape) (boxes : Nat) : (pushLeaf s boxes).Tests := by
  intro vec list i n known
  unfold pushLeaf
  cases hp : s.pointee? with
  | none => exact .line ((Expr.reads_boxes ..).trans (s.reads_scalar ..)) (List.mem_cons_self ..)
  | some p =>
    apply Code.Tested.seq listPointer_tested
    exact .of_nil ((Expr.reads_boxes ..).trans (p.reads_value ..))

theorem bindLeaf_tests (s : Shape) (boxes : Nat) : (bindLeaf s boxes).Tests := by
  intro value list i n known
  unfold bindLeaf
  cases hp : s.pointee? with
  | none =>
    intro r hr
    have hr : r = ⟨⟨s.scalarKind, .item list (.var i)⟩, ⟨s.scalarKind, .item list (.var i)⟩ :: known⟩ := by
      simpa [Code.reads, Stmt.reads, Expr.reads, Expr.read?, Test.found] using hr
    rw [hr]
    exact List.mem_cons_self ..
  | some p =>
    apply Code.Tested.seq listPointer_tested
    apply Code.Tested.letIf
    · exact .of_nil rfl
    · exact .of_nil ((Expr.reads_boxes ..).trans (p.reads_value ..))

theorem fill_tested {item : ItemReader} (hitem : item.Tests) {vec list : String} {n : NameScope} :
    (fill item vec list n).1.Tested known :=
  .seq (.of_nil rfl) (hitem _ _ _ _ _)

theorem nested_tested {item : ItemReader} (hitem : item.Tests) (finish : Expr → Stmt)
    (hfinish : ∀ x known, (finish (.var x)).reads known = []) {list i : String} (n : NameScope)
    (h : ⟨.list, .item list (.var i)⟩ ∈ known) : (nested item list i finish n).1.Tested known :=
  .seq (.line rfl h) (.seq (fill_tested hitem) (.of_nil (hfinish ..)))

theorem reader_tests (o : Bool) (s : Shape) (boxes : Nat) : (reader o s boxes).Tests := by
  induction o, s, boxes using reader_induction with
  | boxed o s sp boxes ih => exact reader_boxed o s sp boxes ▸ ih
  | option s sp boxes ih =>
    exact fun _ list i _ _ => .seq (ih _ list i _ _) (.of_nil (Expr.reads_boxes (.var _) boxes _))
  | vector s sp boxes ih =>
    exact fun vec _ _ n _ => nested_tested ih (fun e => .push vec (e.boxes boxes))
      (fun x _ => Expr.reads_boxes (.var x) boxes _) n (List.mem_cons_self ..)
  | optionalVector s sp boxes ih =>
    exact fun _ _ _ n _ => .letIf (nested_tested ih (fun e => .yield (.some (e.boxes boxes)))
      (fun x _ => Expr.reads_boxes (.var x) boxes _) n (List.mem_cons_self ..)) (.of_nil rfl)
  | leaf s boxes hs => exact reader_leaf hs boxes ▸ pushLeaf_tests s boxes
  | optionalLeaf s boxes hs => exact reader_optionalLeaf hs boxes ▸ bindLeaf_tests s boxes

theorem collect_tested {target : String} {item : Shape} {idx : Int} {mutable : Bool} {n : NameScope}
    (h : ⟨.list, .argument idx⟩ ∈ known) : (collect target item idx mutable n).1.Tested known := by
  unfold collect
  cases hview : item.isTextView with
  | true =>
    simp only [if_true]
    exact .seq (.line rfl h) (.seq (fill_tested (reader_tests false item 0)) (.of_nil rfl))
  | false =>
    simp only [Bool.false_eq_true, if_false]
    apply Code.Tested.seq (.line rfl h)
    apply Code.Tested.seq (fill_tested (reader_tests false item 0))
    cases mutable <;> exact .of_nil rfl

/-- An optional argument is not checked. Each branch reads it as the kind that the branch was taken for. -/
theorem optional_tested (name : String) (s : Shape) (idx : Int) (n : NameScope) (known : List KindAt) :
    (optional name s idx n).1.Tested known := by
  have hchain : ∀ {kind : Kind} {body : Code}, body.Tested (⟨kind, .argument idx⟩ :: known) →
      (Code.letChain name (.isKind .string (.argument idx)) (.line (.yield .none)) (.isKind kind (.argument idx)) body
        (.line (.yield .none))).Tested known := fun h => .letChain (.of_nil rfl) h (.of_nil rfl)
  unfold optional
  generalize s.unbox = unboxed
  obtain ⟨t, boxes⟩ := unboxed
  cases t with
  | text sp =>
    apply Code.Tested.letIf
    · apply Code.Tested.seq (.line rfl (List.mem_cons_self ..))
      apply Code.Tested.of_nil
      simp only [Code.reads, Stmt.reads, Expr.reads, Expr.read?, Expr.reads_boxes]
      split <;> rfl
    · exact .of_nil rfl
  | vector t _ =>
    apply hchain
    exact .seq (collect_tested (List.mem_cons_self ..)) (.of_nil (Expr.reads_boxes (.var _) boxes _))
  | number w | boolean =>
    apply hchain
    exact .line ((Expr.reads_boxes ..).trans (Shape.reads_scalar ..)) (List.mem_cons_self ..)
  | _ =>
    simp only
    split
    · next p _ =>
      apply hchain
      apply Code.Tested.seq (.line rfl (List.mem_cons_self ..))
      apply Code.Tested.of_nil
      simp [Code.reads, Stmt.reads, Expr.reads, Expr.read?]
    · exact hchain (.line rfl (List.mem_cons_self ..))

def checked (b : Binding) : List KindAt := b.checks.flatMap Stmt.found

def reads (b : Binding) : List Read := b.gets.flatMap (Code.reads b.checked) ++ b.arg.reads b.checked

def atoms (b : Binding) : List Atom := b.checks.flatMap Stmt.atoms ++ (b.gets.flatMap Code.atoms ++ b.arg.atoms)

/-- Every entry is read after the checks. -/
theorem gets_tested (name : String) (idx : Int) : (s : Shape) →
    ∀ c ∈ (ofShape name idx s).gets, c.Tested (ofShape name idx s).checked
  | .number _ | .boolean | .text _ | .unit | .result _ _ | .tuple _ _ | .mapping _ _ _ | .unknown _ =>
    List.forall_mem_singleton.2 (.line rfl (List.mem_cons_self ..))
  | .named _ _ =>
    List.forall_mem_singleton.2 (.seq (.seq (.line rfl (List.mem_cons_self ..)) (.of_nil rfl)) (.of_nil rfl))
  | .vector _ _ | .slice _ _ _ => List.forall_mem_singleton.2 (collect_tested (List.mem_cons_self ..))
  | .option s _ => List.forall_mem_singleton.2 (optional_tested name s idx {} _)
  | .boxed t _ => gets_tested name idx t
  | .reference t m _ => by
    have ih := gets_tested name idx t
    have hrebind : ∀ c ∈ if m && (ofShape name idx t).arg = .var name then [Code.line (.bind true name (.var name))] else [],
        c.Tested (ofShape name idx t).checked := by
      split
      · exact List.forall_mem_singleton.2 (.of_nil rfl)
      · nofun
    cases t with
    | named _ _ => exact List.forall_mem_singleton.2 (.seq (.line rfl (List.mem_cons_self ..)) (.of_nil rfl))
    | _ => exact List.forall_mem_append.2 ⟨ih, hrebind⟩

/-- What is passed on reads nothing itself. -/
theorem reads_arg (name : String) (idx : Int) (known : List KindAt) : (s : Shape) → (ofShape name idx s).arg.reads known = []
  | .number _ | .boolean | .unit | .result _ _ | .tuple _ _ | .mapping _ _ _ | .unknown _ | .vector _ _ | .option _ _
  | .named _ _ | .slice _ _ _ => rfl
  | .text sp => by
    show (textArg name sp).reads known = []
    unfold textArg
    repeat' split
    all_goals rfl
  | .boxed t _ => reads_arg name idx known t
  | .reference t _ _ => by
    have ih := reads_arg name idx known t
    cases t with
    | named _ _ => rfl
    | _ => exact ih

/-- The parts that read are those whose reads are listed. -/
theorem map_reads (name : String) (idx : Int) (s : Shape) :
    (ofShape name idx s).reads.map Read.read = (ofShape name idx s).atoms.filterMap Atom.read? := by
  have hchecks : ((ofShape name idx s).checks.flatMap Stmt.atoms).filterMap Atom.read? = [] := by
    rw [List.filterMap_flatMap, List.flatMap_eq_nil_iff]
    intro st hst
    obtain ⟨k, rfl⟩ := isCheck_checks name idx s st hst
    rfl
  rw [reads, atoms, List.map_append, List.filterMap_append, List.filterMap_append, hchecks, List.nil_append,
    Expr.map_reads, List.map_flatMap, List.filterMap_flatMap]
  exact congrArg (List.flatMap · _ ++ _) (funext fun c => c.map_reads _)

/-- A binding checks, tests and reads its own argument, and no other. -/
theorem accesses_own (name : String) (idx : Int) (s : Shape) {a : Atom} (ha : a ∈ (ofShape name idx s).atoms) {x : Access}
    (hx : a.access? = some x) : x = .check idx ∨ x = .test idx ∨ x = .read idx := by
  let L : Limits := .on (fun x => x = .check idx ∨ x = .test idx ∨ x = .read idx) fun _ => True
  have hs : s.Within L := fun y _ => ⟨trivial, trivial, Limits.allows_on y⟩
  have hatom : a.Within L := by
    obtain ha | ha := List.mem_append.1 ha
    · obtain ⟨st, hst, ha⟩ := List.mem_flatMap.1 ha
      obtain ⟨k, rfl⟩ := isCheck_checks name idx s st hst
      have hcheck : (Stmt.check k idx).Within L := .inl rfl
      exact hcheck.atoms a ha
    · obtain ha | ha := List.mem_append.1 ha
      · obtain ⟨c, hc, ha⟩ := List.mem_flatMap.1 ha
        exact (gets_within (Limits.allows_on name) (.inr (.inr rfl)) (.inr (.inl rfl)) s hs c hc).atoms a ha
      · exact (arg_within idx (Limits.allows_on name) s fun y hy => (hs y hy).2).atoms a ha
  exact hatom.access x hx

/-- For every shape and position, a binding does nothing to arguments but to check, test and read the one at its
    position, and whatever it reads, from there or from a list item, was checked or is under a test of its kind. -/
theorem reads_tested (name : String) (idx : Int) (s : Shape) :
    (∀ a ∈ (ofShape name idx s).atoms, ∀ x, a.access? = some x → x = .check idx ∨ x = .test idx ∨ x = .read idx) ∧
      (ofShape name idx s).reads.map Read.read = (ofShape name idx s).atoms.filterMap Atom.read? ∧
      ∀ r ∈ (ofShape name idx s).reads, r.IsTested := by
  refine ⟨fun a ha x => accesses_own name idx s ha, map_reads name idx s, List.forall_mem_append.2 ⟨?_, ?_⟩⟩
  · intro r hr
    obtain ⟨c, hc, hr⟩ := List.mem_flatMap.1 hr
    exact gets_tested name idx s c hc r hr
  · rw [reads_arg]
    nofun

end Binding
end RingBridge
