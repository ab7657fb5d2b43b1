import RingBridge.Proofs.Module.Declarations
import RingBridge.Proofs.Shape.Described
import RingBridge.Proofs.Shape.Grammar
import RingBridge.Proofs.Wrapper.Limits
/-!
Kinds and checks. For each parameter, the registration lists what the scripting side calls its values, and the wrapper
checks what kind of argument it is given. Both are read off the shape of the parameter, each in its own way; they agree
unless the shape is one that parameters are not bound by.
-/
namespace RingBridge
open Code Wrapper

/-- The text of a kind stands for a check of an argument, or for none where the argument may be missing. -/
def Promises (kind : String) : Option Kind → Prop
  | some .number => kind = "number"
  | some .string => kind = "string"
  | some .list => startsList kind = true
  | some .pointer => startsList kind = false ∧ " pointer".toList <:+ kind.toList
  | none => " or nothing".toList <:+ kind.toList

instance (kind : String) : (check : Option Kind) → Decidable (Promises kind check)
  | some .number => inferInstanceAs (Decidable (kind = "number"))
  | some .string => inferInstanceAs (Decidable (kind = "string"))
  | some .list => inferInstanceAs (Decidable (startsList kind = true))
  | some .pointer => inferInstanceAs (Decidable (startsList kind = false ∧ " pointer".toList <:+ kind.toList))
  | none => inferInstanceAs (Decidable (" or nothing".toList <:+ kind.toList))

theorem suffix_toList_append (lead tail : String) : tail.toList <:+ (lead ++ tail).toList := by
  rw [String.toList_append]
  exact List.suffix_append _ _

theorem getLast?_of_suffix {α : Type} {ts cs : List α} (h : ts <:+ cs) (hne : ts ≠ []) : cs.getLast? = ts.getLast? := by
  obtain ⟨lead, rfl⟩ := h
  rw [List.getLast?_append, List.getLast?_eq_some_getLast hne, Option.some_or]

namespace Shape

def checked? : Shape → Option Kind
  | text _ => some .string
  | named _ _ => some .pointer
  | vector _ _ | slice _ _ _ => some .list
  | option _ _ => none
  | reference t _ _ | boxed t _ => t.checked?
  | number _ | boolean | unit | result _ _ | tuple _ _ | mapping _ _ _ | unknown _ => some .number

/-- The kind that is listed stands for the check. Results, tuples, maps and the unit type are checked for a number,
    whatever they are called. -/
def hasListedKind : Shape → Bool
  | unit | result _ _ | tuple _ _ | mapping _ _ _ => false
  | named n _ => !startsList (n ++ " pointer")
  | reference t _ _ | boxed t _ => t.hasListedKind
  | number _ | text _ | boolean | vector _ _ | slice _ _ _ | option _ _ | unknown _ => true

theorem ne_of_startsList {kind text : String} (h : startsList kind = true) (ht : startsList text = false) :
    kind ≠ text := by
  rintro rfl
  exact Bool.false_ne_true (ht.symm.trans h)

/-- The text of the kind stands for the check exactly where the shape says so. -/
theorem promises_kindText : (s : Shape) → (Promises s.kindText s.checked? ↔ s.hasListedKind = true)
  | number _ | boolean | unknown _ | text _ => iff_of_true rfl rfl
  | unit => iff_of_false (by decide : "nothing" ≠ "number") Bool.false_ne_true
  | vector t _ | slice t _ _ => iff_of_true (startsList_append (by decide : startsList "list of " = true) t.kindText) rfl
  | option t _ => iff_of_true (suffix_toList_append t.kindText " or nothing") rfl
  | result t _ => by
    refine iff_of_false (fun h => ?_) Bool.false_ne_true
    have h : t.kindText ++ " (raises on error)" = "number" := h
    have hlast := getLast?_of_suffix (suffix_toList_append t.kindText " (raises on error)") (by decide)
    rw [h] at hlast
    exact absurd hlast (by decide)
  | tuple ts sp => by
    refine iff_of_false (ne_of_startsList ?_ (by decide)) Bool.false_ne_true
    rw [kindText, String.append_assoc]
    exact startsList_append (by decide) _
  | mapping k v _ => by
    refine iff_of_false (ne_of_startsList ?_ (by decide)) Bool.false_ne_true
    rw [kindText, String.append_assoc, String.append_assoc, String.append_assoc]
    exact startsList_append (by decide) _
  | named n _ => by
    have hsuffix := suffix_toList_append n " pointer"
    show _ ∧ _ ↔ (!startsList (n ++ " pointer")) = true
    rw [Bool.not_eq_true']
    exact ⟨fun h => h.1, fun h => ⟨h, hsuffix⟩⟩
  | reference t _ _ | boxed t _ => promises_kindText t

end Shape

def Atom.checkAt? (i : Int) : Atom → Option Kind
  | stmt (.check k j) => if j = i then some k else none
  | _ => none

def Code.checksAt (c : Code) (i : Int) : List Kind := c.atoms.filterMap (Atom.checkAt? i)

def Shape.checkLine (s : Shape) (i : Int) : List Stmt := s.checked?.toList.map fun k => .check k i

theorem Binding.checks_ofShape (name : String) (i : Int) : (s : Shape) → (ofShape name i s).checks = s.checkLine i
  | .number _ | .boolean | .text _ | .unit | .result _ _ | .tuple _ _ | .mapping _ _ _ | .unknown _ | .named _ _
  | .vector _ _ | .slice _ _ _ | .option _ _ => rfl
  | .boxed t _ => checks_ofShape name i t
  | .reference t _ _ => by
    have ih := checks_ofShape name i t
    cases t with
    | named n _ => rfl
    | _ => exact ih

def checkLines (shapes : List Shape) (n : Nat) : List Stmt :=
  (shapes.zipIdx n).flatMap fun (s, i) => s.checkLine ((i + 1 : Nat) : Int)

theorem checkLines_cons (s : Shape) (shapes : List Shape) (n : Nat) :
    checkLines (s :: shapes) n = s.checkLine ((n + 1 : Nat) : Int) ++ checkLines shapes (n + 1) := by
  rw [checkLines, List.zipIdx_cons, List.flatMap_cons, checkLines]

namespace Code
variable {i : Int}

theorem checksAt_lines (ss : List Stmt) :
    (Code.lines ss).checksAt i = ss.flatMap fun st => st.atoms.filterMap (Atom.checkAt? i) := by
  rw [checksAt, Code.lines, atoms_ofList, List.flatMap_map, List.filterMap_flatMap]
  rfl

theorem checksAt_lines_append (ss ts : List Stmt) :
    (Code.lines (ss ++ ts)).checksAt i = (Code.lines ss).checksAt i ++ (Code.lines ts).checksAt i := by
  simp only [checksAt_lines, List.flatMap_append]

theorem checksAt_checkLine (s : Shape) (j : Int) :
    (Code.lines (s.checkLine j)).checksAt i = if j = i then s.checked?.toList else [] := by
  rw [checksAt_lines, Shape.checkLine]
  cases s.checked? with
  | none => exact (ite_self []).symm
  | some k =>
    by_cases hj : j = i
    · simp [hj, Atom.checkAt?]
    · simp [hj, Atom.checkAt?]

theorem checksAt_checkLines_of_le (shapes : List Shape) {n : Nat} (h : i ≤ n) :
    (Code.lines (checkLines shapes n)).checksAt i = [] := by
  induction shapes generalizing n with
  | nil => rfl
  | cons s shapes ih =>
    rw [checkLines_cons, checksAt_lines_append, checksAt_checkLine, if_neg (by omega), ih (by omega)]
    rfl

/-- Of the checks in a row, those of one argument are the check for its shape. -/
theorem checksAt_checkLines (shapes : List Shape) (n j : Nat) :
    (Code.lines (checkLines shapes n)).checksAt ((n + j + 1 : Nat) : Int) = (shapes[j]?.bind Shape.checked?).toList := by
  induction shapes generalizing n j with
  | nil => rfl
  | cons s shapes ih =>
    rw [checkLines_cons, checksAt_lines_append, checksAt_checkLine]
    cases j with
    | zero =>
      rw [if_pos rfl, checksAt_checkLines_of_le shapes (by omega), List.append_nil]
      rfl
    | succ j =>
      rw [if_neg (by omega), List.nil_append, show n + (j + 1) + 1 = n + 1 + j + 1 by omega, ih]
      rfl

end Code

namespace Wrapper

def receiverShapes : Option String → List Shape
  | some s => [.named s s]
  | none => []

namespace Operation
variable {c : Converter} {o : Operation}

theorem argumentChecks_eq (hc : c.IsBare) (hlengths : o.shapes.length = o.params.length) :
    (wrapper c o).argumentChecks = checkLines (receiverShapes o.receiver ++ o.shapes) 0 := by
  have hb : (wrapper c o).bindings = o.parameters.map Binding.Parameter.binding := bindings_eq hc o
  have hreceiver : (wrapper c o).receiver = o.receiver := rfl
  -- The names of the parameters have no part in their checks.
  have hparams : (o.parameters.map Binding.Parameter.binding).flatMap Binding.checks = checkLines o.shapes o.offset := by
    have hshapes : o.shapes = (o.params.zip o.shapes).map Prod.snd := (List.map_snd_zip (Nat.le_of_eq hlengths)).symm
    conv => rhs; rw [checkLines, hshapes, List.zipIdx_map, List.flatMap_map, List.zipIdx_eq_map_add, List.flatMap_map]
    rw [List.flatMap_map, parameters, List.flatMap_map]
    refine congrArg (fun f => List.flatMap f _) (funext fun x => ?_)
    obtain ⟨⟨p, s⟩, i⟩ := x
    have hidx : ((i + 1 + o.offset : Nat) : Int) = ((o.offset + i + 1 : Nat) : Int) := by omega
    exact (Binding.checks_ofShape ..).trans (congrArg s.checkLine hidx)
  have hself : receiverChecks o.receiver = checkLines (receiverShapes o.receiver) 0 := by
    cases o.receiver <;> rfl
  have hoffset : o.offset = (receiverShapes o.receiver).length := by
    rw [offset]
    cases o.receiver <;> rfl
  rw [argumentChecks, hb, hreceiver, hparams, hself, hoffset, checkLines, checkLines, checkLines, List.zipIdx_append,
    List.flatMap_append, Nat.zero_add]

theorem kinds_registration (hc : c.IsBare) (hlengths : o.shapes.length = o.params.length) :
    (wrapper c o).registration.params.map Prod.snd = (receiverShapes o.receiver ++ o.shapes).map Shape.kindText := by
  have hself : (selfParam o.receiver).map Prod.snd = (receiverShapes o.receiver).map Shape.kindText := by
    cases o.receiver <;> rfl
  have hkind : ∀ p : Param String × Shape, c.kindText (some p.1.type) (some p.2) = p.2.kindText :=
    fun p => hc.kindText_eq ..
  have hshapes : o.shapes = (o.params.zip o.shapes).map Prod.snd := (List.map_snd_zip (Nat.le_of_eq hlengths)).symm
  show (selfParam o.receiver ++ (o.params.zip o.shapes).map _).map Prod.snd = _
  rw [List.map_append, List.map_append, hself, List.map_map]
  conv => rhs; rw [hshapes, List.map_map]
  exact congrArg _ (List.map_congr_left fun p _ => hkind p)

end Operation
end Wrapper

namespace Export
variable {c : Converter}

def paramShapes : Export → List Shape
  | destructor struct => [.named struct struct]
  | constructor _ => []
  | getter struct _ _ => receiverOf struct true
  | setter struct _ type => receiverOf struct true ++ [.ofSpelling type]
  | method struct f => receiverOf struct f.receiver.isPresent ++
      f.params.map fun a => (Shape.ofSpelling a.type).resolveSelf (some struct)
  | function f => f.params.map fun a => .ofSpelling a.type
where
  receiverOf (struct : String) (isPresent : Bool) : List Shape :=
    receiverShapes (if isPresent then (some struct).filter fun s => !s.isEmpty else none)

/-- Where an export is an operation, its shapes are those of the operation. -/
theorem cases_paramShapes (c : Converter) (name : String) (e : Export) :
    (∃ struct, e = destructor struct) ∨ (∃ struct, e = constructor struct) ∨ ∃ o : Operation,
      e.wrapperAs c name = o.wrapper c ∧ o.shapes.length = o.params.length ∧
      e.paramShapes = receiverShapes o.receiver ++ o.shapes := by
  cases e with
  | destructor struct => exact .inl ⟨struct, rfl⟩
  | constructor struct => exact .inr (.inl ⟨struct, rfl⟩)
  | getter struct field type => exact .inr (.inr ⟨_, rfl, rfl, (List.append_nil _).symm⟩)
  | setter struct field type => exact .inr (.inr ⟨_, rfl, rfl, rfl⟩)
  | method struct f => exact .inr (.inr ⟨_, rfl, List.length_map _, rfl⟩)
  | function f => exact .inr (.inr ⟨_, rfl, List.length_map _, rfl⟩)

theorem argumentChecks_eq (hc : c.IsBare) (name : String) (e : Export) :
    (e.wrapperAs c name).argumentChecks = checkLines e.paramShapes 0 := by
  obtain ⟨struct, rfl⟩ | ⟨struct, rfl⟩ | ⟨o, ho, hlengths, hshapes⟩ := cases_paramShapes c name e
  · rfl
  · rfl
  · rw [ho, hshapes]
    exact Operation.argumentChecks_eq hc hlengths

theorem kinds_registration (hc : c.IsBare) (name : String) (e : Export) :
    (e.wrapperAs c name).registration.params.map Prod.snd = e.paramShapes.map Shape.kindText := by
  obtain ⟨struct, rfl⟩ | ⟨struct, rfl⟩ | ⟨o, ho, hlengths, hshapes⟩ := cases_paramShapes c name e
  · rfl
  · rfl
  · rw [ho, hshapes]
    exact Operation.kinds_registration hc hlengths

/-- The body of a wrapper has one check for the argument at each position that is checked at all. -/
theorem checksAt_body (hc : c.IsBare) (name : String) (e : Export) (j : Nat) :
    (e.wrapperAs c name).body.checksAt ((j + 1 : Nat) : Int) = (e.paramShapes[j]?.bind Shape.checked?).toList := by
  have hrest : (e.wrapperAs c name).rest.checksAt ((j + 1 : Nat) : Int) = [] := by
    refine List.filterMap_eq_nil_iff.2 fun a ha => ?_
    have huse := (rest_within hc name (e.within_on (Access.IsUse (e.wrapperAs c name).count)) fun _ h => h).atoms a ha
    unfold Atom.checkAt?
    split
    · exact (huse.access _ rfl).elim
    · rfl
  have hlines := Code.checksAt_checkLines e.paramShapes 0 j
  rw [← argumentChecks_eq hc name e, Nat.zero_add] at hlines
  rw [body_eq_seq, Code.checksAt, Code.atoms, List.filterMap_append, ← Code.checksAt, ← Code.checksAt, hrest,
    List.append_nil, ← hlines]
  exact Code.checksAt_lines_append [.checkCount _] _

end Export

namespace Settings
variable {s : Settings} {d : Document Value} {given : Option String} {m : Module}

/-- Without handlers, every wrapper has a kind listed for each of its parameters, and makes the check for its shape and
    no other check of that argument. The kind stands for this check exactly if the shape is none that falls back to a
    number, and not a struct whose name reads like a list. -/
theorem generate_kinds (h : s.generate d given = .ok m) (hbare : (s.moduleFor m.modulePrefix).handlers.entries = []) :
    ∀ w ∈ m.wrappers, ∃ decl ∈ d.decls, ∃ e, decl.Offers e ∧ w = e.wrapper (s.converterFor m) ∧
      w.registration.params.length = e.paramShapes.length ∧
      ∀ (i : Nat) x kind shape, w.registration.params[i]? = some (x, kind) → e.paramShapes[i]? = some shape →
        w.body.checksAt ((i + 1 : Nat) : Int) = shape.checked?.toList ∧
        (Promises kind shape.checked? ↔ shape.hasListedKind = true) := by
  intro w hw
  obtain ⟨decl, hd, e, he, rfl⟩ := offers_of_generate h hw
  have hc : (s.converterFor m).IsBare := Converter.isBare_converter hbare _
  have hkinds := Export.kinds_registration hc (e.name (s.converterFor m).modulePrefix) e
  refine ⟨decl, hd, e, he, rfl, ?_, fun i x kind shape hkind hshape => ?_⟩
  · have hlength := congrArg List.length hkinds
    rwa [List.length_map, List.length_map] at hlength
  · have hchecks := Export.checksAt_body hc (e.name (s.converterFor m).modulePrefix) e i
    have htext : kind = shape.kindText := by
      have hi := congrArg (·[i]?) hkinds
      simp only [List.getElem?_map] at hi
      rw [show (e.wrapperAs (s.converterFor m) _).registration.params[i]? = some (x, kind) from hkind, hshape] at hi
      exact Option.some.inj hi
    rw [hshape] at hchecks
    exact ⟨hchecks, htext ▸ shape.promises_kindText⟩

def fillFunction : Function String :=
  { name := "fill", params := [⟨"items", "&[f64]"⟩, ⟨"label", "&str"⟩, ⟨"start", "Option<i32>"⟩] }

theorem generate_kinds_fill : ∃ m, generate {} { decls := [.func (fillFunction.map .text)] } none = .ok m ∧
    ∀ w ∈ m.wrappers, w.registration.params.length = 3 ∧ ∀ (i : Nat) x kind, w.registration.params[i]? = some (x, kind) →
      ∃ check, w.body.checksAt ((i + 1 : Nat) : Int) = Option.toList check ∧ Promises kind check := by
  have hm : generate {} { decls := [.func (fillFunction.map .text)] } none =
    .ok ⟨.text "", "", [(Export.function fillFunction).wrapper {}]⟩ := rfl
  have hitems : Shape.ofSpelling "&[f64]" = .slice (.number .f64) false "&[f64]" :=
    TypeExpr.ofSpelling_spelling (.slice none false (.number .f64))
  have hlabel : Shape.ofSpelling "&str" = .text "&str" := TypeExpr.ofSpelling_spelling (.reference none false .str)
  have hstart : Shape.ofSpelling "Option<i32>" = .option (.number .i32) "Option<i32>" :=
    TypeExpr.ofSpelling_spelling (.wrapped [] .option (.number .i32))
  have hshapes : (Export.function fillFunction).paramShapes =
      [.ofSpelling "&[f64]", .ofSpelling "&str", .ofSpelling "Option<i32>"] := rfl
  have hlisted : ∀ shape ∈ (Export.function fillFunction).paramShapes, shape.hasListedKind = true := by
    rw [hshapes, hitems, hlabel, hstart]
    decide
  refine ⟨_, hm, fun w hw => ?_⟩
  obtain ⟨decl, hd, e, he, -, hlength, hkinds⟩ := generate_kinds hm rfl w hw
  obtain rfl := List.mem_singleton.1 hd
  obtain rfl := he.eq_function
  refine ⟨hlength, fun i x kind hkind => ?_⟩
  have hi : i < (Export.function fillFunction).paramShapes.length := hlength ▸ (List.getElem?_eq_some_iff.1 hkind).1
  obtain ⟨hchecks, hpromise⟩ := hkinds i x kind _ hkind (List.getElem?_eq_getElem hi)
  exact ⟨_, hchecks, hpromise.2 (hlisted _ (List.getElem_mem hi))⟩

def areaFunction : Function String := { name := "area", params := [⟨"size", "(f64,f64)"⟩] }

/-- The tuple is listed as a list, and the argument is checked for a number. -/
theorem generate_lists_number : ∃ m, generate {} { decls := [.func (areaFunction.map .text)] } none = .ok m ∧
    ∃ w ∈ m.wrappers, w.registration.params = [("size", "list [number, number]")] ∧
      ¬ ∃ check, w.body.checksAt 1 = Option.toList check ∧ Promises "list [number, number]" check := by
  have hm : generate {} { decls := [.func (areaFunction.map .text)] } none =
    .ok ⟨.text "", "", [(Export.function areaFunction).wrapper {}]⟩ := rfl
  have hsize : Shape.ofSpelling "(f64,f64)" = .tuple [.number .f64, .number .f64] "(f64,f64)" :=
    TypeExpr.ofSpelling_spelling (.tuple (.number .f64) [.number .f64])
  have hbare : ({} : Converter).IsBare := rfl
  refine ⟨_, hm, _, List.mem_singleton_self _, ?_, ?_⟩
  · have hparams : ((Export.function areaFunction).wrapper {}).registration.params =
        [("size", (Shape.ofSpelling "(f64,f64)").kindText)] := rfl
    rw [hparams, hsize]
    rfl
  · have hchecks := Export.checksAt_body hbare ((Export.function areaFunction).name "") (.function areaFunction) 0
    have hshapes : (Export.function areaFunction).paramShapes = [.ofSpelling "(f64,f64)"] := rfl
    rw [hshapes, hsize] at hchecks
    rintro ⟨check, hcheck, hpromise⟩
    have hnumber : check = some .number := by
      cases check with
      | none => exact nomatch hcheck.symm.trans hchecks
      | some k => exact congrArg some (List.singleton_inj.1 (hcheck.symm.trans hchecks))
    rw [hnumber] at hpromise
    exact absurd hpromise (by decide)

end Settings
end RingBridge
