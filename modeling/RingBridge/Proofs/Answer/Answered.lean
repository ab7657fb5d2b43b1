import RingBridge.Proofs.Answer.Filled
import RingBridge.Proofs.Shape.Described
/-!
Answers, once on every way: a value is answered by the kind that the scripting side is told of. Where an optional value
is missing nothing is answered, and where there is an error it is raised.
-/
namespace RingBridge
open Code

def Layer.signals : Layer → List Signal
  | option => []
  | result => [.error]

def Shape.layers : Shape → List Layer
  | option t _ => .option :: t.layers
  | result t _ => .result :: t.layers
  | boxed t _ | reference t _ _ => t.layers
  | _ => []

namespace Answer

/-- What the caller sees on a way that opens layers one after the other: behind all of them an answer of the kind `k`,
    if there is one, or what the first missing value leads to. -/
inductive Ends (k : Option Kind) : List Layer → List Move → List Signal → Prop
  | inside {ms} : Ends k [] ms (k.toList.map .answer)
  | present {l ls e xs ms ss} : Ends k ls ms ss → Ends k (l :: ls) (.present l e xs :: ms) ss
  | missing {l ls e} : Ends k (l :: ls) [.missing l e] l.signals

/-- The answer is set, or an error raised, at most once. -/
theorem Ends.length_le_one {k : Option Kind} {ls : List Layer} {ms : List Move} {ss : List Signal} (h : Ends k ls ms ss) :
    ss.length ≤ 1 := by
  induction h with
  | inside =>
    rw [List.length_map]
    exact Option.length_toList_le
  | present _ ih => exact ih
  | @missing l ls e => cases l <;> decide

/-- Code that ends as the layers and the inner kind of a shape say, in texts that begin with words of their own. -/
abbrev EndsBy (c : Code) (s : Shape) : Prop :=
  c.Through fun p => Ends s.inside? s.layers (moves p) (signals p) ∧ ∀ st ∈ p, st.isWorded = true

variable {c : Code} {t : Shape} {v : Expr} {x : String}

theorem endsBy_line {s : Shape} {st : Stmt} (hst : st.goesOn = true) (hworded : (Step.stmt st).isWorded = true)
    (h : Ends s.inside? s.layers (moves [.stmt st]) (signals [.stmt st])) : EndsBy (.line st) s :=
  .line hst ⟨h, List.forall_mem_singleton.2 hworded⟩

theorem endsBy_list {s : Shape} {P : Listing} (hs : s.listing? = some P) (hinside : s.inside? = some .list)
    (hlayers : s.layers = []) (v : Expr) (n : NameScope) : EndsBy (ofShape s v n).1 s := by
  obtain ⟨f, hf, -, hshape⟩ := exists_filler s hs
  rw [hshape, EndsBy, hinside, hlayers]
  apply (listOf_through hf v n).weaken
  rintro p ⟨l, q, rfl, hq, hworded, -⟩
  have hsignals : signals (.stmt (.bind false l .newList) :: (q ++ [.stmt (.answerList l)])) = [.answer .list] := by
    show signals (q ++ [.stmt (.answerList l)]) = _
    rw [signals_append, hq]
    rfl
  rw [hsignals]
  exact ⟨.inside, List.forall_mem_cons.2 ⟨rfl, List.forall_mem_append.2 ⟨hworded, List.forall_mem_singleton.2 rfl⟩⟩⟩

theorem endsBy_missing (s : Shape) {l : Layer} {ls : List Layer} (hs : s.layers = l :: ls) {m : Missing}
    (hm : signals [.move (.missing l v), .miss m] = l.signals) :
    Ends s.inside? s.layers (moves [.move (.missing l v), .miss m]) (signals [.move (.missing l v), .miss m]) ∧
      ∀ st ∈ [Step.move (.missing l v), .miss m], st.isWorded = true := by
  rw [hs, hm]
  exact ⟨.missing, by simp [Step.isWorded]⟩

theorem endsBy_option (sp : String) (h : EndsBy c t) : EndsBy (.matchOption v x c .nothing) (.option t sp) :=
  .matchOption (h.weaken fun _ hp => ⟨.present hp.1, List.forall_mem_cons.2 ⟨rfl, hp.2⟩⟩)
    (endsBy_missing (.option t sp) rfl rfl)

theorem endsBy_result (sp e : String) (h : EndsBy c t) : EndsBy (.matchResult v x c (.raise e)) (.result t sp) :=
  .matchResult (h.weaken fun _ hp => ⟨.present hp.1, List.forall_mem_cons.2 ⟨rfl, hp.2⟩⟩)
    (endsBy_missing (.result t sp) rfl rfl)

theorem ofShape_ends : (s : Shape) → (v : Expr) → (n : NameScope) → EndsBy (ofShape s v n).1 s
  | .number _, _, _ | .unknown _, _, _ | .boolean, _, _ | .text _, _, _ | .named _ _, _, _ => endsBy_line rfl rfl .inside
  | .unit, _, _ => .skip ⟨.inside, nofun⟩
  | .vector _ _, v, n | .slice _ _ _, v, n | .tuple _ _, v, n | .mapping _ _ _, v, n => endsBy_list rfl rfl rfl v n
  | .option t sp, _, _ => endsBy_option sp (ofShape_ends t _ _)
  | .result t sp, v, n => by
    have ih := fun v n => ofShape_ends t v n
    cases t with
    | unit =>
      exact .matchDone ⟨.present .inside, List.forall_mem_singleton.2 rfl⟩ (endsBy_missing (.result .unit sp) rfl rfl)
    | _ => exact endsBy_result sp _ (ih (.var (n.fresh "val").1) ((n.fresh "val").2.fresh "e").2)
  | .boxed t _, v, n => by
    have ih := ofShape_ends t (.deref v) n
    cases t with
    | named _ _ => exact endsBy_line rfl rfl .inside
    | _ => exact ih
  | .reference t _ _, v, n => ofShape_ends t (.clone v) n

theorem ofCall_ends (s : Shape) (call : Call) (n : NameScope) : EndsBy (ofCall (some s) call n).1 s := by
  by_cases hs : s = .unit
  · subst hs
    exact endsBy_line rfl rfl .inside
  · have hcode : (ofCall (some s) call n).1 = .seq (.line (.bindCall (n.fresh "result").1 call))
        (ofShape s (.var (n.fresh "result").1) (n.fresh "result").2).1 := by
      cases s <;> first | rfl | exact absurd rfl hs
    rw [hcode]
    exact .line_seq rfl ((ofShape_ends s _ _).weaken fun _ hp => ⟨hp.1, List.forall_mem_cons.2 ⟨rfl, hp.2⟩⟩)

/-- The answer of a value, or of a call, has on every way the kind that the shape is described by, and no way sets it
    twice: a missing optional value leaves it unset, and an error is raised once in its place. So it stands in the texts
    that are written on the way, all of which stand in the code. -/
theorem ofShape_answers (s : Shape) (v : Expr) (call : Call) (n : NameScope) : ∃ k, Describes s.names s.kindText k ∧
    ((∀ x ∈ s.names, startsList (x ++ " pointer") = false) → ∀ k', Describes s.names s.kindText k' → k' = k) ∧
    ∀ c ∈ [(ofShape s v n).1, (ofCall (some s) call n).1], c.Through fun p =>
      Ends k s.layers (moves p) (signals p) ∧ (signals p).length ≤ 1 ∧ signals p = (texts p).filterMap Signal.ofText? ∧
        ∀ t ∈ texts p, c.Shows t := by
  refine ⟨s.inside?, s.describes_kindText, fun hnames k' hk' => s.describes_kindText.unique hnames hk', ?_⟩
  have hends : ∀ c ∈ [(ofShape s v n).1, (ofCall (some s) call n).1], EndsBy c s :=
    List.forall_mem_cons.2 ⟨ofShape_ends s v n, List.forall_mem_singleton.2 (ofCall_ends s call n)⟩
  intro c hc
  apply (hends c hc).shows.weaken
  rintro p ⟨⟨hp, hworded⟩, hshows⟩
  exact ⟨hp, hp.length_le_one, signals_eq hworded, hshows⟩

def pointsShape : Shape :=
  .option (.result (.vector (.named "Point" "Point") "Vec<Point>") "Result<Vec<Point>,String>")
    "Option<Result<Vec<Point>,String>>"

theorem ofShape_answers_points : (∀ x ∈ pointsShape.names, startsList (x ++ " pointer") = false) ∧
    pointsShape.kindText = "list of Point pointer (raises on error) or nothing" ∧
    ∃ k, (∀ k', Describes pointsShape.names pointsShape.kindText k' ↔ k' = k) ∧
      ∃ p, (ofShape pointsShape (.var "points") {}).1.Path p true ∧
        Ends k [.option, .result] (moves p) ((texts p).filterMap Signal.ofText?) := by
  have hnames : ∀ x ∈ pointsShape.names, startsList (x ++ " pointer") = false := by decide
  obtain ⟨k, hk, hunique, hways⟩ := ofShape_answers pointsShape (.var "points") (.function "find" []) {}
  obtain ⟨p, r, hp⟩ := exists_path (ofShape pointsShape (.var "points") {}).1
  obtain ⟨rfl, hends, -, htexts, -⟩ := hways _ (List.mem_cons_self ..) p r hp
  exact ⟨hnames, by decide, k, fun k' => ⟨hunique hnames k', fun he => he ▸ hk⟩, p, hp, htexts ▸ hends⟩

end Answer
end RingBridge
