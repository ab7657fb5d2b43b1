import RingBridge.Proofs.Wrapper.Paths
/-!
Local variables: different parameters get different names, and so different pointers.
-/
namespace RingBridge

theorem toString_natCast_inj {i j : Nat} (h : toString (i : Int) = toString (j : Int)) : i = j := by
  have hrepr : Nat.repr i = Nat.repr j := h
  have hdigits := congrArg (fun s => Nat.ofDigitChars 10 s.toList 0) hrepr
  simpa using hdigits

namespace Binding

theorem pointerName_inj {a b : String} (h : pointerName a = pointerName b) : a = b := by
  have h : ("__ptr_" ++ a).toList = ("__ptr_" ++ b).toList := congrArg String.toList h
  rw [String.toList_append, String.toList_append] at h
  exact String.toList_injective (List.append_cancel_left h)

theorem pointers_name {name : String} {q : String × String} : {s : Shape} → q ∈ pointers name s → q.1 = pointerName name
  | .boxed t _, hq => pointers_name (s := t) hq
  | .reference t m sp, hq => by
    have ih : q ∈ pointers name t → q.1 = pointerName name := pointers_name
    cases t with
    | named s _ => rw [List.mem_singleton.1 hq]
    | _ => exact ih hq
  | .named s _, hq => by rw [List.mem_singleton.1 hq]
  | .number _, hq | .boolean, hq | .text _, hq | .unit, hq | .result _ _, hq | .tuple _ _, hq | .mapping _ _ _, hq
  | .unknown _, hq | .vector _ _, hq | .slice _ _ _, hq | .option _ _, hq => by cases hq

/-- A parameter leaves the pointers of a parameter of another name alone. -/
theorem Parameter.spares_follows {p p' : Parameter} (hne : p.name ≠ p'.name) {q : String × String} (hq : q ∈ p.pointers) :
    p'.Spares Follows q := by
  intro σ τ hs hσ
  obtain hk | hv | ⟨s, hm, _⟩ := hs.settled q.1
  · simpa only [Follows, Store.IsValue, hk] using hσ
  · exact .inr hv
  · have hname := (pointers_name hq).symm.trans (pointers_name (q := (q.1, s)) hm)
    exact absurd (pointerName_inj hname) hne

end Binding

namespace Wrapper

theorem isPrefixOf_argument (n : Int) : "__".toList.isPrefixOf ("__arg" ++ toString n).toList = true := by
  rw [String.toList_append]
  rfl

/-- Two positions get two local variables, unless both parameters have one name that can be used. -/
theorem localName_ne {a b : String} {i j : Nat} (hij : i ≠ j) (hab : a = b → a = "_") :
    localName a i ≠ localName b j := by
  intro h
  unfold localName at h
  split at h
  · split at h
    · have h : ("__arg" ++ toString (i : Int)).toList = ("__arg" ++ toString (j : Int)).toList := congrArg String.toList h
      rw [String.toList_append, String.toList_append] at h
      exact hij (toString_natCast_inj (String.toList_injective (List.append_cancel_left h)))
    · next hb =>
      have h : "__arg" ++ toString (i : Int) = b := h
      rw [← h, isPrefixOf_argument, Bool.or_true, Bool.true_or] at hb
      exact hb rfl
  · next ha =>
    split at h
    · have h : a = "__arg" ++ toString (j : Int) := h
      rw [h, isPrefixOf_argument, Bool.or_true, Bool.true_or] at ha
      exact ha rfl
    · rw [hab h] at ha
      exact ha (by decide)

namespace Operation

def HasDistinctParams (ps : List (Param String)) : Prop := ps.Pairwise fun a b => a.name = b.name → a.name = "_"

theorem pairwise_name_ne {o : Operation} (h : HasDistinctParams o.params) :
    o.parameters.Pairwise fun p p' => p.name ≠ p'.name := by
  rw [List.pairwise_iff_getElem]
  intro i j hi hj hij
  have hlength : o.parameters.length ≤ o.params.length := by
    simp only [parameters, List.length_map, List.length_zipIdx, List.length_zip]
    omega
  have hab := List.pairwise_iff_getElem.1 h i j (by omega) (by omega) hij
  have hname : ∀ k (hk : k < o.parameters.length) (hp : k < o.params.length),
      o.parameters[k].name = localName o.params[k].name ((k + 1 + o.offset : Nat) : Int) := by
    intro k hk hp
    simp [parameters]
  rw [hname i hi (by omega), hname j hj (by omega)]
  exact localName_ne (by omega) hab

end Operation
end Wrapper
end RingBridge
