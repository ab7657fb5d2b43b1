import RingBridge.Proofs.Source.Extension
import RingBridge.Proofs.Source.Starts
import RingBridge.Proofs.Text.Blank
/-!
Cuts that are taken again. What a cut takes of a text tells where it ends: literals in quotes are closed by their own
characters, and words and numbers by a blank. So a text that starts with what was taken, and goes on with a blank at most,
is cut at the same place, whatever stood behind it before.
-/
namespace RingBridge.Source
open Text

variable {cs x : List Char}

/-- Of a text that starts with the first part of a cut, whatever follows, the cut takes this part. -/
def TakesAgain (f : List Char → Option Cut) (c : Cut) (x : List Char) : Prop := f (c.1 ++ x) = some (c.1, x)

theorem stringBody_again {cut : Cut} (h : stringBody cs = some cut) (x : List Char) : TakesAgain stringBody cut x := by
  fun_induction stringBody cs generalizing cut with
  | case1 c r ih =>
    obtain ⟨d, hd, rfl⟩ := Option.map_eq_some_iff.1 h
    show (stringBody (d.1 ++ x)).map _ = _
    rw [ih hd]
    rfl
  | case2 r =>
    cases h
    rfl
  | case3 => cases h
  | case4 c r hescape hend hback ih =>
    obtain ⟨d, hd, rfl⟩ := Option.map_eq_some_iff.1 h
    have hc : c ≠ '\\' := by
      rintro rfl
      cases r with
      | nil => exact hback rfl rfl
      | cons e r => exact hescape e r rfl rfl
    show stringBody (c :: (d.1 ++ x)) = _
    rw [stringBody.eq_4 _ _ (fun _ _ he => absurd he hc) hend fun he => absurd he hc, ih hd]
    rfl
  | case5 => cases h

theorem through_pattern (pattern x : List Char) : through pattern (pattern ++ x) = some (pattern, x) := by
  cases pattern with
  | nil => cases x <;> rfl
  | cons a p =>
    have hp : (a :: p).isPrefixOf (a :: (p ++ x)) = true := List.isPrefixOf_iff_prefix.2 (List.prefix_append (a :: p) x)
    rw [List.cons_append, through, if_pos hp, ← List.cons_append, List.drop_left]

theorem through_again {pattern : List Char} {cut : Cut} (h : through pattern cs = some cut) (x : List Char) :
    TakesAgain (through pattern) cut x := by
  induction cs generalizing cut x with
  | nil =>
    rw [through] at h
    split at h
    · next hp =>
      cases h
      rw [List.isEmpty_iff.1 hp]
      exact through_pattern [] x
    · cases h
  | cons c r ih =>
    rw [through] at h
    split at h
    · cases h
      exact through_pattern pattern x
    · next hp =>
      obtain ⟨d, hd, rfl⟩ := Option.map_eq_some_iff.1 h
      -- The pattern lies in what is taken of the rest, so it does not reach what follows.
      have hlen : pattern.length ≤ d.1.length := by
        have halone : through pattern (d.1 ++ []) = some (d.1, []) := ih hd []
        rw [List.append_nil] at halone
        exact length_le_of_through halone
      have hagain : ¬ pattern.isPrefixOf (c :: (d.1 ++ x)) = true := by
        intro hlong
        have htaken : pattern <+: c :: d.1 :=
          List.prefix_of_prefix_length_le (List.isPrefixOf_iff_prefix.1 hlong) (List.prefix_append (c :: d.1) x)
            (Nat.le_succ_of_le hlen)
        have hcovers : d.1 ++ d.2 = r := covers_through hd
        refine hp (List.isPrefixOf_iff_prefix.2 (htaken.trans ?_))
        rw [← hcovers]
        exact List.prefix_append (c :: d.1) d.2
      show through pattern (c :: (d.1 ++ x)) = _
      rw [through, if_neg hagain, ih hd x]
      rfl

theorem closingQuote_again {cut : Cut} (h : closingQuote? cs = some cut) (x : List Char) :
    cut.1 = ['\''] ∧ TakesAgain closingQuote? cut x := by
  unfold closingQuote? at h
  split at h
  · cases h
    exact ⟨rfl, rfl⟩
  · cases h

theorem spanOf_again {p : Char → Bool} (cs : List Char) {x : List Char} (hx : ∀ c ∈ x.head?, p c = false) :
    spanOf p (cs.takeWhile p ++ x) = (cs.takeWhile p, x) := by
  have hall : ∀ c ∈ cs.takeWhile p, p c = true := fun c => List.mem_takeWhile_imp
  rw [spanOf, List.takeWhile_append_of_pos hall, List.dropWhile_append_of_pos hall]
  cases x with
  | nil => rw [List.takeWhile_nil, List.dropWhile_nil, List.append_nil]
  | cons c r =>
    have hc : p c = false := hx c rfl
    rw [List.takeWhile_cons, List.dropWhile_cons, hc, if_neg (by decide), if_neg (by decide), List.append_nil]

theorem braced_again {cut : Cut} (h : braced? cs = some cut) (x : List Char) : TakesAgain braced? cut x := by
  unfold braced? at h
  split at h
  · next r =>
    dsimp only at h
    split at h
    · next t ht =>
      split at h
      · next hlen =>
        cases h
        have hclose : ∀ c ∈ ('\x7d' :: x).head?, isHexDigit c = false := by
          intro c hc
          cases hc
          decide
        obtain ⟨htake, hdrop⟩ := Prod.mk.inj (spanOf_again (p := isHexDigit) r hclose)
        show braced? ('\x7b' :: (r.takeWhile isHexDigit ++ ['\x7d'] ++ x)) = _
        rw [List.append_assoc, List.singleton_append, braced?.eq_1]
        dsimp only
        rw [htake, hdrop]
        exact if_pos hlen
      · cases h
    · cases h
  · cases h

/-- A long escape is told by what follows its backslash. -/
theorem longEscape_again {cut : Cut} (h : characterBody?.longEscape? cs = some cut) (x : List Char) :
    ∃ t, cut.1 = '\\' :: t ∧ characterBody?.longEscape? (t ++ x) = some (cut.1, x) := by
  unfold characterBody?.longEscape? at h
  split at h
  · next a b r =>
    split at h
    · next hhex =>
      obtain ⟨d, hd, rfl⟩ := Option.map_eq_some_iff.1 h
      have hquote : closingQuote? (d.1 ++ x) = some (d.1, x) := (closingQuote_again hd x).2
      refine ⟨'x' :: a :: b :: d.1, rfl, ?_⟩
      rw [List.cons_append, List.cons_append, List.cons_append, characterBody?.longEscape?.eq_1, if_pos hhex, hquote]
      rfl
    · cases h
  · next r =>
    split at h
    · next ds t hds =>
      obtain ⟨d, hd, rfl⟩ := Option.map_eq_some_iff.1 h
      have hbraced : braced? (ds ++ (d.1 ++ x)) = some (ds, d.1 ++ x) := braced_again hds (d.1 ++ x)
      refine ⟨'u' :: (ds ++ d.1), rfl, ?_⟩
      rw [List.cons_append, List.append_assoc, characterBody?.longEscape?.eq_2, hbraced]
      dsimp only
      rw [(closingQuote_again hd x).2]
      rfl
    · cases h
  · cases h

/-- A character before a quote is no long escape. -/
theorem longEscape_quote (a : Char) (x : List Char) : characterBody?.longEscape? (a :: '\'' :: x) = none := by
  have hhex : isHexDigit '\'' = false := by decide
  by_cases hu : a = 'u'
  · subst hu
    rw [characterBody?.longEscape?.eq_2, braced_other (by decide)]
  by_cases hx : a = 'x'
  · subst hx
    cases x with
    | nil => rfl
    | cons b x => rw [characterBody?.longEscape?.eq_1, hhex, Bool.false_and, if_neg (by decide)]
  · exact longEscape_other hx hu

theorem characterBody_again {cut : Cut} (h : characterBody? cs = some cut) (x : List Char) :
    TakesAgain characterBody? cut x := by
  unfold characterBody? at h
  split at h
  · next r =>
    obtain h | ⟨-, h⟩ := Option.or_eq_some_iff.1 h
    · obtain ⟨t, ht, hlong⟩ := longEscape_again h x
      show characterBody? (cut.1 ++ x) = _
      rw [ht, List.cons_append]
      show (characterBody?.longEscape? (t ++ x)).or _ = _
      rw [hlong, ht]
      rfl
    · cases r with
      | nil => cases h
      | cons a t =>
        dsimp only at h
        split at h
        · cases h
        · next ha =>
          obtain ⟨d, hd, rfl⟩ := Option.map_eq_some_iff.1 h
          have htaken : (extend ['\\', a] d).1 = ['\\', a, '\''] := congrArg (['\\', a] ++ ·) (closingQuote_again hd x).1
          rw [TakesAgain, htaken]
          -- What follows the character is the quote, so this is no long escape.
          have hshort : characterBody?.longEscape? (a :: '\'' :: x) = none := longEscape_quote a x
          show (characterBody?.longEscape? (a :: '\'' :: x)).or (if a == '\n' then none else _) = _
          rw [hshort, if_neg ha]
          rfl
  · next c r hc =>
    split at h
    · cases h
    · next hplain =>
      obtain ⟨d, hd, rfl⟩ := Option.map_eq_some_iff.1 h
      show characterBody? (c :: (d.1 ++ x)) = _
      rw [characterBody_other (fun he => hc he), if_neg hplain, (closingQuote_again hd x).2]
      rfl
  · cases h

def StartsBlank (x : List Char) : Prop := ∀ c ∈ x.head?, isBlank c = true

theorem StartsBlank.isWord (hx : StartsBlank x) : ∀ c ∈ x.head?, isWord c = false :=
  fun c hc => isWord_of_isBlank (hx c hc)

theorem StartsBlank.ne (hx : StartsBlank x) {a : Char} (ha : isBlank a = false) : ∀ c ∈ x.head?, c ≠ a := by
  rintro c hc rfl
  exact absurd (ha.symm.trans (hx c hc)) (by decide)

/-- Word characters, and a blank behind them. -/
theorem StartsBlank.ne_of_word (hx : StartsBlank x) (cs : List Char) {a : Char} (hblank : isBlank a = false)
    (hword : Text.isWord a = false) : ∀ c ∈ (cs.takeWhile Text.isWord ++ x).head?, c ≠ a := by
  have hw : ∀ c ∈ cs.takeWhile Text.isWord, Text.isWord c = true := fun c => List.mem_takeWhile_imp
  generalize cs.takeWhile Text.isWord = w at hw
  cases w with
  | nil => exact hx.ne hblank
  | cons d w =>
    intro c hc hca
    cases hc
    exact absurd (hword.symm.trans (hca ▸ hw d (List.mem_cons_self ..))) (by decide)

theorem nameCut_eq_some {cut : Cut} (h : nameCut? cs = some cut) :
    ∃ c r, cs = c :: r ∧ isNameStart c = true ∧ cut = (c :: r.takeWhile isWord, r.dropWhile isWord) := by
  unfold nameCut? at h
  split at h
  · next c r =>
    split at h
    · next hc =>
      cases h
      exact ⟨c, r, rfl, hc, rfl⟩
    · cases h
  · cases h

theorem nameCut_again {cut : Cut} (h : nameCut? cs = some cut) (hx : StartsBlank x) : TakesAgain nameCut? cut x := by
  obtain ⟨c, r, rfl, hc, rfl⟩ := nameCut_eq_some h
  show nameCut? (c :: (r.takeWhile isWord ++ x)) = _
  rw [nameCut?, if_pos hc, spanOf_again r hx.isWord]
  rfl

/-- A name is an identifier; no mark of a raw one stands behind its first character. -/
theorem identifier_name {cut : Cut} (h : nameCut? cs = some cut) (hx : StartsBlank x) :
    TakesAgain identifier? cut x := by
  have hagain : nameCut? (cut.1 ++ x) = some (cut.1, x) := nameCut_again h hx
  obtain ⟨c, r, rfl, -, rfl⟩ := nameCut_eq_some h
  have hhash : (r.takeWhile isWord ++ x).head? ≠ some '#' := fun hhead =>
    hx.ne_of_word r (a := '#') (by decide) (by decide) _ hhead rfl
  exact (identifier_plain fun hraw => hhash hraw.2).trans hagain

theorem identifier_again {cut : Cut} (h : identifier? cs = some cut) (hx : StartsBlank x) :
    TakesAgain identifier? cut x := by
  unfold identifier? at h
  split at h
  · next r =>
    split at h
    · next c hc =>
      cases h
      have hagain : nameCut? (c.1 ++ x) = some (c.1, x) := nameCut_again hc hx
      show identifier? ('r' :: '#' :: (c.1 ++ x)) = _
      rw [identifier?.eq_1, hagain]
      rfl
    · exact identifier_name h hx
  · exact identifier_name h hx

theorem fraction_again (lead cs : List Char) (hx : StartsBlank x) :
    ∃ w, (fractionCut lead cs).1 = lead ++ w ∧ (∀ c ∈ w.head?, isWord c = false) ∧
      fractionCut lead (w ++ x) = (lead ++ w, x) := by
  fun_cases fractionCut lead cs with
  | case1 d t hd =>
    refine ⟨'.' :: d :: t.takeWhile isWord, ?_, ?_, ?_⟩
    · show lead ++ ['.', d] ++ t.takeWhile isWord = _
      rw [List.append_assoc]
      rfl
    · intro c hc
      cases hc
      decide
    · show fractionCut lead ('.' :: d :: (t.takeWhile isWord ++ x)) = _
      rw [fractionCut, if_pos hd, spanOf_again t hx.isWord]
      simp [extend]
  | case2 | case3 =>
    refine ⟨[], (List.append_nil lead).symm, fun c hc => (by cases hc), ?_⟩
    rw [List.nil_append, List.append_nil]
    cases x with
    | nil => rfl
    | cons c r => exact fraction_other (hx.ne (by decide) c rfl)

theorem number_again {cut : Cut} (h : number? cs = some cut) (hx : StartsBlank x) : TakesAgain number? cut x := by
  cases cs with
  | nil => cases h
  | cons c r =>
    rw [number_cons] at h
    split at h
    · next hc =>
      obtain ⟨w, hw, hword, hfraction⟩ := fraction_again (c :: r.takeWhile isWord) (r.dropWhile isWord) hx
      have hstop : ∀ d ∈ (w ++ x).head?, isWord d = false := by
        cases w with
        | nil => exact hx.isWord
        | cons d w => exact hword
      obtain ⟨htake, hdrop⟩ := Prod.mk.inj (spanOf_again (p := isWord) r hstop)
      cases h
      rw [TakesAgain, hw, List.append_assoc, List.cons_append, number_cons, if_pos hc, htake, hdrop, hfraction]
    · cases h

/-- No mark of a raw string reaches over a blank. -/
theorem rawOpening_eq_none {cs rest : List Char} (h : rawOpening? (cs ++ rest) = none) (hx : StartsBlank x) :
    rawOpening? (cs ++ x) = none := by
  cases ho : rawOpening? (cs ++ x) with
  | none => rfl
  | some o =>
    obtain ⟨lead, hlead, heq, hhash⟩ := rawOpening_eq_some.1 ho
    have hmark : cs ++ x = (lead ++ 'r' :: (o.1 ++ ['"'])) ++ o.2 := by rw [heq]; simp
    have hsolid : ∀ c ∈ lead ++ 'r' :: (o.1 ++ ['"']), isBlank c = false := by
      have hlead' : ∀ c ∈ lead, c = 'b' := by
        simp only [List.mem_cons, List.not_mem_nil, or_false] at hlead
        obtain rfl | rfl := hlead <;> simp
      intro c hc
      simp only [List.mem_append, List.mem_cons, List.not_mem_nil, or_false] at hc
      obtain hc | rfl | hc | rfl := hc
      · rw [hlead' c hc]
        decide
      · decide
      · rw [hhash c hc]
        decide
      · decide
    have hwhole : ∃ w, cs = lead ++ 'r' :: (o.1 ++ ['"']) ++ w := by
      obtain ⟨w, hw, hx'⟩ | ⟨w, hw, -⟩ := List.append_eq_append_iff.1 hmark
      · cases w with
        | nil => exact ⟨[], by rw [hw, List.append_nil, List.append_nil]⟩
        | cons c w =>
          have hc := hsolid c (hw ▸ List.mem_append_right cs (List.mem_cons_self ..))
          exact absurd (hc.symm.trans (hx c (by rw [hx']; rfl))) (by decide)
      · exact ⟨w, hw⟩
    obtain ⟨w, rfl⟩ := hwhole
    have hsome : rawOpening? (lead ++ 'r' :: (o.1 ++ ['"']) ++ w ++ rest) = some (o.1, w ++ rest) :=
      rawOpening_eq_some.2 ⟨lead, hlead, by simp, hhash⟩
    cases h.symm.trans hsome

end RingBridge.Source
