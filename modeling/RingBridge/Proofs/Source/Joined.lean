import RingBridge.Source.Group
import RingBridge.Proofs.Source.Balanced
/-!
Texts one below the other. A line feed ends what stands before it, so a text of whole tokens has the same tokens
whatever stands below it, and these are followed by those of what stands below.
-/
namespace RingBridge.Source
open Text

variable {cs x : List Char}

def Cut.above (x : List Char) (c : Cut) : Cut := (c.1, c.2 ++ '\n' :: x)

theorem map_extend_above {lead : List Char} {o o' : Option Cut} {cut : Cut}
    (ho : ∀ c, o = some c → o' = some (c.above x)) (h : o.map (extend lead) = some cut) :
    o'.map (extend lead) = some (cut.above x) := by
  obtain ⟨c, rfl, rfl⟩ := Option.map_eq_some_iff.1 h
  rw [ho c rfl]
  rfl

/-- A text that starts with another character than a line feed does so alone too. -/
theorem exists_of_above {a : Char} {t : List Char} (ha : a ≠ '\n') (h : cs ++ '\n' :: x = a :: t) :
    ∃ r, cs = a :: r ∧ t = r ++ '\n' :: x := by
  cases cs with
  | nil => exact absurd (List.cons.inj h).1.symm ha
  | cons c r =>
    obtain ⟨rfl, ht⟩ := List.cons.inj h
    exact ⟨r, rfl, ht.symm⟩

theorem takeWhile_above {p : Char → Bool} (hp : p '\n' = false) :
    (cs ++ '\n' :: x).takeWhile p = cs.takeWhile p := by
  induction cs with
  | nil => rw [List.nil_append, List.takeWhile_cons, hp, List.takeWhile_nil]; rfl
  | cons c cs ih => rw [List.cons_append, List.takeWhile_cons, List.takeWhile_cons, ih]

theorem dropWhile_above {p : Char → Bool} (hp : p '\n' = false) :
    (cs ++ '\n' :: x).dropWhile p = cs.dropWhile p ++ '\n' :: x := by
  induction cs with
  | nil => rw [List.nil_append, List.dropWhile_cons, hp, List.dropWhile_nil]; rfl
  | cons c cs ih =>
    rw [List.cons_append, List.dropWhile_cons, List.dropWhile_cons, ih]
    split <;> rfl

theorem spanOf_above {p : Char → Bool} (hp : p '\n' = false) :
    spanOf p (cs ++ '\n' :: x) = (spanOf p cs).above x := by
  rw [spanOf, takeWhile_above hp, dropWhile_above hp]
  rfl

theorem blockComment_above {depth : Nat} {cut : Cut} (h : blockComment depth cs = some cut) :
    blockComment depth (cs ++ '\n' :: x) = some (cut.above x) := by
  fun_induction blockComment depth cs generalizing cut with
  | case1 depth r ih => exact map_extend_above (fun c => ih) h
  | case2 depth r hd =>
    cases h
    show (if depth ≤ 1 then _ else _) = _
    rw [if_pos hd]
    rfl
  | case3 depth r hd ih =>
    show (if depth ≤ 1 then _ else _) = _
    rw [if_neg hd]
    exact map_extend_above (fun c => ih) h
  | case4 depth c r hopen hclose ih =>
    rw [List.cons_append, blockComment.eq_3]
    · exact map_extend_above (fun c => ih) h
    · intro t hc ht
      obtain ⟨u, hu, -⟩ := exists_of_above (by decide) ht
      exact hopen u hc hu
    · intro t hc ht
      obtain ⟨u, hu, -⟩ := exists_of_above (by decide) ht
      exact hclose u hc hu
  | case5 => cases h

theorem length_le_of_through {pattern : List Char} {cut : Cut} (h : through pattern cs = some cut) :
    pattern.length ≤ cs.length := by
  induction cs generalizing cut with
  | nil =>
    rw [through] at h
    split at h
    · next hp => simp [List.isEmpty_iff.1 hp]
    · cases h
  | cons c r ih =>
    rw [through] at h
    split at h
    · next hp => exact (List.isPrefixOf_iff_prefix.1 hp).length_le
    · obtain ⟨d, hd, -⟩ := Option.map_eq_some_iff.1 h
      exact Nat.le_succ_of_le (ih hd)

theorem through_above {pattern : List Char} {cut : Cut} (h : through pattern cs = some cut) :
    through pattern (cs ++ '\n' :: x) = some (cut.above x) := by
  induction cs generalizing cut with
  | nil =>
    rw [through] at h
    split at h
    · next hp =>
      cases h
      rw [List.isEmpty_iff.1 hp]
      rfl
    · cases h
  | cons c r ih =>
    rw [through] at h
    rw [List.cons_append, through]
    split at h
    · next hp =>
      cases h
      have hstarts := List.isPrefixOf_iff_prefix.1 hp
      have hlong : pattern.isPrefixOf (c :: (r ++ '\n' :: x)) = true :=
        List.isPrefixOf_iff_prefix.2 (hstarts.trans (List.prefix_append (c :: r) _))
      rw [if_pos hlong, ← List.cons_append, List.drop_append_of_le_length hstarts.length_le]
      rfl
    · next hp =>
      have hlong : ¬ pattern.isPrefixOf (c :: (r ++ '\n' :: x)) = true := by
        intro hlong
        refine hp (List.isPrefixOf_iff_prefix.2 ?_)
        obtain ⟨d, hd, -⟩ := Option.map_eq_some_iff.1 h
        -- The pattern is found further on, so it does not reach the text below.
        have hlen : pattern.length ≤ (c :: r).length := Nat.le_succ_of_le (length_le_of_through hd)
        exact List.prefix_of_prefix_length_le (List.isPrefixOf_iff_prefix.1 hlong)
          (List.prefix_append (c :: r) ('\n' :: x)) hlen
      rw [if_neg hlong]
      exact map_extend_above (fun c => ih) h

theorem stringBody_above {cut : Cut} (h : stringBody cs = some cut) :
    stringBody (cs ++ '\n' :: x) = some (cut.above x) := by
  fun_induction stringBody cs generalizing cut with
  | case1 c r ih => exact map_extend_above (fun c => ih) h
  | case2 r =>
    cases h
    rfl
  | case3 => cases h
  | case4 c r hescape hend hback ih =>
    rw [List.cons_append, stringBody.eq_4]
    · exact map_extend_above (fun c => ih) h
    · intro d t hc ht
      cases r with
      | nil => exact hback hc rfl
      | cons e r => exact hescape e r hc rfl
    · exact hend
    · intro hc ht
      exact absurd ht (by simp)
  | case5 => cases h

/-- How a function that looks at the first character alone deals with a text above others. -/
theorem above_of_head {f : List Char → Option Cut} {a : Char} (ha : a ≠ '\n')
    (hnil : f [] = none) (hother : ∀ c r, c ≠ a → f (c :: r) = none)
    (hhead : ∀ r, f (a :: (r ++ '\n' :: x)) = (f (a :: r)).map (Cut.above x)) :
    f (cs ++ '\n' :: x) = (f cs).map (Cut.above x) := by
  cases cs with
  | nil => rw [List.nil_append, hother _ _ ha.symm, hnil]; rfl
  | cons c r =>
    by_cases hc : c = a
    · subst hc
      exact hhead r
    · rw [List.cons_append, hother _ _ hc, hother _ _ hc]
      rfl

theorem closingQuote_other {c : Char} {r : List Char} (h : c ≠ '\'') : closingQuote? (c :: r) = none := by
  unfold closingQuote?
  split
  · next t ht => exact absurd (List.cons.inj ht).1 h
  · rfl

theorem closingQuote_above : closingQuote? (cs ++ '\n' :: x) = (closingQuote? cs).map (Cut.above x) :=
  above_of_head (by decide) rfl (fun _ _ => closingQuote_other) fun _ => rfl

theorem braced_other {c : Char} {r : List Char} (h : c ≠ '\x7b') : braced? (c :: r) = none := by
  unfold braced?
  split
  · next t ht => exact absurd (List.cons.inj ht).1 h
  · rfl

theorem braced_above : braced? (cs ++ '\n' :: x) = (braced? cs).map (Cut.above x) := by
  have hhex : isHexDigit '\n' = false := by decide
  refine above_of_head (by decide) rfl (fun _ _ => braced_other) fun r => ?_
  rw [braced?.eq_1, braced?.eq_1]
  rw [takeWhile_above hhex, dropWhile_above hhex]
  generalize r.dropWhile isHexDigit = u
  cases u with
  | nil => rfl
  | cons d u =>
    by_cases hd : d = '\x7d'
    · subst hd
      show (if _ then _ else _) = Option.map _ (if _ then _ else _)
      split <;> rfl
    · rw [List.cons_append]
      split
      · next ht => exact absurd (List.cons.inj ht).1 hd
      · split
        · next ht => exact absurd (List.cons.inj ht).1 hd
        · rfl

theorem map_extend_closingQuote (lead : List Char) :
    (closingQuote? (cs ++ '\n' :: x)).map (extend lead) = ((closingQuote? cs).map (extend lead)).map (Cut.above x) := by
  rw [closingQuote_above]
  cases closingQuote? cs <;> rfl

theorem longEscape_other {c : Char} {r : List Char} (hx : c ≠ 'x') (hu : c ≠ 'u') :
    characterBody?.longEscape? (c :: r) = none := by
  unfold characterBody?.longEscape?
  split
  · next ht => exact absurd (List.cons.inj ht).1 hx
  · next ht => exact absurd (List.cons.inj ht).1 hu
  · rfl

theorem longEscape_above :
    characterBody?.longEscape? (cs ++ '\n' :: x) = (characterBody?.longEscape? cs).map (Cut.above x) := by
  have hhex : isHexDigit '\n' = false := by decide
  cases cs with
  | nil => exact longEscape_other (by decide) (by decide)
  | cons c r =>
    by_cases hu : c = 'u'
    · subst hu
      rw [List.cons_append, characterBody?.longEscape?.eq_2, characterBody?.longEscape?.eq_2, braced_above]
      cases braced? r with
      | none => rfl
      | some c => exact map_extend_closingQuote _
    by_cases hx : c = 'x'
    · subst hx
      match r with
      | a :: b :: r =>
        show (if _ then _ else _) = Option.map _ (if _ then _ else _)
        split
        · exact map_extend_closingQuote _
        · rfl
      | [a] => simp [characterBody?.longEscape?, hhex]
      | [] => cases x <;> simp [characterBody?.longEscape?, hhex]
    · rw [List.cons_append, longEscape_other hx hu, longEscape_other hx hu]
      rfl

theorem characterBody_other {c : Char} {r : List Char} (h : c ≠ '\\') : characterBody? (c :: r) =
    if c == '\'' || c == '\n' then none else (closingQuote? r).map (extend [c]) := by
  unfold characterBody?
  split
  · next ht => exact absurd (List.cons.inj ht).1 h
  · next ht =>
    cases ht
    rfl
  · next ht => cases ht

theorem characterBody_above : characterBody? (cs ++ '\n' :: x) = (characterBody? cs).map (Cut.above x) := by
  cases cs with
  | nil => rfl
  | cons c r =>
    by_cases hc : c = '\\'
    · subst hc
      cases r with
      | nil =>
        rw [List.cons_append, List.nil_append, characterBody?.eq_1, longEscape_other (by decide) (by decide)]
        rfl
      | cons d t =>
        rw [List.cons_append, List.cons_append, characterBody?.eq_1, characterBody?.eq_1, ← List.cons_append,
          longEscape_above]
        cases characterBody?.longEscape? (d :: t) with
        | some cut => rfl
        | none =>
          show (if _ then _ else _) = Option.map _ (if _ then _ else _)
          split
          · rfl
          · exact map_extend_closingQuote _
    · rw [List.cons_append, characterBody_other hc, characterBody_other hc]
      split
      · rfl
      · exact map_extend_closingQuote _

theorem nameCut_above : nameCut? (cs ++ '\n' :: x) = (nameCut? cs).map (Cut.above x) := by
  have hword : isWord '\n' = false := by decide
  cases cs with
  | nil => rfl
  | cons c r =>
    rw [List.cons_append, nameCut?, nameCut?, spanOf_above hword]
    split <;> rfl

theorem identifier_plain {c : Char} {r : List Char} (h : ¬ (c = 'r' ∧ r.head? = some '#')) :
    identifier? (c :: r) = nameCut? (c :: r) := by
  unfold identifier?
  split
  · next t ht =>
    obtain ⟨hc, hr⟩ := List.cons.inj ht
    exact absurd ⟨hc, by rw [hr]; rfl⟩ h
  · rfl

theorem identifier_above : identifier? (cs ++ '\n' :: x) = (identifier? cs).map (Cut.above x) := by
  cases cs with
  | nil => rfl
  | cons c r =>
    by_cases h : c = 'r' ∧ r.head? = some '#'
    · obtain ⟨rfl, hr⟩ := h
      obtain ⟨t, rfl⟩ := List.head?_eq_some_iff.1 hr
      rw [List.cons_append, List.cons_append, identifier?.eq_1, identifier?.eq_1, nameCut_above]
      cases nameCut? t with
      | some cut => rfl
      | none => rfl
    · have habove : ¬ (c = 'r' ∧ (r ++ '\n' :: x).head? = some '#') := by
        cases r with
        | nil => simp
        | cons d t => exact h
      rw [List.cons_append, identifier_plain habove, identifier_plain h, ← List.cons_append, nameCut_above]

def fractionCut (lead : List Char) : List Char → Cut
  | '.' :: d :: t => if isDigit d then extend (lead ++ ['.', d]) (spanOf isWord t) else (lead, '.' :: d :: t)
  | t => (lead, t)

theorem number_cons (c : Char) (r : List Char) : number? (c :: r) =
    if isDigit c then some (fractionCut (c :: r.takeWhile isWord) (r.dropWhile isWord)) else none := by
  rw [number?]
  generalize r.dropWhile isWord = u
  split
  · fun_cases fractionCut (c :: r.takeWhile isWord) u with
    | case1 d t hd => exact if_pos hd
    | case2 d t hd => exact if_neg hd
    | case3 _ hne =>
      split
      · exact absurd rfl (hne _ _)
      · rfl
  · rfl

theorem fraction_other {lead r : List Char} {c : Char} (h : c ≠ '.') : fractionCut lead (c :: r) = (lead, c :: r) := by
  unfold fractionCut
  split
  · next ht => exact absurd (List.cons.inj ht).1 h
  · rfl

theorem fraction_above (lead : List Char) : fractionCut lead (cs ++ '\n' :: x) = (fractionCut lead cs).above x := by
  have hword : isWord '\n' = false := by decide
  have hdigit : isDigit '\n' = false := by decide
  cases cs with
  | nil => exact fraction_other (by decide)
  | cons c r =>
    by_cases hc : c = '.'
    · subst hc
      cases r with
      | nil =>
        rw [List.cons_append, List.nil_append, fractionCut, hdigit]
        rfl
      | cons d t =>
        rw [List.cons_append, List.cons_append, fractionCut, fractionCut, spanOf_above hword]
        split <;> rfl
    · rw [List.cons_append, fraction_other hc, fraction_other hc]
      rfl

theorem number_above : number? (cs ++ '\n' :: x) = (number? cs).map (Cut.above x) := by
  have hword : isWord '\n' = false := by decide
  cases cs with
  | nil => rfl
  | cons c r =>
    rw [List.cons_append, number_cons, number_cons, takeWhile_above hword, dropWhile_above hword, fraction_above]
    split <;> rfl

def Lexeme.above (x : List Char) (l : Lexeme) : Lexeme := { l with rest := l.rest ++ '\n' :: x }

theorem rawMark_other {c : Char} {r : List Char} (h : c ≠ 'r') : rawMark? (c :: r) = none := by
  unfold rawMark?
  split
  · next ht => exact absurd (List.cons.inj ht).1 h
  · rfl

theorem rawMark_above : rawMark? (cs ++ '\n' :: x) = (rawMark? cs).map (Cut.above x) := by
  have hhash : ('\n' == '#') = false := by decide
  refine above_of_head (by decide) rfl (fun _ _ => rawMark_other) fun r => ?_
  rw [rawMark?.eq_1, rawMark?.eq_1, takeWhile_above hhash, dropWhile_above hhash]
  generalize r.dropWhile (· == '#') = u
  cases u with
  | nil => rfl
  | cons d u =>
    by_cases hd : d = '"'
    · subst hd
      rfl
    · rw [List.cons_append]
      split
      · next ht => exact absurd (List.cons.inj ht).1 hd
      · split
        · next ht => exact absurd (List.cons.inj ht).1 hd
        · rfl

theorem rawOpening_other {c : Char} {r : List Char} (h : c ≠ 'b') : rawOpening? (c :: r) = rawMark? (c :: r) := by
  unfold rawOpening?
  split
  · next ht => exact absurd (List.cons.inj ht).1 h
  · rfl

theorem rawOpening_above : rawOpening? (cs ++ '\n' :: x) = (rawOpening? cs).map (Cut.above x) := by
  cases cs with
  | nil => exact rawMark_other (by decide)
  | cons c r =>
    by_cases hc : c = 'b'
    · subst hc
      exact rawMark_above
    · rw [List.cons_append, rawOpening_other hc, rawOpening_other hc, ← List.cons_append, rawMark_above]

theorem raw_above {opening : Cut} {l : Lexeme} (h : raw cs opening = .ok l) :
    raw (cs ++ '\n' :: x) (opening.above x) = .ok (l.above x) := by
  unfold raw at h
  split at h
  · next cut hcut =>
    cases h
    have hlen : (cs ++ '\n' :: x).length - (opening.2 ++ '\n' :: x).length = cs.length - opening.2.length := by
      simp only [List.length_append]
      omega
    have htake : (cs ++ '\n' :: x).take (cs.length - opening.2.length) = cs.take (cs.length - opening.2.length) :=
      List.take_append_of_le_length (Nat.sub_le ..)
    have hthrough : through ('"' :: opening.1) (opening.2 ++ '\n' :: x) = some (cut.above x) := through_above hcut
    simp only [raw, Cut.above, hthrough, hlen, htake]
    rfl
  · cases h

theorem quoted_above {lead : List Char} {body body' : Option Cut} {cause : LexCause} {l : Lexeme}
    (hb : ∀ c, body = some c → body' = some (c.above x)) (h : quoted lead body cause = .ok l) :
    quoted lead body' cause = .ok (l.above x) := by
  unfold quoted at h
  split at h
  · next c =>
    cases h
    rw [hb c rfl]
    rfl
  · cases h

theorem character_above {lead : List Char} {l : Lexeme} (h : character lead cs = .ok l) :
    character lead (cs ++ '\n' :: x) = .ok (l.above x) := by
  rw [character, characterBody_above, nameCut_above]
  unfold character at h
  split at h
  · next c hc =>
    cases h
    rw [hc]
    rfl
  · next hc =>
    rw [hc]
    split at h
    · next hlead =>
      split at h
      · next c hn =>
        cases h
        rw [hn]
        exact if_pos hlead
      · cases h
    · cases h

theorem plain_above (c : Char) (r : List Char) :
    plain (c :: (r ++ '\n' :: x)) c (r ++ '\n' :: x) = (plain (c :: r) c r).above x := by
  unfold plain
  rw [← List.cons_append, identifier_above, number_above]
  cases identifier? (c :: r) with
  | some i => rfl
  | none =>
    cases number? (c :: r) with
    | some n => rfl
    | none =>
      -- A line feed is no part of a pair, so only characters of the text itself make one.
      have hpair : ∀ {a b : Char} {t : List Char}, b ≠ '\n' → c :: r ++ '\n' :: x = a :: b :: t →
          ∃ u, c = a ∧ r = b :: u ∧ t = u ++ '\n' :: x := by
        intro a b t hb ht
        obtain ⟨hc, hr⟩ := List.cons.inj ht
        obtain ⟨u, hu, ht⟩ := exists_of_above hb hr
        exact ⟨u, hc, hu, ht⟩
      dsimp only [Option.map]
      split
      · next ht =>
        obtain ⟨u, rfl, rfl, rfl⟩ := hpair (by decide) ht
        rfl
      · next ht =>
        obtain ⟨u, rfl, rfl, rfl⟩ := hpair (by decide) ht
        rfl
      · next ht =>
        obtain ⟨u, rfl, rfl, rfl⟩ := hpair (by decide) ht
        rfl
      · next h1 h2 h3 =>
        split
        · next ht => exact absurd (congrArg (· ++ '\n' :: x) ht) (h1 _)
        · next ht => exact absurd (congrArg (· ++ '\n' :: x) ht) (h2 _)
        · next ht => exact absurd (congrArg (· ++ '\n' :: x) ht) (h3 _)
        · rfl

theorem lexeme_blockComment {t : List Char} {cut : Cut} (h : blockComment 1 t = some cut) :
    lexeme '/' ('*' :: t) =
      .ok (.of (if isBlockDoc ('/' :: '*' :: cut.1) then some .doc else none) (extend ['/', '*'] cut)) := by
  rw [lexeme.eq_def, if_neg (by decide)]
  simp only [h]
  rfl

/-- A lexeme takes the same part of a text that stands above another one. -/
theorem lexeme_above {c : Char} {r : List Char} {l : Lexeme} (h : lexeme c r = .ok l) :
    lexeme c (r ++ '\n' :: x) = .ok (l.above x) := by
  unfold lexeme at h
  split at h
  · next hblank =>
    cases h
    rw [lexeme.eq_def, if_pos hblank]
    rfl
  · next hblank =>
    split at h
    · next t =>
      cases h
      have hspan : spanOf (· != '\n') (('/' :: '/' :: t) ++ '\n' :: x) =
          (spanOf (· != '\n') ('/' :: '/' :: t)).above x := spanOf_above (by decide)
      rw [List.cons_append, List.cons_append] at hspan
      rw [lexeme.eq_def, if_neg hblank, List.cons_append, hspan]
      rfl
    · next t =>
      split at h
      · next cut hcut =>
        cases h
        exact lexeme_blockComment (blockComment_above hcut)
      · cases h
    · next hline hblock =>
      rw [lexeme.eq_def, if_neg hblank]
      have hhead : ∀ {a : Char} {t : List Char}, a ≠ '\n' → r ++ '\n' :: x = a :: t → ∃ u, r = a :: u :=
        fun ha ht => (exists_of_above ha ht).imp fun _ hu => hu.1
      split
      · next ht =>
        obtain ⟨u, rfl⟩ := hhead (by decide) ht
        exact (hline u rfl rfl).elim
      · next ht =>
        obtain ⟨u, rfl⟩ := hhead (by decide) ht
        exact (hblock u rfl rfl).elim
      · rw [← List.cons_append, rawOpening_above]
        split at h
        · next opening ho =>
          rw [ho]
          exact raw_above h
        · next ho =>
          rw [ho]
          dsimp only [Option.map]
          split at h
          · exact quoted_above (fun _ => stringBody_above) h
          · exact quoted_above (fun _ => stringBody_above) h
          · exact character_above h
          · exact character_above h
          · next hstring hchar hbytes hbyte =>
            cases h
            split
            · exact (hstring rfl).elim
            · next ht _ _ =>
              obtain ⟨u, rfl⟩ := hhead (by decide) ht
              exact (hbytes u rfl rfl).elim
            · exact (hchar rfl).elim
            · next ht _ _ =>
              obtain ⟨u, rfl⟩ := hhead (by decide) ht
              exact (hbyte u rfl rfl).elim
            · exact congrArg Except.ok (plain_above _ r)

theorem tokensFrom_nil (line : Nat) : tokensFrom line [] = .ok [] := by rw [tokensFrom.eq_def]

theorem tokensFrom_cons {line : Nat} {c : Char} {r : List Char} {l : Lexeme} (h : lexeme c r = .ok l) :
    tokensFrom line (c :: r) =
      (tokensFrom (line + l.source.count '\n') l.rest).map ((l.token? line).toList ++ ·) := by
  rw [tokensFrom.eq_def]
  split
  · next he => cases he
  · next c' r' he =>
    cases he
    split
    · next hl => rw [h] at hl; cases hl
    · next hl =>
      rw [h] at hl
      cases hl
      cases tokensFrom (line + l.source.count '\n') l.rest <;> rfl

def Lexes (cs : List Char) (ws : List Word) : Prop :=
  ∀ line, ∃ ts, tokensFrom line cs = .ok ts ∧ ts.map Token.word = ws

theorem Lexeme.word_token (l : Lexeme) (line line' : Nat) :
    (l.token? line).toList.map Token.word = (l.token? line').toList.map Token.word := by
  unfold token?
  cases l.kind <;> rfl

theorem lexes_of_tokensFrom {line : Nat} {ts : List Token} (h : tokensFrom line cs = .ok ts) :
    Lexes cs (ts.map Token.word) := by
  intro line'
  fun_induction tokensFrom line cs generalizing ts line' with
  | case1 =>
    cases h
    exact ⟨[], tokensFrom_nil line', rfl⟩
  | case2 => cases h
  | case3 => cases h
  | case4 line c r l hl rest hrest ih =>
    cases h
    obtain ⟨rest', hrest', hwords⟩ := ih hrest (line' + l.source.count '\n')
    refine ⟨(l.token? line').toList ++ rest', ?_, ?_⟩
    · rw [tokensFrom_cons hl, hrest']
      rfl
    · rw [List.map_append, List.map_append, hwords, l.word_token line' line]

/-- Of two texts one below the other, the words come one after the other. -/
theorem Lexes.below {ws vs : List Word} (h : Lexes cs ws) (hx : Lexes x vs) : Lexes (cs ++ '\n' :: x) (ws ++ vs) := by
  intro line
  obtain ⟨ts, hts, rfl⟩ := h line
  clear h
  fun_induction tokensFrom line cs generalizing ts with
  | case1 line =>
    cases hts
    obtain ⟨us, hus, hvs⟩ := hx (line + ['\n'].count '\n')
    refine ⟨us, ?_, hvs⟩
    have hfeed : lexeme '\n' x = .ok ⟨none, ['\n'], x⟩ := by rw [lexeme.eq_def, if_pos (by decide)]
    rw [List.nil_append, tokensFrom_cons hfeed, hus]
    rfl
  | case2 => cases hts
  | case3 => cases hts
  | case4 line c r l hl rest hrest ih =>
    cases hts
    obtain ⟨us, hus, hwords⟩ := ih rest hrest
    refine ⟨(l.token? line).toList ++ us, ?_, ?_⟩
    · rw [List.cons_append, tokensFrom_cons (lexeme_above hl)]
      show (tokensFrom _ (l.rest ++ '\n' :: x)).map _ = _
      rw [show (l.above x).source = l.source from rfl, hus]
      rfl
    · rw [List.map_append, List.map_append, hwords, List.append_assoc]

end RingBridge.Source
