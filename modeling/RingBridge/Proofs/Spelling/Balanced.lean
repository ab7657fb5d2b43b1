import RingBridge.Spelling
/-!
Texts whose brackets of some kinds match, where the `>` of an arrow is no bracket. A cut at separators, which counts all
kinds of brackets, passes over such a text as a whole, and so does the search for a closing bracket, which counts only
its own kind. Conversely, that search finds only brackets with such a text in front of them.
-/
namespace RingBridge.Spelling
open Text

def openers : List Char := ['<', '(', '[', '\x7b']

def IsBracket (kinds : List Char) (c : Char) : Prop := ∃ o ∈ kinds, c = o ∨ closer? o = some c

instance (kinds : List Char) (c : Char) : Decidable (IsBracket kinds c) := List.decidableBEx ..

/-- Texts in which the brackets of some kinds match. The character `avoid`, if there is one, does not stand outside of all
    of them. -/
inductive WellNested (kinds : List Char) : (avoid : Option Char) → List Char → Prop
  | nil {a} : WellNested kinds a []
  | plain {a c r} (hc : ¬ IsBracket kinds c) (ha : a ≠ some c) (h : WellNested kinds a r) : WellNested kinds a (c :: r)
  | arrow {a r} (ha : a ≠ some '-') (h : WellNested kinds a r) : WellNested kinds a ('-' :: '>' :: r)
  | group {a o c i r} (ho : o ∈ kinds) (hc : closer? o = some c) (hi : WellNested kinds none i)
      (hlast : c = '>' → i.getLast? ≠ some '-') (h : WellNested kinds a r) : WellNested kinds a (o :: (i ++ c :: r))

theorem WellNested.append {kinds : List Char} {a : Option Char} {cs ds : List Char} (h : WellNested kinds a cs)
    (hd : WellNested kinds a ds) : WellNested kinds a (cs ++ ds) := by
  induction h with
  | nil => exact hd
  | plain hc ha _ ih => exact .plain hc ha (ih hd)
  | arrow ha _ ih => exact .arrow ha (ih hd)
  | group ho hc hi hlast _ _ ih =>
    rw [List.cons_append, List.append_assoc, List.cons_append]
    exact .group ho hc hi hlast (ih hd)

theorem WellNested.of_plain {kinds : List Char} {a : Option Char} {cs : List Char}
    (h : ∀ c ∈ cs, ¬ IsBracket kinds c ∧ a ≠ some c) : WellNested kinds a cs := by
  induction cs with
  | nil => exact .nil
  | cons c r ih =>
    obtain ⟨hc, hr⟩ := List.forall_mem_cons.1 h
    exact .plain hc.1 hc.2 (ih hr)

theorem closer_cases {o c : Char} (h : closer? o = some c) :
    (o = '<' ∧ c = '>') ∨ (o = '(' ∧ c = ')') ∨ (o = '[' ∧ c = ']') ∨ (o = '\x7b' ∧ c = '\x7d') := by
  unfold closer? at h
  split at h <;> simp_all [eq_comm]

theorem mem_openers {o c : Char} (h : closer? o = some c) : o ∈ openers := by
  obtain ⟨rfl, _⟩ | ⟨rfl, _⟩ | ⟨rfl, _⟩ | ⟨rfl, _⟩ := closer_cases h <;> decide

/-- A text in which a separator stands only inside of brackets does not end in one. -/
theorem WellNested.getLast?_ne {sep : Char} (hsep : ¬ IsBracket openers sep) {cs : List Char}
    (h : WellNested openers (some sep) cs) : cs.getLast? ≠ some sep := by
  generalize ha : some sep = a at h
  induction h with
  | nil => simp [← ha]
  | @plain a c r _ hne _ ih =>
    subst ha
    rw [List.getLast?_cons]
    cases hr : r.getLast? with
    | none => exact fun he => hne he.symm
    | some d => exact hr ▸ ih rfl
  | @arrow a r _ _ ih =>
    subst ha
    have hangle : '>' ≠ sep := fun he => hsep (he ▸ by decide)
    rw [List.getLast?_cons, List.getLast?_cons]
    cases hr : r.getLast? with
    | none => exact fun he => hangle (Option.some.inj he)
    | some d => exact hr ▸ ih rfl
  | @group a o c i r ho hc _ _ _ _ ih =>
    subst ha
    have hclose : c ≠ sep := fun he => hsep (he ▸ ⟨o, ho, .inr hc⟩)
    rw [List.getLast?_cons, List.getLast?_append, List.getLast?_cons]
    cases hr : r.getLast? with
    | none => exact fun he => hclose (Option.some.inj he)
    | some d => exact hr ▸ ih rfl

def before (prev : Option Char) (cs : List Char) : Option Char := cs.getLast?.or prev

theorem before_cons (prev : Option Char) (c : Char) (r : List Char) : before prev (c :: r) = before (some c) r := by
  rw [before, before, List.getLast?_cons]
  cases r.getLast? <;> rfl

theorem before_group (prev : Option Char) (o : Char) (i : List Char) (c : Char) (r : List Char) :
    before prev (o :: (i ++ c :: r)) = before (some c) r := by
  rw [before_cons, before, before, List.getLast?_append, List.getLast?_cons]
  cases r.getLast? <;> rfl

/-- In front of the bracket that closes a group, no arrow is begun. -/
theorem before_ne_dash {o c : Char} {i : List Char} (hc : closer? o = some c) (hlast : c = '>' → i.getLast? ≠ some '-') :
    c = '>' → before (some o) i ≠ some '-' := by
  intro hangle
  have hlast := hlast hangle
  unfold before
  cases hi : i.getLast? with
  | none =>
    obtain ⟨rfl, _⟩ | ⟨rfl, _⟩ | ⟨rfl, _⟩ | ⟨rfl, _⟩ := closer_cases hc <;> simp
  | some d =>
    rw [hi] at hlast
    exact hlast

theorem nesting_other {c : Char} (hc : ¬ IsBracket openers c) (prev : Option Char) : nesting prev c = 0 := by
  have hc : c ∉ ['<', '(', '[', '\x7b'] ∧ c ∉ [')', ']', '\x7d'] ∧ c ≠ '>' := by
    refine ⟨fun h => hc ⟨c, h, .inl rfl⟩, fun h => hc ?_, fun h => hc ?_⟩
    · simp only [List.mem_cons, List.not_mem_nil, or_false] at h
      obtain rfl | rfl | rfl := h <;> decide
    · subst h
      decide
  simp [nesting, hc]

theorem nesting_arrow : nesting (some '-') '>' = 0 := rfl

theorem nesting_opener {o c : Char} (h : closer? o = some c) (prev : Option Char) : nesting prev o = 1 := by
  obtain ⟨rfl, _⟩ | ⟨rfl, _⟩ | ⟨rfl, _⟩ | ⟨rfl, _⟩ := closer_cases h <;> rfl

theorem nesting_closer {o c : Char} (h : closer? o = some c) {prev : Option Char} (hp : c = '>' → prev ≠ some '-') :
    nesting prev c = -1 := by
  obtain ⟨_, rfl⟩ | ⟨_, rfl⟩ | ⟨_, rfl⟩ | ⟨_, rfl⟩ := closer_cases h <;> simp_all [nesting]

theorem splitFrom_step {sep c : Char} {depth : Int} {prev : Option Char} (part r : List Char)
    (h : nesting prev c ≠ 0 ∨ c ≠ sep ∨ depth ≠ 0) :
    splitFrom sep depth prev part (c :: r) = splitFrom sep (depth + nesting prev c) (some c) (c :: part) r := by
  rw [splitFrom, if_neg]
  simp only [Bool.and_eq_true, beq_iff_eq]
  rintro ⟨⟨h1, h2⟩, h3⟩
  obtain h | h | h := h
  · exact h h1
  · exact h h2
  · exact h h3

/-- A cut passes over a text whose brackets match, if separators do not stand outside of them or brackets are open. -/
theorem splitFrom_wellNested {sep : Char} (hsep : ¬ IsBracket openers sep) {a : Option Char} {cs : List Char}
    (h : WellNested openers a cs) (rest : List Char) : ∀ (depth : Int) (prev : Option Char) (part : List Char), 0 ≤ depth →
      (depth = 0 → a = some sep) →
      splitFrom sep depth prev part (cs ++ rest) = splitFrom sep depth (before prev cs) (cs.reverse ++ part) rest := by
  have hstep : ∀ {a : Option Char} {c : Char} {depth : Int} {prev : Option Char} (part r : List Char),
      (depth = 0 → a = some sep) → a ≠ some c → nesting prev c = 0 →
      splitFrom sep depth prev part (c :: r) = splitFrom sep depth (some c) (c :: part) r := by
    intro a c depth prev part r hdepth ha hnesting
    rw [splitFrom_step _ _ ?_, hnesting, Int.add_zero]
    by_cases h0 : depth = 0
    · exact .inr (.inl fun he => ha (he ▸ hdepth h0))
    · exact .inr (.inr h0)
  induction h generalizing rest with
  | nil => exact fun _ _ _ _ _ => rfl
  | plain hc ha _ ih =>
    intro depth prev part h0 hdepth
    rw [List.cons_append, hstep part _ hdepth ha (nesting_other hc prev), ih rest _ _ _ h0 hdepth, before_cons]
    simp
  | @arrow a r ha _ ih =>
    intro depth prev part h0 hdepth
    have hangle : '>' ≠ sep := fun he => hsep (he ▸ by decide)
    have hdash : splitFrom sep depth prev part ('-' :: '>' :: (r ++ rest)) =
        splitFrom sep depth (some '-') ('-' :: part) ('>' :: (r ++ rest)) :=
      hstep part _ hdepth ha (nesting_other (by decide) prev)
    rw [List.cons_append, List.cons_append, hdash, splitFrom_step _ _ (.inr (.inl hangle)), nesting_arrow, Int.add_zero,
      ih rest _ _ _ h0 hdepth, before_cons, before_cons]
    simp
  | @group a o c i r ho hc hi hlast _ ihi ih =>
    intro depth prev part h0 hdepth
    have hopen := nesting_opener hc prev
    have hclose := nesting_closer hc (before_ne_dash hc hlast)
    have hinner := ihi (c :: (r ++ rest)) (depth + 1) (some o) (o :: part) (by omega) (by omega)
    rw [List.cons_append, List.append_assoc, List.cons_append, splitFrom_step _ _ (.inl (by omega)), hopen, hinner,
      splitFrom_step _ _ (.inl (by omega)), hclose, show depth + 1 + -1 = depth by omega, ih rest _ _ _ h0 hdepth,
      before_group]
    simp

theorem splitFrom_sep {sep : Char} (hsep : ¬ IsBracket openers sep) {a : List Char} (h : WellNested openers (some sep) a)
    (prev : Option Char) (rest : List Char) :
    splitFrom sep 0 prev [] (a ++ sep :: rest) = trim a :: splitFrom sep 0 (some sep) [] rest := by
  have hz := nesting_other hsep (before prev a)
  rw [splitFrom_wellNested hsep h _ 0 prev [] (Int.le_refl 0) fun _ => rfl, splitFrom, if_pos (by simp [hz]), List.append_nil,
    List.reverse_reverse]

theorem splitFrom_end {sep : Char} (hsep : ¬ IsBracket openers sep) {a : List Char} (h : WellNested openers (some sep) a)
    (prev : Option Char) : splitFrom sep 0 prev [] a = if (trim a).isEmpty then [] else [trim a] := by
  have hpass := splitFrom_wellNested hsep h [] 0 prev [] (Int.le_refl 0) fun _ => rfl
  rw [List.append_nil, List.append_nil] at hpass
  rw [hpass, splitFrom, List.reverse_reverse]

/-- A part of a list: brackets match, the separator stands only inside of them, and there is something, with no blank at
    its ends. -/
structure IsPart (sep : Char) (a : List Char) : Prop where
  nested : WellNested openers (some sep) a
  trimmed : trim a = a
  nonempty : a ≠ []

/-- The parts of a list are found again, also with one separator behind them. -/
theorem splitFrom_intercalate {sep : Char} (hsep : ¬ IsBracket openers sep) {as : List (List Char)}
    (h : ∀ a ∈ as, IsPart sep a) (hne : as ≠ []) (prev : Option Char) :
    splitFrom sep 0 prev [] ([sep].intercalate as) = as ∧ splitFrom sep 0 prev [] ([sep].intercalate as ++ [sep]) = as := by
  induction as generalizing prev with
  | nil => exact absurd rfl hne
  | cons a r ih =>
    obtain ⟨ha, hr⟩ := List.forall_mem_cons.1 h
    cases r with
    | nil =>
      rw [List.intercalate_singleton, splitFrom_end hsep ha.nested, splitFrom_sep hsep ha.nested, splitFrom_end hsep .nil, ha.trimmed,
        if_neg (mt List.isEmpty_iff.1 ha.nonempty)]
      exact ⟨rfl, rfl⟩
    | cons b r =>
      obtain ⟨h1, h2⟩ := ih hr nofun (some sep)
      rw [List.intercalate_cons_cons, List.append_assoc, List.append_assoc, List.append_assoc, List.singleton_append,
        List.singleton_append, splitFrom_sep hsep ha.nested, splitFrom_sep hsep ha.nested, h1, h2, ha.trimmed]
      exact ⟨rfl, rfl⟩

theorem isBracket_angle {c : Char} : IsBracket ['<'] c ↔ c = '<' ∨ c = '>' := by
  simp [IsBracket, closer?, eq_comm]

/-- Brackets that match among more kinds match among fewer. -/
theorem WellNested.angles {a : Option Char} {cs : List Char} (h : WellNested openers a cs) : WellNested ['<'] none cs := by
  induction h with
  | nil => exact .nil
  | @plain a c r hc _ _ ih =>
    refine .plain (fun hangle => hc ?_) nofun ih
    obtain rfl | rfl := isBracket_angle.1 hangle <;> decide
  | arrow _ _ ih => exact .arrow nofun ih
  | @group a o c i r ho hc hi hlast _ ihi ih =>
    obtain ⟨rfl, rfl⟩ | hother := closer_cases hc
    · exact .group (List.mem_singleton_self _) rfl ihi hlast ih
    · have hplain : ¬ IsBracket ['<'] o ∧ ¬ IsBracket ['<'] c := by
        obtain ⟨rfl, rfl⟩ | ⟨rfl, rfl⟩ | ⟨rfl, rfl⟩ := hother <;> decide
      exact .plain hplain.1 nofun (ihi.append (.plain hplain.2 nofun ih))

theorem closingFrom_other {c : Char} (hc : ¬ IsBracket ['<'] c) (depth : Nat) (prev : Char) (i : Nat) (r : List Char) :
    closingFrom '<' '>' depth prev i (c :: r) = closingFrom '<' '>' depth c (i + 1) r := by
  obtain ⟨h1, h2⟩ := not_or.1 (mt isBracket_angle.2 hc)
  simp [closingFrom, h1, h2]

theorem closingFrom_arrow (depth : Nat) (prev : Char) (i : Nat) (r : List Char) :
    closingFrom '<' '>' depth prev i ('-' :: '>' :: r) = closingFrom '<' '>' depth '>' (i + 2) r := by
  simp [closingFrom]

/-- The search for a closing angle bracket passes over a text whose angle brackets match. -/
theorem closingFrom_wellNested {a : Option Char} {cs : List Char} (h : WellNested ['<'] a cs) (rest : List Char) :
    ∀ (depth : Nat) (prev : Char) (i : Nat), 1 ≤ depth → ∃ last, before (some prev) cs = some last ∧
      closingFrom '<' '>' depth prev i (cs ++ rest) = closingFrom '<' '>' depth last (i + cs.length) rest := by
  induction h generalizing rest with
  | nil => exact fun depth prev i _ => ⟨prev, rfl, rfl⟩
  | @plain a c r hc _ _ ih =>
    intro depth prev i hdepth
    obtain ⟨last, hlast, he⟩ := ih rest depth c (i + 1) hdepth
    refine ⟨last, by rw [before_cons, hlast], ?_⟩
    rw [List.cons_append, closingFrom_other hc, he, List.length_cons, Nat.add_right_comm, Nat.add_assoc]
  | @arrow a r _ _ ih =>
    intro depth prev i hdepth
    obtain ⟨last, hlast, he⟩ := ih rest depth '>' (i + 2) hdepth
    refine ⟨last, by rw [before_cons, before_cons, hlast], ?_⟩
    rw [List.cons_append, List.cons_append, closingFrom_arrow, he, List.length_cons, List.length_cons, Nat.add_right_comm,
      Nat.add_assoc]
  | @group a o c j r ho hc _ hlast _ ihi ih =>
    intro depth prev i hdepth
    obtain rfl := List.mem_singleton.1 ho
    obtain rfl : '>' = c := Option.some.inj hc
    obtain ⟨inner, hinner, hie⟩ := ihi ('>' :: (r ++ rest)) (depth + 1) '<' (i + 1) (by omega)
    obtain ⟨last, hl, he⟩ := ih rest depth '>' (i + 1 + j.length + 1) hdepth
    have hdash : inner ≠ '-' := fun hd => before_ne_dash hc hlast rfl (hd ▸ hinner)
    have hlen : i + ('<' :: (j ++ '>' :: r)).length = i + 1 + j.length + 1 + r.length := by
      simp only [List.length_cons, List.length_append]
      omega
    refine ⟨last, by rw [before_group, hl], ?_⟩
    rw [hlen, List.cons_append, List.append_assoc, List.cons_append, closingFrom, if_pos (by simp), hie, closingFrom,
      if_neg (by simp), if_pos (by simp [hdash]), if_neg (by omega), Nat.add_sub_cancel, he]

/-- What stands in front of a closing bracket that is found has matching angle brackets, and no arrow is begun there. -/
theorem exists_of_closingFrom (cs : List Char) : ∀ {depth : Nat} {prev : Char} {i k : Nat},
    closingFrom '<' '>' depth prev i cs = some k → 1 ≤ depth → (prev = '-' → cs.head? ≠ some '>') →
      ∃ j r, cs = j ++ '>' :: r ∧ WellNested ['<'] none j ∧ before (some prev) j ≠ some '-' ∧
        if depth = 1 then k = i + j.length else closingFrom '<' '>' (depth - 1) '>' (i + j.length + 1) r = some k := by
  induction hn : cs.length using Nat.strongRecOn generalizing cs with
  | ind n ih =>
    intro depth prev i k h hdepth hprev
    cases cs with
    | nil => cases h
    | cons c r =>
      rw [List.length_cons] at hn
      by_cases hopen : c = '<'
      · -- The group is closed first, and the search goes on behind it.
        subst hopen
        rw [closingFrom, if_pos (by simp)] at h
        obtain ⟨j₁, r₁, rfl, hj₁, hlast₁, hinner⟩ := ih _ (by omega) r rfl h (by omega) (by simp)
        rw [if_neg (by omega), Nat.add_sub_cancel] at hinner
        rw [List.length_append, List.length_cons] at hn
        obtain ⟨j₂, r₂, rfl, hj₂, hlast₂, hrest⟩ := ih _ (by omega) r₁ rfl hinner hdepth (by simp)
        have hdash : j₁.getLast? ≠ some '-' := fun hd => hlast₁ (by rw [before, hd, Option.some_or])
        have hlength : i + ('<' :: (j₁ ++ '>' :: j₂)).length = i + 1 + j₁.length + 1 + j₂.length := by
          simp only [List.length_cons, List.length_append]
          omega
        refine ⟨'<' :: (j₁ ++ '>' :: j₂), r₂, by simp, .group (by simp) rfl hj₁ (fun _ => hdash) hj₂, ?_, ?_⟩
        · rwa [before_group]
        · rwa [hlength]
      · by_cases hclose : c = '>'
        · subst hclose
          have hdash : prev ≠ '-' := fun hd => hprev hd rfl
          rw [closingFrom, if_neg (by simp), if_pos (by simp [hdash])] at h
          refine ⟨[], r, rfl, .nil, by simpa [before] using hdash, ?_⟩
          by_cases hone : depth = 1
          · rw [if_pos (by omega)] at h
            rw [if_pos hone]
            exact (Option.some.inj h).symm
          · rw [if_neg (by omega)] at h
            rwa [if_neg hone]
        · have hother : ¬ IsBracket ['<'] c := fun hangle => (isBracket_angle.1 hangle).elim hopen hclose
          by_cases harrow : c = '-' ∧ r.head? = some '>'
          · obtain ⟨rfl, hhead⟩ := harrow
            obtain ⟨r', rfl⟩ := List.head?_eq_some_iff.1 hhead
            rw [closingFrom_arrow] at h
            rw [List.length_cons] at hn
            obtain ⟨j, r, rfl, hj, hlast, hrest⟩ := ih _ (by omega) r' rfl h hdepth (by simp)
            refine ⟨'-' :: '>' :: j, r, rfl, .arrow nofun hj, by rwa [before_cons, before_cons], ?_⟩
            rwa [List.length_cons, List.length_cons, Nat.add_assoc j.length, Nat.add_comm j.length, ← Nat.add_assoc]
          · rw [closingFrom_other hother] at h
            obtain ⟨j, r', rfl, hj, hlast, hrest⟩ := ih _ (by omega) r rfl h hdepth fun hd hhead => harrow ⟨hd, hhead⟩
            refine ⟨c :: j, r', rfl, .plain hother nofun hj, by rwa [before_cons], ?_⟩
            rwa [List.length_cons, Nat.add_comm j.length, ← Nat.add_assoc]

/-- The group is closed by the last character exactly if its angle brackets match up to there, and no arrow ends it. -/
theorem closingFrom_eq_length {cs : List Char} : closingFrom '<' '>' 1 '<' 1 cs = some cs.length ↔
    ∃ inner, cs = inner ++ ['>'] ∧ WellNested ['<'] none inner ∧ inner.getLast? ≠ some '-' := by
  constructor
  · intro h
    obtain ⟨j, r, rfl, hj, hlast, hlength⟩ := exists_of_closingFrom cs h (Nat.le_refl 1) (by simp)
    rw [if_pos rfl, List.length_append, List.length_cons] at hlength
    obtain rfl : r = [] := List.length_eq_zero_iff.1 (by omega)
    exact ⟨j, rfl, hj, fun hd => hlast (by rw [before, hd, Option.some_or])⟩
  · rintro ⟨inner, rfl, hinner, hlast⟩
    obtain ⟨last, hbefore, he⟩ := closingFrom_wellNested hinner ['>'] 1 '<' 1 (Nat.le_refl 1)
    have hdash : last ≠ '-' := fun hd => before_ne_dash rfl (fun _ => hlast) rfl (hd ▸ hbefore)
    rw [he, closingFrom, if_neg (by simp), if_pos (by simp [hdash]), if_pos (Nat.le_refl 1), List.length_append,
      List.length_singleton, Nat.add_comm]

end RingBridge.Spelling
