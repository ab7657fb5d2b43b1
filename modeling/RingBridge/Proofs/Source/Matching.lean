import RingBridge.Source.Group
/-!
The matching of delimiters. Whether tokens can be grouped is told by their brackets alone: they are well bracketed, and
then each opening one is matched with the closing one of its kind behind a well bracketed stretch. Otherwise the first
closing bracket without an opening one is reported, or the last opening bracket that is left open.
-/
namespace RingBridge.Source

inductive Bracket where
  | opening (d : Delimiter)
  | closing (d : Delimiter)
deriving DecidableEq

def Token.bracket? (t : Token) : Option Bracket :=
  match t.opens? with
  | some d => some (.opening d)
  | none => t.closes?.map .closing

inductive WellBracketed : List Bracket → Prop
  | nil : WellBracketed []
  | group (d : Delimiter) {inner rest : List Bracket} : WellBracketed inner → WellBracketed rest →
    WellBracketed (.opening d :: (inner ++ .closing d :: rest))

theorem WellBracketed.append {bs cs : List Bracket} (hb : WellBracketed bs) (hc : WellBracketed cs) :
    WellBracketed (bs ++ cs) := by
  induction hb with
  | nil => exact hc
  | group d hinner _ _ ih =>
    rw [List.cons_append, List.append_assoc, List.cons_append]
    exact .group d hinner ih

theorem WellBracketed.closed {bs : List Bracket} (d : Delimiter) (h : WellBracketed bs) :
    WellBracketed (.opening d :: (bs ++ [.closing d])) := .group d h .nil

/-- The groups that are open behind brackets, the innermost first, where those of a stack are open before them; none when
    a closing bracket is not that of the innermost open group. -/
def openBehind : List Delimiter → List Bracket → Option (List Delimiter)
  | stack, [] => some stack
  | stack, .opening d :: bs => openBehind (d :: stack) bs
  | [], .closing _ :: _ => none
  | o :: stack, .closing d :: bs => if o = d then openBehind stack bs else none

theorem openBehind_append (stack : List Delimiter) (bs cs : List Bracket) :
    openBehind stack (bs ++ cs) = (openBehind stack bs).bind fun s => openBehind s cs := by
  fun_induction openBehind stack bs with
  | case1 => rfl
  | case2 stack d bs ih => rw [List.cons_append, openBehind, ih]
  | case3 => rfl
  | case4 stack d bs ih => rw [List.cons_append, openBehind, if_pos rfl, ih]
  | case5 o stack d bs hne => rw [List.cons_append, openBehind, if_neg hne, Option.bind_none]

/-- Groups that are open around brackets which close none of them do not matter. -/
theorem openBehind_frame {stack left : List Delimiter} {bs : List Bracket} (h : openBehind stack bs = some left)
    (around : List Delimiter) : openBehind (stack ++ around) bs = some (left ++ around) := by
  fun_induction openBehind stack bs with
  | case1 =>
    cases h
    rfl
  | case2 stack d bs ih => exact ih h
  | case3 => cases h
  | case4 stack d bs ih =>
    rw [List.cons_append, openBehind, if_pos rfl]
    exact ih h
  | case5 => cases h

namespace WellBracketed
variable {bs cs : List Bracket} {d : Delimiter}

theorem openBehind_eq (h : WellBracketed bs) (stack : List Delimiter) : openBehind stack bs = some stack := by
  induction h generalizing stack with
  | nil => rfl
  | group d _ _ ihinner ihrest =>
    rw [openBehind, openBehind_append, ihinner, Option.bind_some, openBehind, if_pos rfl, ihrest]

theorem not_append_closing (h : WellBracketed bs) : ¬ WellBracketed (bs ++ .closing d :: cs) := by
  intro h'
  have hopen := h'.openBehind_eq []
  rw [openBehind_append, h.openBehind_eq, Option.bind_some, openBehind] at hopen
  cases hopen

/-- Two stretches that are well bracketed do not cross at an opening bracket of the first. -/
theorem not_crossing {as : List Bracket} (h : WellBracketed (as ++ .opening d :: bs)) : ¬ WellBracketed (bs ++ cs) := by
  intro h'
  have hopen := h.openBehind_eq []
  have hopen' := h'.openBehind_eq []
  rw [openBehind_append] at hopen hopen'
  obtain ⟨stack, -, hstack⟩ := Option.bind_eq_some_iff.1 hopen
  obtain ⟨left, hleft, -⟩ := Option.bind_eq_some_iff.1 hopen'
  rw [openBehind, ← List.nil_append (d :: stack), openBehind_frame hleft] at hstack
  cases left <;> cases hstack

theorem not_append_opening {as : List Bracket} (h : WellBracketed (as ++ .opening d :: bs)) : ¬ WellBracketed bs := by
  rw [← List.append_nil bs]
  exact h.not_crossing

end WellBracketed

section Matched
variable {ts : List Token} {i j k : Nat}

def bracketAt (ts : List Token) (i : Nat) : Option Bracket := ts[i]?.bind Token.bracket?

def bracketsIn (ts : List Token) (i j : Nat) : List Bracket := (ts.extract i j).filterMap Token.bracket?

/-- An opening token and a closing one of the same kind behind it, with a well bracketed stretch between. -/
def Matched (ts : List Token) (i j : Nat) : Prop :=
  i < j ∧ WellBracketed (bracketsIn ts (i + 1) j) ∧
    ∃ d, bracketAt ts i = some (.opening d) ∧ bracketAt ts j = some (.closing d)

theorem bracketsIn_length : bracketsIn ts 0 ts.length = ts.filterMap Token.bracket? := by
  rw [bracketsIn, List.extract_eq_take_drop, List.drop_zero, Nat.sub_zero, List.take_length]

theorem bracketsIn_self (ts : List Token) (i : Nat) : bracketsIn ts i i = [] := by
  rw [bracketsIn, List.extract_eq_take_drop, Nat.sub_self, List.take_zero, List.filterMap_nil]

theorem bracketsIn_append (hij : i ≤ j) (hjk : j ≤ k) :
    bracketsIn ts i k = bracketsIn ts i j ++ bracketsIn ts j k := by
  have hlength : k - i = (j - i) + (k - j) := by omega
  have hdrop : i + (j - i) = j := by omega
  unfold bracketsIn
  rw [← List.filterMap_append, List.extract_eq_take_drop, List.extract_eq_take_drop, List.extract_eq_take_drop, hlength,
    List.take_add, List.drop_drop, hdrop]

theorem bracketsIn_succ (ts : List Token) (i : Nat) : bracketsIn ts i (i + 1) = (bracketAt ts i).toList := by
  rw [bracketsIn, bracketAt, List.extract_eq_take_drop, Nat.add_sub_cancel_left, List.take_one, List.head?_drop]
  cases ts[i]? with
  | none => rfl
  | some t =>
    show [t].filterMap Token.bracket? = t.bracket?.toList
    cases h : t.bracket? <;> simp [h]

theorem bracketsIn_split {b : Bracket} (hij : i ≤ j) (hjk : j < k) (hb : bracketAt ts j = some b) :
    bracketsIn ts i k = bracketsIn ts i j ++ b :: bracketsIn ts (j + 1) k := by
  rw [bracketsIn_append hij (Nat.le_of_lt hjk), bracketsIn_append j.le_succ hjk, bracketsIn_succ, hb]
  rfl

theorem lt_length_of_bracketAt {b : Bracket} (h : bracketAt ts i = some b) : i < ts.length := by
  obtain ⟨t, ht, -⟩ := Option.bind_eq_some_iff.1 h
  exact (List.getElem?_eq_some_iff.1 ht).1

/-- Of two matched pairs, the one that opens later stands behind the other or inside of it. -/
theorem Matched.disjoint_or_nested {i' j' : Nat} (h : Matched ts i j) (h' : Matched ts i' j') (hlt : i < i') :
    j < i' ∨ j' < j := by
  refine Decidable.byContradiction fun hcross => ?_
  obtain ⟨-, hstretch, d, -, hclosing⟩ := h
  obtain ⟨-, hstretch', d', hopening', -⟩ := h'
  have hne : i' ≠ j := by
    rintro rfl
    cases hopening'.symm.trans hclosing
  rw [bracketsIn_split (j := i') (by omega) (by omega) hopening'] at hstretch
  rw [bracketsIn_append (j := j) (by omega) (by omega)] at hstretch'
  exact hstretch.not_crossing hstretch'

theorem Matched.not_lt (h : Matched ts i j) (h' : Matched ts i k) : ¬ j < k := by
  intro hlt
  obtain ⟨hij, hstretch, d, -, hclosing⟩ := h
  obtain ⟨-, hstretch', -⟩ := h'
  rw [bracketsIn_split (by omega) hlt hclosing] at hstretch'
  exact hstretch.not_append_closing hstretch'

theorem Matched.closer_unique (h : Matched ts i j) (h' : Matched ts i k) : j = k := by
  have := h.not_lt h'
  have := h'.not_lt h
  omega

theorem Matched.opener_unique (h : Matched ts i k) (h' : Matched ts j k) : i = j := by
  have hik := h.1
  have hjk := h'.1
  refine Decidable.byContradiction fun hne => ?_
  obtain hlt | hlt := Nat.lt_or_gt_of_ne hne
  · have := h.disjoint_or_nested h' hlt
    omega
  · have := h'.disjoint_or_nested h hlt
    omega

end Matched

section Scanned
variable {ts : List Token} {stack : List Opening} {o : Opening} {n m : Nat}

def lineAt (ts : List Token) (i : Nat) : Option Nat := ts[i]?.map Token.line

def Opening.In (o : Opening) (ts : List Token) : Prop :=
  bracketAt ts o.index = some (.opening o.delimiter) ∧ lineAt ts o.index = some o.line

inductive Open (ts : List Token) : List Opening → Nat → Prop
  | nil {n : Nat} : WellBracketed (bracketsIn ts 0 n) → Open ts [] n
  | cons {o : Opening} {stack : List Opening} {n : Nat} : o.In ts → o.index < n →
    WellBracketed (bracketsIn ts (o.index + 1) n) → Open ts stack o.index → Open ts (o :: stack) n

theorem Open.extend (h : Open ts stack n) (hle : n ≤ m) (hstretch : WellBracketed (bracketsIn ts n m)) :
    Open ts stack m := by
  cases h with
  | nil h => exact .nil (bracketsIn_append n.zero_le hle ▸ h.append hstretch)
  | cons ho hlt h hrest =>
    exact .cons ho (Nat.lt_of_lt_of_le hlt hle) (bracketsIn_append hlt hle ▸ h.append hstretch) hrest

theorem Open.index_lt (h : Open ts stack n) (ho : o ∈ stack) : o.index < n := by
  induction h with
  | nil => cases ho
  | cons _ hlt _ _ ih =>
    obtain rfl | ho := List.mem_cons.1 ho
    · exact hlt
    · exact Nat.lt_trans (ih ho) hlt

theorem Open.openBehind_eq (h : Open ts stack n) :
    openBehind [] (bracketsIn ts 0 n) = some (stack.map Opening.delimiter) := by
  induction h with
  | nil h => exact h.openBehind_eq []
  | cons ho hlt h _ ih =>
    rw [bracketsIn_split (Nat.zero_le _) hlt ho.1, openBehind_append, ih, Option.bind_some, openBehind, h.openBehind_eq]
    rfl

theorem Open.not_wellBracketed (h : Open ts (o :: stack) ts.length) : ¬ WellBracketed (bracketsIn ts 0 ts.length) := by
  intro hall
  cases (hall.openBehind_eq []).symm.trans h.openBehind_eq

theorem Open.not_wellBracketed_of_closing {d : Delimiter} (h : Open ts stack n) (hn : bracketAt ts n = some (.closing d))
    (hd : ∀ o ∈ stack.head?, o.delimiter ≠ d) : ¬ WellBracketed (bracketsIn ts 0 ts.length) := by
  intro hall
  have hopen := hall.openBehind_eq []
  rw [bracketsIn_split n.zero_le (lt_length_of_bracketAt hn) hn, openBehind_append, h.openBehind_eq,
    Option.bind_some] at hopen
  cases stack with
  | nil => cases hopen
  | cons o stack =>
    rw [List.map_cons, openBehind, if_neg (hd o rfl)] at hopen
    cases hopen

/-- A closing token is matched with nothing when the innermost open group is of another kind. -/
theorem Open.not_matched {i : Nat} {d : Delimiter} (h : Open ts (o :: stack) n) (hd : o.delimiter ≠ d)
    (hn : bracketAt ts n = some (.closing d)) : ¬ Matched ts i n := by
  intro hm
  obtain ⟨hin, hstretch, d', hopening, hclosing⟩ := hm
  cases h with
  | cons ho hlt h _ =>
    obtain hi | rfl | hi := Nat.lt_trichotomy i o.index
    · -- the group of the opening would be open at the end of the pair
      rw [bracketsIn_split hi hlt ho.1] at hstretch
      exact hstretch.not_append_opening h
    · cases hopening.symm.trans ho.1
      cases hclosing.symm.trans hn
      exact hd rfl
    · rw [bracketsIn_split hi hin hopening] at h
      exact h.not_append_opening hstretch

theorem Open.nil_not_matched {i : Nat} (h : Open ts [] n) : ¬ Matched ts i n := by
  rintro ⟨hin, hstretch, d, hopening, -⟩
  cases h with
  | nil h =>
    rw [bracketsIn_split i.zero_le hin hopening] at h
    exact h.not_append_opening hstretch

structure Scanned (ts : List Token) (stack : List Opening) (n : Nat) : Prop where
  opened : Open ts stack n
  closers : ∀ k < n, ∀ d, bracketAt ts k = some (.closing d) → ∃ i, Matched ts i k
  openers : ∀ i < n, ∀ d, bracketAt ts i = some (.opening d) → (∃ o ∈ stack, o.index = i) ∨ ∃ j < n, Matched ts i j

namespace Scanned

theorem start (ts : List Token) : Scanned ts [] 0 where
  opened := .nil (bracketsIn_self ts 0 ▸ .nil)
  closers := nofun
  openers := nofun

theorem other (h : Scanned ts stack n) (hn : bracketAt ts n = none) : Scanned ts stack (n + 1) where
  opened := h.opened.extend n.le_succ (by
    rw [bracketsIn_succ, hn]
    exact .nil)
  closers := Nat.forall_lt_succ_right.2 ⟨h.closers, fun d hd => by cases hn.symm.trans hd⟩
  openers := by
    refine Nat.forall_lt_succ_right.2 ⟨fun i hi d hd => ?_, fun d hd => by cases hn.symm.trans hd⟩
    exact (h.openers i hi d hd).imp_right fun ⟨j, hj, hm⟩ => ⟨j, Nat.lt_succ_of_lt hj, hm⟩

theorem opening (h : Scanned ts stack n) (ho : o.In ts) (hindex : o.index = n) : Scanned ts (o :: stack) (n + 1) where
  opened := by
    subst hindex
    exact .cons ho (Nat.lt_succ_self _) (bracketsIn_self ts _ ▸ .nil) h.opened
  closers := by
    refine Nat.forall_lt_succ_right.2 ⟨h.closers, fun d hd => ?_⟩
    subst hindex
    cases ho.1.symm.trans hd
  openers := by
    refine Nat.forall_lt_succ_right.2 ⟨fun i hi d hd => ?_, fun _ _ => .inl ⟨o, List.mem_cons_self, hindex⟩⟩
    obtain ⟨o', ho', hi'⟩ | ⟨j, hj, hm⟩ := h.openers i hi d hd
    · exact .inl ⟨o', List.mem_cons_of_mem _ ho', hi'⟩
    · exact .inr ⟨j, Nat.lt_succ_of_lt hj, hm⟩

theorem matched (h : Scanned ts (o :: stack) n) (hn : bracketAt ts n = some (.closing o.delimiter)) :
    Matched ts o.index n := by
  cases h.opened with
  | cons ho hlt hstretch _ => exact ⟨hlt, hstretch, o.delimiter, ho.1, hn⟩

theorem closing (h : Scanned ts (o :: stack) n) (hn : bracketAt ts n = some (.closing o.delimiter)) :
    Scanned ts stack (n + 1) where
  opened := by
    cases h.opened with
    | cons ho hlt hstretch hrest =>
      refine hrest.extend (by omega) ?_
      rw [bracketsIn_split (Nat.le_refl _) (by omega) ho.1, bracketsIn_self, bracketsIn_append hlt n.le_succ,
        bracketsIn_succ ts n, hn]
      exact hstretch.closed o.delimiter
  closers := Nat.forall_lt_succ_right.2 ⟨h.closers, fun _ _ => ⟨o.index, h.matched hn⟩⟩
  openers := by
    refine Nat.forall_lt_succ_right.2 ⟨fun i hi d hd => ?_, fun d hd => by cases hn.symm.trans hd⟩
    obtain ⟨o', ho', rfl⟩ | ⟨j, hj, hm⟩ := h.openers i hi d hd
    · obtain rfl | ho' := List.mem_cons.1 ho'
      · exact .inr ⟨n, n.lt_succ_self, h.matched hn⟩
      · exact .inl ⟨o', ho', rfl⟩
    · exact .inr ⟨j, Nat.lt_succ_of_lt hj, hm⟩

end Scanned

/-- The first closing token that is matched with no opening one. -/
structure FirstStray (ts : List Token) (k : Nat) (d : Delimiter) : Prop where
  closes : bracketAt ts k = some (.closing d)
  stray : ∀ i, ¬ Matched ts i k
  first : ∀ k' < k, ∀ d', bracketAt ts k' = some (.closing d') → ∃ i, Matched ts i k'

/-- The last opening token that is matched with no closing one, where every closing one is matched. -/
structure LastOpen (ts : List Token) (k : Nat) (d : Delimiter) : Prop where
  opens : bracketAt ts k = some (.opening d)
  unclosed : ∀ j, ¬ Matched ts k j
  last : ∀ k' > k, ∀ d', bracketAt ts k' = some (.opening d') → ∃ j, Matched ts k' j
  closers : ∀ k' d', bracketAt ts k' = some (.closing d') → ∃ i, Matched ts i k'

/-- An error is about the first stray closing token, and tells whether a group is open there and which is the innermost;
    or else it is about the last opening token that is left open. -/
def GroupError.Reports (ts : List Token) (e : GroupError) : Prop :=
  ∃ k, lineAt ts k = some e.line ∧
    match e.cause with
    | .unmatched d => FirstStray ts k d ∧ ∀ i < k, ∀ d', bracketAt ts i = some (.opening d') → ∃ j < k, Matched ts i j
    | .crossed o d => FirstStray ts k d ∧ o.In ts ∧ o.delimiter ≠ d ∧ o.index < k ∧
      WellBracketed (bracketsIn ts (o.index + 1) k)
    | .unclosed d => LastOpen ts k d

def Pairs (ts : List Token) (n : Nat) (pairs : List (Nat × Nat)) : Prop :=
  (∀ p ∈ pairs, Matched ts p.1 p.2) ∧
    ∀ k ≥ n, ∀ d, bracketAt ts k = some (.closing d) → ∃ i, (i, k) ∈ pairs

theorem Pairs.of_succ {pairs : List (Nat × Nat)} (h : Pairs ts (n + 1) pairs)
    (hn : ∀ d, bracketAt ts n ≠ some (.closing d)) : Pairs ts n pairs := by
  refine ⟨h.1, fun k hk d hd => ?_⟩
  obtain rfl | hk := Nat.eq_or_lt_of_le hk
  · exact absurd hd (hn d)
  · exact h.2 k hk d hd

theorem Pairs.cons {pairs : List (Nat × Nat)} {i : Nat} (h : Pairs ts (n + 1) pairs) (hm : Matched ts i n) :
    Pairs ts n ((i, n) :: pairs) := by
  refine ⟨List.forall_mem_cons.2 ⟨hm, h.1⟩, fun k hk d hd => ?_⟩
  obtain rfl | hk := Nat.eq_or_lt_of_le hk
  · exact ⟨i, List.mem_cons_self⟩
  · obtain ⟨i', hi'⟩ := h.2 k hk d hd
    exact ⟨i', List.mem_cons_of_mem _ hi'⟩

def Grouping (ts : List Token) (n : Nat) : Except GroupError (List (Nat × Nat)) → Prop
  | .ok pairs => Scanned ts [] ts.length ∧ Pairs ts n pairs
  | .error e => e.Reports ts ∧ ¬ WellBracketed (bracketsIn ts 0 ts.length)

theorem Grouping.of_succ {result : Except GroupError (List (Nat × Nat))} (h : Grouping ts (n + 1) result)
    (hn : ∀ d, bracketAt ts n ≠ some (.closing d)) : Grouping ts n result := by
  cases result with
  | ok pairs => exact ⟨h.1, h.2.of_succ hn⟩
  | error e => exact h

namespace Scanned

theorem unmatched {d : Delimiter} (h : Scanned ts [] n) (hn : bracketAt ts n = some (.closing d)) {line : Nat}
    (hline : lineAt ts n = some line) : GroupError.Reports ts ⟨.unmatched d, line⟩ := by
  refine ⟨n, hline, ⟨hn, fun i => h.opened.nil_not_matched, h.closers⟩, fun i hi d' hd' => ?_⟩
  exact (h.openers i hi d' hd').resolve_left nofun

theorem crossed {d : Delimiter} (h : Scanned ts (o :: stack) n) (hn : bracketAt ts n = some (.closing d))
    (hd : o.delimiter ≠ d) {line : Nat} (hline : lineAt ts n = some line) :
    GroupError.Reports ts ⟨.crossed o d, line⟩ := by
  have hstray : FirstStray ts n d := ⟨hn, fun i => h.opened.not_matched hd hn, h.closers⟩
  cases h.opened with
  | cons ho hlt hstretch _ => exact ⟨n, hline, hstray, ho, hd, hlt, hstretch⟩

theorem unclosed (h : Scanned ts (o :: stack) ts.length) : GroupError.Reports ts ⟨.unclosed o.delimiter, o.line⟩ := by
  cases h.opened with
  | cons ho hlt hstretch hrest =>
    refine ⟨o.index, ho.2, ⟨ho.1, ?_, ?_, fun k d hd => h.closers k (lt_length_of_bracketAt hd) d hd⟩⟩
    · rintro j ⟨hj, hinner, d, -, hclosing⟩
      rw [bracketsIn_split hj (lt_length_of_bracketAt hclosing) hclosing] at hstretch
      exact hinner.not_append_closing hstretch
    · intro k hk d hd
      obtain ⟨o', ho', rfl⟩ | ⟨j, -, hm⟩ := h.openers k (lt_length_of_bracketAt hd) d hd
      · obtain rfl | ho' := List.mem_cons.1 ho'
        · exact absurd hk (Nat.lt_irrefl _)
        · exact absurd (hrest.index_lt ho') (Nat.lt_asymm hk)
      · exact ⟨j, hm⟩

theorem grouping (h : Scanned ts stack n) {rest : List Token} (hrest : ts.drop n = rest) (hn : n ≤ ts.length) :
    Grouping ts n (groupsFrom stack n rest) := by
  induction rest generalizing stack n with
  | nil =>
    obtain rfl : n = ts.length := Nat.le_antisymm hn (List.drop_eq_nil_iff.1 hrest)
    cases stack with
    | nil => exact ⟨h, nofun, fun k hk d hd => absurd (lt_length_of_bracketAt hd) (Nat.not_lt.2 hk)⟩
    | cons o stack => exact ⟨h.unclosed, h.opened.not_wellBracketed⟩
  | cons t rest ih =>
    have ht : ts[n]? = some t := by rw [← List.head?_drop, hrest, List.head?_cons]
    have hnext : ts.drop (n + 1) = rest := by rw [← List.tail_drop, hrest, List.tail_cons]
    have hlt : n < ts.length := (List.getElem?_eq_some_iff.1 ht).1
    have hbracket : bracketAt ts n = t.bracket? := by rw [bracketAt, ht, Option.bind_some]
    have hline : lineAt ts n = some t.line := by rw [lineAt, ht, Option.map_some]
    unfold Token.bracket? at hbracket
    rw [groupsFrom]
    split
    · next d hopens =>
      rw [hopens] at hbracket
      refine (ih (h.opening (o := ⟨n, d, t.line⟩) ⟨hbracket, hline⟩ rfl) hnext hlt).of_succ fun d' hd' => ?_
      cases hbracket.symm.trans hd'
    · next d hopens hcloses =>
      rw [hopens, hcloses] at hbracket
      cases stack with
      | nil => exact ⟨h.unmatched hbracket hline, h.opened.not_wellBracketed_of_closing hbracket nofun⟩
      | cons o stack =>
        show Grouping ts n (if o.delimiter = d then _ else _)
        split
        · next hd =>
          subst hd
          have hrun := ih (h.closing hbracket) hnext hlt
          cases hrest : groupsFrom stack (n + 1) rest with
          | ok pairs =>
            rw [hrest] at hrun
            exact ⟨hrun.1, hrun.2.cons (h.matched hbracket)⟩
          | error e =>
            rw [hrest] at hrun
            exact hrun
        · next hd =>
          refine ⟨h.crossed hbracket hd hline, h.opened.not_wellBracketed_of_closing hbracket fun o' ho' => ?_⟩
          cases ho'
          exact hd
    · next hopens hcloses =>
      rw [hopens, hcloses] at hbracket
      refine (ih (h.other hbracket) hnext hlt).of_succ fun d' hd' => ?_
      cases hbracket.symm.trans hd'

end Scanned

theorem grouping_groups (ts : List Token) : Grouping ts 0 (groups ts) :=
  (Scanned.start ts).grouping List.drop_zero ts.length.zero_le

end Scanned

section Closers
variable {ts : List Token} {cs : List Cell} {pairs : List (Nat × Nat)}

def closer? (cs : List Cell) (i : Nat) : Option Nat := (cs[i]?.bind Cell.inside).map fun n => i + 1 + n

/-- Cells know of each opening token, and of no other, the one closing token that it is matched with; any two groups are
    apart, or one is in the other. -/
structure Matching (ts : List Token) (cs : List Cell) : Prop where
  openers : ∀ i, (closer? cs i).isSome ↔ ∃ d, bracketAt ts i = some (.opening d)
  matched : ∀ i j, closer? cs i = some j → Matched ts i j ∧ ∀ k, Matched ts i k → k = j
  laminar : ∀ i j i' j', closer? cs i = some j → closer? cs i' = some j' → i < i' → j < i' ∨ j' < j

theorem insideOf_eq_some {i : Nat} (h : ∀ p ∈ pairs, Matched ts p.1 p.2) {n : Nat} :
    insideOf pairs i = some n ↔ (i, i + 1 + n) ∈ pairs := by
  unfold insideOf
  constructor
  · intro hn
    obtain ⟨⟨a, b⟩, hfind, rfl⟩ := Option.map_eq_some_iff.1 hn
    have hmem := List.mem_of_find?_eq_some hfind
    obtain rfl : a = i := by simpa using List.find?_some hfind
    have hlt : a < b := (h _ hmem).1
    have hb : a + 1 + (b - a - 1) = b := by omega
    show (a, a + 1 + (b - a - 1)) ∈ pairs
    rwa [hb]
  · intro hmem
    cases hfind : pairs.find? fun p => p.1 == i with
    | none => exact absurd (beq_self_eq_true i) (List.find?_eq_none.1 hfind _ hmem)
    | some p =>
      obtain ⟨a, b⟩ := p
      have hmem' := List.mem_of_find?_eq_some hfind
      obtain rfl : a = i := by simpa using List.find?_some hfind
      obtain rfl : b = a + 1 + n := (h _ hmem').closer_unique (h _ hmem)
      show some (a + 1 + n - a - 1) = some n
      congr 1
      omega

def pairedCells (ts : List Token) (pairs : List (Nat × Nat)) : List Cell :=
  ts.zipIdx.map fun (t, i) => ⟨t, insideOf pairs i⟩

theorem closer?_eq_some {i j : Nat} (h : ∀ p ∈ pairs, Matched ts p.1 p.2) :
    closer? (pairedCells ts pairs) i = some j ↔ (i, j) ∈ pairs := by
  rw [closer?, pairedCells, List.getElem?_map, List.getElem?_zipIdx]
  cases ht : ts[i]? with
  | none =>
    refine ⟨nofun, fun hmem => ?_⟩
    obtain ⟨-, -, d, hopening, -⟩ := h _ hmem
    rw [bracketAt, ht] at hopening
    cases hopening
  | some t =>
    show (insideOf pairs (0 + i)).map _ = some j ↔ _
    rw [Nat.zero_add]
    constructor
    · intro hj
      obtain ⟨n, hn, rfl⟩ := Option.map_eq_some_iff.1 hj
      exact (insideOf_eq_some h).1 hn
    · intro hmem
      have hlt : i < j := (h _ hmem).1
      obtain ⟨n, rfl⟩ : ∃ n, j = i + 1 + n := Nat.exists_eq_add_of_le hlt
      rw [(insideOf_eq_some h).2 hmem]
      rfl

theorem matching_of_groups (h : groups ts = .ok pairs) : Matching ts (pairedCells ts pairs) := by
  have hgrouping := grouping_groups ts
  rw [h] at hgrouping
  obtain ⟨hscanned, hmatched, hclosers⟩ := hgrouping
  have hpairs : ∀ {i j}, closer? (pairedCells ts pairs) i = some j → Matched ts i j :=
    fun hj => hmatched _ ((closer?_eq_some hmatched).1 hj)
  refine ⟨fun i => ⟨fun hi => ?_, fun ⟨d, hd⟩ => ?_⟩, fun i j hj => ⟨hpairs hj, fun k hk => ?_⟩,
    fun i j i' j' hj hj' => ?_⟩
  · obtain ⟨j, hj⟩ := Option.isSome_iff_exists.1 hi
    obtain ⟨-, -, d, hopening, -⟩ := hpairs hj
    exact ⟨d, hopening⟩
  · obtain ⟨o, ho, -⟩ | ⟨j, -, hm⟩ := hscanned.openers i (lt_length_of_bracketAt hd) d hd
    · cases ho
    · obtain ⟨-, -, d', -, hclosing⟩ := id hm
      obtain ⟨i', hi'⟩ := hclosers j j.zero_le d' hclosing
      obtain rfl := (hmatched _ hi').opener_unique hm
      rw [(closer?_eq_some hmatched).2 hi']
      rfl
  · exact hk.closer_unique (hpairs hj)
  · exact (hpairs hj).disjoint_or_nested (hpairs hj')

/-- Tokens are grouped just when their brackets are well bracketed. Then each opening token, and no other, knows the one
    closing token it is matched with, and groups do not cross. Otherwise the error is about the first closing token that
    is matched with none, or else the last opening one that is left open, and has its line. -/
theorem cells_matching (ts : List Token) :
    ((∃ cs, cells ts = .ok cs) ↔ WellBracketed (ts.filterMap Token.bracket?)) ∧
      (∀ cs, cells ts = .ok cs → Matching ts cs) ∧ ∀ e, cells ts = .error e → e.Reports ts := by
  have hgrouping := grouping_groups ts
  rw [← bracketsIn_length, cells]
  cases hgroups : groups ts with
  | ok pairs =>
    rw [hgroups] at hgrouping
    have hall : WellBracketed (bracketsIn ts 0 ts.length) := by
      cases hgrouping.1.opened with
      | nil h => exact h
    refine ⟨⟨fun _ => hall, fun _ => ⟨_, rfl⟩⟩, fun cs hcs => ?_, nofun⟩
    cases hcs
    exact matching_of_groups hgroups
  | error e =>
    rw [hgroups] at hgrouping
    refine ⟨⟨nofun, fun hall => absurd hall hgrouping.2⟩, nofun, fun e he => ?_⟩
    cases he
    exact hgrouping.1

theorem cells_matching_parens :
    (∃ cs, cells [⟨.punct, "(", 1⟩, ⟨.ident, "x", 1⟩, ⟨.punct, "[", 1⟩, ⟨.punct, "]", 2⟩, ⟨.punct, ")", 3⟩] = .ok cs ∧
      closer? cs 0 = some 4 ∧ closer? cs 2 = some 3 ∧
      Matching [⟨.punct, "(", 1⟩, ⟨.ident, "x", 1⟩, ⟨.punct, "[", 1⟩, ⟨.punct, "]", 2⟩, ⟨.punct, ")", 3⟩] cs) ∧
    cells [⟨.punct, "(", 1⟩, ⟨.punct, "]", 2⟩] = .error ⟨.crossed ⟨0, .paren, 1⟩ .bracket, 2⟩ ∧
    GroupError.Reports [⟨.punct, "(", 1⟩, ⟨.punct, "]", 2⟩] ⟨.crossed ⟨0, .paren, 1⟩ .bracket, 2⟩ := by
  obtain ⟨-, hmatching, -⟩ :=
    cells_matching [⟨.punct, "(", 1⟩, ⟨.ident, "x", 1⟩, ⟨.punct, "[", 1⟩, ⟨.punct, "]", 2⟩, ⟨.punct, ")", 3⟩]
  obtain ⟨-, -, hreports⟩ := cells_matching [⟨.punct, "(", 1⟩, ⟨.punct, "]", 2⟩]
  exact ⟨⟨_, rfl, rfl, rfl, hmatching _ rfl⟩, rfl, hreports _ rfl⟩

end Closers

end RingBridge.Source
