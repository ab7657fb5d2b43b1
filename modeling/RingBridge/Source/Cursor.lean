import RingBridge.Source.Group
import RingBridge.Spelling
/-!
Cursors: what is left of a range of tokens, and the steps that read from it. A step leaves a suffix of what it
found, also when it fails; `Keeps` says so, and `Advances` that a step which succeeds takes a token.
-/
namespace RingBridge.Source

inductive Cause where
  | lex (cause : LexCause)
  | group (cause : GroupCause)
  | endOfInput
  | expected (text : String) (found : Option String)
  | missing (what : String)
  | missingText (text : String)
  | bracketAfterHash
  | parenAfterName (name : String)
  | unclosedAngle
  | prefixLiteral
  | unexpected (text : String)
  | unexpectedInImpl (text : String)
  | untypedParam (text : String)
deriving DecidableEq

def Cause.message : Cause → String
  | lex c => c.message
  | group c => c.message
  | endOfInput => "unexpected end of input"
  | expected t (some found) => "expected '" ++ t ++ "', found '" ++ found ++ "'"
  | expected t none => "expected '" ++ t ++ "', found end of input"
  | missing what => "expected " ++ what
  | missingText t => "expected '" ++ t ++ "'"
  | bracketAfterHash => "expected '[' after '#'"
  | parenAfterName n => "expected '(' after fn " ++ n
  | unclosedAngle => "unclosed '<'"
  | prefixLiteral => "prefix must be a string literal"
  | unexpected t => "unexpected '" ++ t ++ "'"
  | unexpectedInImpl t => "unexpected '" ++ t ++ "' in impl block"
  | untypedParam t => "parameter '" ++ t ++ "' has no type"

/-- What ends a reading. The last two are not reported: a group is stepped over where none opens, or a token is
    looked at where none is left. -/
inductive Fault where
  | error (cause : Cause) (line : Nat)
  | noGroup
  | nothingLeft
deriving DecidableEq

inductive Notice where
  | item (keyword name : String)
  | traitImpl (trait target : String)
deriving DecidableEq

def Notice.text : Notice → String
  | item k n => "  >> warning: skipping " ++ k ++ " " ++ n
  | traitImpl t target => "  >> warning: skipping trait impl " ++ t ++ " for " ++ target

/-- What is left of a range, the line to report at its end, and the notices so far. -/
structure Cursor where
  cells : List Cell
  lastLine : Nat
  notices : List Notice := []

abbrev Read := EStateM Fault Cursor

namespace Cursor

def line (s : Cursor) : Nat :=
  match s.cells with
  | c :: _ => c.token.line
  | [] => s.lastLine

end Cursor

def Token.isNamed (t : Token) (text : String) : Bool := (t.kind == .ident || t.kind == .punct) && t.text == text

def isAt (cells : List Cell) (text : String) (offset : Nat := 0) : Bool :=
  match cells[offset]? with
  | some c => c.token.isNamed text
  | none => false

namespace Read

def failHere {α : Type} (cause : Cause) : Read α := fun s => .error (.error cause s.line) s

def cells : Read (List Cell) := fun s => .ok s.cells s

def at_ (text : String) (offset : Nat := 0) : Read Bool := fun s => .ok (isAt s.cells text offset) s

def atEnd : Read Bool := fun s => .ok s.cells.isEmpty s

def note (n : Notice) : Read Unit := fun s => .ok () { s with notices := s.notices ++ [n] }

def skip : Read Unit := fun s => .ok () { s with cells := s.cells.tail }

def next : Read Token := fun s =>
  match s.cells with
  | c :: r => .ok c.token { s with cells := r }
  | [] => .error (.error .endOfInput s.lastLine) s

def expect (text : String) : Read Token := fun s =>
  match s.cells with
  | c :: r =>
    if c.token.text = text then .ok c.token { s with cells := r }
    else .error (.error (.expected text (some c.token.text)) s.line) s
  | [] => .error (.error (.expected text none) s.line) s

def expectIdent (what : String) : Read Token := fun s =>
  match s.cells with
  | c :: r =>
    if c.token.kind = .ident then .ok c.token { s with cells := r }
    else .error (.error (.missing what) s.line) s
  | [] => .error (.error (.missing what) s.line) s

def skipGroup : Read Cursor := fun s =>
  match s.cells with
  | c :: r =>
    match c.inside with
    | some n =>
      let inner := r.take n
      .ok ⟨inner, (inner.getLast?.getD c).token.line, []⟩ { s with cells := r.drop (n + 1) }
    | none => .error .noGroup s
  | [] => .error .noGroup s

theorem length_drop_lt (c : Cell) (r : List Cell) (n : Nat) : (r.drop n).length < (c :: r).length := by
  simp only [List.length_drop, List.length_cons]
  omega

/-- What follows the `>` that closes the angle brackets; groups inside are stepped over. -/
def anglesEnd? (depth : Int) (cells : List Cell) : Option (List Cell) :=
  match cells with
  | [] => none
  | c :: r =>
    match c.inside with
    | some n => anglesEnd? depth (r.drop (n + 1))
    | none =>
      if c.token.text = "<" then anglesEnd? (depth + 1) r
      else if c.token.text = ">" then if depth = 1 then some r else anglesEnd? (depth - 1) r
      else anglesEnd? depth r
termination_by cells.length
decreasing_by
  all_goals simp only [List.length_cons, List.length_drop]
  all_goals omega

def skipAngles : Read Unit := fun s =>
  match anglesEnd? 0 s.cells with
  | some r => .ok () { s with cells := r }
  | none => .error (.error .unclosedAngle s.line) { s with cells := [] }

def typeNesting (text : String) : Int :=
  if ["<", "(", "["].contains text then 1 else if [">", ")", "]"].contains text then -1 else 0

def isStop (stops : List String) (t : Token) : Bool := (t.kind == .punct || t.kind == .ident) && stops.contains t.text

def typeParts (stops : List String) (depth : Int) : List Cell → List String × List Cell
  | [] => ([], [])
  | c :: r =>
    if depth = 0 && isStop stops c.token then ([], c :: r)
    else
      let rest := typeParts stops (depth + typeNesting c.token.text) r
      (c.token.text :: rest.1, rest.2)

def spelling (parts : List String) : String :=
  Text.onText Spelling.normalize (" ".intercalate parts)

def readType (stops : List String) (what : String) : Read String := fun s =>
  let (parts, rest) := typeParts stops 0 s.cells
  if parts.isEmpty then .error (.error (.missing what) s.line) s else .ok (spelling parts) { s with cells := rest }

def statementEnd? (cells : List Cell) : Option (List Cell) :=
  match cells with
  | [] => none
  | c :: r =>
    match c.inside with
    | some n => statementEnd? (r.drop (n + 1))
    | none => if c.token.text = ";" then some r else statementEnd? r
termination_by cells.length
decreasing_by
  all_goals simp only [List.length_cons, List.length_drop]
  all_goals omega

def skipStatement : Read Unit := fun s =>
  match statementEnd? s.cells with
  | some r => .ok () { s with cells := r }
  | none => .error (.error .endOfInput s.lastLine) { s with cells := [] }

/-- What follows an item that ends in a brace group, a semicolon or with the range. -/
def itemEnd (cells : List Cell) : Except Fault (List Cell) :=
  match cells with
  | [] => .ok []
  | c :: r =>
    match c.inside with
    | some n => if c.token.text = "\x7b" then .ok (r.drop (n + 1)) else itemEnd (r.drop (n + 1))
    | none =>
      if c.token.text = "\x7b" then .error .noGroup
      else if c.token.text = ";" then .ok r
      else itemEnd r
termination_by cells.length
decreasing_by
  all_goals simp only [List.length_cons, List.length_drop]
  all_goals omega

def skipItem : Read Unit := fun s =>
  match itemEnd s.cells with
  | .ok r => .ok () { s with cells := r }
  | .error f => .error f s

def whereEnd (cells : List Cell) : Except Fault (List Cell) :=
  match cells with
  | [] => .ok []
  | c :: r =>
    if c.token.isNamed "\x7b" || c.token.isNamed ";" then .ok (c :: r)
    else if c.token.text = "(" || c.token.text = "[" then
      match c.inside with
      | some n => whereEnd (r.drop (n + 1))
      | none => .error .noGroup
    else whereEnd r
termination_by cells.length
decreasing_by
  all_goals simp only [List.length_cons, List.length_drop]
  all_goals omega

def skipWhere : Read Unit := fun s =>
  if isAt s.cells "where" then
    match whereEnd s.cells with
    | .ok r => .ok () { s with cells := r }
    | .error f => .error f s
  else .ok () s

def skipMacroBody : Read Unit := do
  match (← cells).head? with
  | some c =>
    if isOpeningText c.token.text then
      let _ ← skipGroup
      if ← at_ ";" then skip
    else failHere (.missing "macro body")
  | none => failHere (.missing "macro body")

def skipMacro : Read Unit := do
  skip
  skip
  if (← cells).head?.map (fun c => c.token.kind) = some .ident then skip
  skipMacroBody

def after {α : Type} (m : Read α) (s : Cursor) : Cursor :=
  match m s with
  | .ok _ t => t
  | .error _ t => t

def Keeps {α : Type} (m : Read α) : Prop := ∀ s, (m.after s).cells <:+ s.cells

def Advances {α : Type} (m : Read α) : Prop :=
  ∀ s a t, s.cells ≠ [] → m s = .ok a t → t.cells.length < s.cells.length

variable {α β : Type}

theorem Keeps.ok {m : Read α} (h : Keeps m) {s t : Cursor} {a : α} (e : m s = .ok a t) : t.cells <:+ s.cells := by
  have := h s
  simpa [after, e] using this

theorem Keeps.error {m : Read α} (h : Keeps m) {s t : Cursor} {f : Fault} (e : m s = .error f t) :
    t.cells <:+ s.cells := by
  have := h s
  simpa [after, e] using this

theorem Keeps.bind {m : Read α} {f : α → Read β} (hm : Keeps m) (hf : ∀ a, Keeps (f a)) : Keeps (m >>= f) := by
  intro s
  simp only [after, Bind.bind, EStateM.bind]
  cases e : m s with
  | ok a t =>
    have h1 := hm.ok e
    have h2 := hf a t
    exact h2.trans h1
  | error f t => exact hm.error e

theorem Keeps.pure (a : α) : Keeps (pure a : Read α) := fun _ => List.suffix_refl _

theorem Keeps.ite {c : Prop} [Decidable c] {m n : Read α} (hm : Keeps m) (hn : Keeps n) :
    Keeps (if c then m else n) := by
  split <;> assumption

theorem Advances.bind_left {m : Read α} {f : α → Read β} (hm : Keeps m) (hk : ∀ a, Keeps (f a))
    (hf : ∀ a, Advances (f a)) : Advances (m >>= f) := by
  intro s b u hs e
  simp only [Bind.bind, EStateM.bind] at e
  cases em : m s with
  | error g t => simp [em] at e
  | ok a t =>
    simp only [em] at e
    have h1 := (hm.ok em).length_le
    by_cases ht : t.cells = []
    · have h2 := ((hk a).ok e).length_le
      have := List.length_pos_iff.2 hs
      simp only [ht, List.length_nil] at h2
      omega
    · have := hf a t b u ht e
      omega

theorem Advances.bind_right {m : Read α} {f : α → Read β} (hm : Advances m) (hf : ∀ a, Keeps (f a)) :
    Advances (m >>= f) := by
  intro s b u hs e
  simp only [Bind.bind, EStateM.bind] at e
  cases em : m s with
  | error g t => simp [em] at e
  | ok a t =>
    simp only [em] at e
    have h1 := hm s a t hs em
    have h2 := ((hf a).ok e).length_le
    omega

theorem Advances.ite {c : Prop} [Decidable c] {m n : Read α} (hm : Advances m) (hn : Advances n) :
    Advances (if c then m else n) := by
  split <;> assumption

theorem keeps_failHere (cause : Cause) : Keeps (failHere cause : Read α) := fun _ => List.suffix_refl _

theorem keeps_cells : Keeps cells := fun _ => List.suffix_refl _
theorem keeps_at (text : String) (offset : Nat) : Keeps (at_ text offset) := fun _ => List.suffix_refl _
theorem keeps_atEnd : Keeps atEnd := fun _ => List.suffix_refl _
theorem keeps_note (n : Notice) : Keeps (note n) := fun _ => List.suffix_refl _
theorem keeps_skip : Keeps skip := fun s => List.tail_suffix s.cells

theorem advances_skip : Advances skip := by
  intro s a t hs e
  simp only [skip, EStateM.Result.ok.injEq] at e
  obtain ⟨_, rfl⟩ := e
  have := List.length_pos_iff.2 hs
  simp only [List.length_tail]
  omega

theorem keeps_next : Keeps next := by
  intro s
  simp only [after, next]
  cases h : s.cells with
  | nil => simp [h]
  | cons c r => exact List.suffix_cons c r

theorem keeps_expect (text : String) : Keeps (expect text) := by
  intro s
  simp only [after, expect]
  cases h : s.cells with
  | nil => simp [h]
  | cons c r =>
    simp only
    split
    · next e =>
      split at e <;> cases e
      simp
    · next e =>
      split at e <;> cases e
      simp [h]

theorem advances_expect (text : String) : Advances (expect text) := by
  intro s a t hs e
  simp only [expect] at e
  cases h : s.cells with
  | nil => exact absurd h hs
  | cons c r =>
    simp only [h] at e
    split at e
    · cases e; simp
    · simp at e

theorem keeps_expectIdent (what : String) : Keeps (expectIdent what) := by
  intro s
  simp only [after, expectIdent]
  cases h : s.cells with
  | nil => simp [h]
  | cons c r =>
    simp only
    split
    · next e =>
      split at e <;> cases e
      simp
    · next e =>
      split at e <;> cases e
      simp [h]

theorem advances_expectIdent (what : String) : Advances (expectIdent what) := by
  intro s a t hs e
  simp only [expectIdent] at e
  cases h : s.cells with
  | nil => exact absurd h hs
  | cons c r =>
    simp only [h] at e
    split at e
    · cases e; simp
    · simp at e

theorem keeps_skipGroup : Keeps skipGroup := by
  intro s
  simp only [after, skipGroup]
  cases h : s.cells with
  | nil => simp [h]
  | cons c r =>
    cases hi : c.inside with
    | none => simp [h, hi]
    | some n => simpa [hi] using (List.drop_suffix (n + 1) r).trans (List.suffix_cons c r)

theorem suffix_anglesEnd {depth : Int} {cs r : List Cell} (h : anglesEnd? depth cs = some r) :
    r <:+ cs ∧ r.length < cs.length := by
  fun_induction anglesEnd? depth cs generalizing r with
  | case1 => simp at h
  | case2 depth c t n hn ih =>
    have := ih h
    exact ⟨this.1.trans ((List.drop_suffix _ t).trans (List.suffix_cons c t)),
      Nat.lt_trans this.2 (length_drop_lt c t _)⟩
  | case3 depth c t hn hc ih =>
    have := ih h
    exact ⟨this.1.trans (List.suffix_cons c t), Nat.lt_succ_of_lt this.2⟩
  | case4 c t hn hc1 hc2 => cases h; exact ⟨List.suffix_cons c t, Nat.lt_succ_self _⟩
  | case5 depth c t hn hc1 hc2 hd ih =>
    have := ih h
    exact ⟨this.1.trans (List.suffix_cons c t), Nat.lt_succ_of_lt this.2⟩
  | case6 depth c t hn hc1 hc2 ih =>
    have := ih h
    exact ⟨this.1.trans (List.suffix_cons c t), Nat.lt_succ_of_lt this.2⟩

theorem keeps_skipAngles : Keeps skipAngles := by
  intro s
  simp only [after, skipAngles]
  cases h : anglesEnd? 0 s.cells with
  | none => simp
  | some r => exact (suffix_anglesEnd h).1

theorem suffix_typeParts (stops : List String) (depth : Int) (cs : List Cell) :
    (typeParts stops depth cs).2 <:+ cs := by
  induction cs generalizing depth with
  | nil => simp [typeParts]
  | cons c r ih =>
    simp only [typeParts]
    split
    · exact List.suffix_refl _
    · exact (ih _).trans (List.suffix_cons c r)

theorem keeps_readType (stops : List String) (what : String) : Keeps (readType stops what) := by
  intro s
  simp only [after, readType]
  by_cases h : (typeParts stops 0 s.cells).1.isEmpty
  · simp [h]
  · simpa [h] using suffix_typeParts stops 0 s.cells

theorem suffix_statementEnd {cs r : List Cell} (h : statementEnd? cs = some r) :
    r <:+ cs ∧ r.length < cs.length := by
  fun_induction statementEnd? cs generalizing r with
  | case1 => simp at h
  | case2 c t n hn ih =>
    have := ih h
    exact ⟨this.1.trans ((List.drop_suffix _ t).trans (List.suffix_cons c t)),
      Nat.lt_trans this.2 (length_drop_lt c t _)⟩
  | case3 c t hn hc => cases h; exact ⟨List.suffix_cons c t, Nat.lt_succ_self _⟩
  | case4 c t hn hc ih =>
    have := ih h
    exact ⟨this.1.trans (List.suffix_cons c t), Nat.lt_succ_of_lt this.2⟩

theorem keeps_skipStatement : Keeps skipStatement := by
  intro s
  simp only [after, skipStatement]
  cases h : statementEnd? s.cells with
  | none => simp
  | some r => exact (suffix_statementEnd h).1

theorem advances_skipStatement : Advances skipStatement := by
  intro s a t _ e
  simp only [skipStatement] at e
  split at e
  · next r h => cases e; exact (suffix_statementEnd h).2
  · simp at e

theorem suffix_itemEnd {cs r : List Cell} (h : itemEnd cs = .ok r) :
    r <:+ cs ∧ (cs ≠ [] → r.length < cs.length) := by
  fun_induction itemEnd cs generalizing r with
  | case1 => cases h; simp
  | case2 c t n hn hc =>
    cases h
    exact ⟨(List.drop_suffix _ t).trans (List.suffix_cons c t), fun _ => length_drop_lt c t _⟩
  | case3 c t n hn hc ih =>
    have h1 := (ih h).1
    exact ⟨h1.trans ((List.drop_suffix _ t).trans (List.suffix_cons c t)),
      fun _ => Nat.lt_of_le_of_lt h1.length_le (length_drop_lt c t _)⟩
  | case4 => simp at h
  | case5 c t hn hc1 hc2 => cases h; exact ⟨List.suffix_cons c t, fun _ => Nat.lt_succ_self _⟩
  | case6 c t hn hc1 hc2 ih =>
    have h1 := (ih h).1
    exact ⟨h1.trans (List.suffix_cons c t), fun _ => Nat.lt_succ_of_le h1.length_le⟩

theorem keeps_skipItem : Keeps skipItem := by
  intro s
  simp only [after, skipItem]
  cases h : itemEnd s.cells with
  | error f => simp
  | ok r => exact (suffix_itemEnd h).1

theorem advances_skipItem : Advances skipItem := by
  intro s a t hs e
  simp only [skipItem] at e
  split at e
  · next r h => cases e; exact (suffix_itemEnd h).2 hs
  · simp at e

theorem suffix_whereEnd {cs r : List Cell} (h : whereEnd cs = .ok r) : r <:+ cs := by
  fun_induction whereEnd cs generalizing r with
  | case1 => cases h; simp
  | case2 => cases h; simp
  | case3 c t hc1 hc2 n hn ih => exact (ih h).trans ((List.drop_suffix _ t).trans (List.suffix_cons c t))
  | case4 => simp at h
  | case5 c t hc1 hc2 ih => exact (ih h).trans (List.suffix_cons c t)

theorem keeps_skipWhere : Keeps skipWhere := by
  intro s
  simp only [after, skipWhere]
  by_cases hw : isAt s.cells "where"
  · cases h : whereEnd s.cells with
    | error f => simp [hw]
    | ok r => simpa [hw] using suffix_whereEnd h
  · simp [hw]

theorem keeps_skipMacroBody : Keeps skipMacroBody := by
  refine .bind keeps_cells fun cs => ?_
  split
  · split
    · exact .bind keeps_skipGroup fun _ => .bind (keeps_at _ _) fun _ => .ite keeps_skip (.pure _)
    · exact keeps_failHere _
  · exact keeps_failHere _

theorem keeps_skipMacroTail : Keeps (do
    if (← cells).head?.map (fun c => c.token.kind) = some .ident then skip
    skipMacroBody : Read Unit) := by
  refine .bind keeps_cells fun _ => ?_
  split
  · exact .bind keeps_skip fun _ => keeps_skipMacroBody
  · exact keeps_skipMacroBody

theorem keeps_skipMacro : Keeps skipMacro := .bind keeps_skip fun _ => .bind keeps_skip fun _ => keeps_skipMacroTail

theorem advances_skipMacro : Advances skipMacro :=
  .bind_right advances_skip fun _ => .bind keeps_skip fun _ => keeps_skipMacroTail

end Read
end RingBridge.Source
