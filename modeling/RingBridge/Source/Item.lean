import RingBridge.Document
import RingBridge.Source.Cursor
import RingBridge.Spelling.Primitive
/-!
Items: structs, impls and functions, with their fields, methods and parameters. Bodies are stepped over and types
are kept as spelled. Each round of a loop takes a token, so the loops end.
-/
namespace RingBridge.Source
namespace Read

variable {α : Type}

def collect (step : Bool → Read (Option α)) (h : ∀ first, Advances (step first)) (first : Bool) (s : Cursor) :
    EStateM.Result Fault Cursor (List α) :=
  match _hs : s.cells with
  | [] => .ok [] s
  | _ :: _ =>
    match _e : step first s with
    | .error f t => .error f t
    | .ok none t => .ok [] t
    | .ok (some a) t =>
      match collect step h false t with
      | .error f u => .error f u
      | .ok as u => .ok (a :: as) u
termination_by s.cells.length
decreasing_by exact h first s (some a) t (by simp [_hs]) _e

def within (inner : Cursor) (m : Read α) : Read α := fun s =>
  match m inner with
  | .ok a _ => .ok a s
  | .error f _ => .error f s

theorem keeps_within (inner : Cursor) (m : Read α) : Keeps (within inner m) := by
  intro s
  simp only [after, within]
  cases m inner <;> simp

def fail (f : Fault) : Read α := fun s => .error f s

theorem keeps_fail (f : Fault) : Keeps (fail f : Read α) := fun _ => List.suffix_refl _

theorem advances_fail (f : Fault) : Advances (fail f : Read α) := by
  intro s a t _ e
  simp [fail] at e

def afterBang (cells : List Cell) : List Cell := if isAt cells "!" then cells.tail else cells

theorem suffix_afterBang (cells : List Cell) : afterBang cells <:+ cells := by
  unfold afterBang
  split
  · exact List.tail_suffix cells
  · exact List.suffix_refl cells

/-- The doc comments in front of an item, and what follows them and the attributes among them. -/
def attributeList (lastLine : Nat) (cells : List Cell) : Except Fault (List String × List Cell) :=
  match cells with
  | [] => .ok ([], [])
  | c :: r =>
    if c.token.kind = .doc then
      match attributeList lastLine r with
      | .ok (docs, t) => .ok (c.token.text :: docs, t)
      | .error f => .error f
    else if c.token.text = "#" then
      match _hb : afterBang r with
      | [] => .error (.error .bracketAfterHash lastLine)
      | b :: t =>
        if b.token.isNamed "[" then
          match b.inside with
          | some n => attributeList lastLine (t.drop (n + 1))
          | none => .error .noGroup
        else .error (.error .bracketAfterHash b.token.line)
    else .ok ([], c :: r)
termination_by cells.length
decreasing_by
  · simp
  · have h2 := (suffix_afterBang r).length_le
    rw [_hb] at h2
    simp only [List.length_cons, List.length_drop] at *
    omega

def attributes : Read (List String) := fun s =>
  match attributeList s.lastLine s.cells with
  | .ok (docs, r) => .ok docs { s with cells := r }
  | .error f => .error f s

theorem suffix_attributeList {lastLine : Nat} {cs r : List Cell} {docs : List String}
    (h : attributeList lastLine cs = .ok (docs, r)) : r <:+ cs := by
  fun_induction attributeList lastLine cs generalizing docs r with
  | case1 => cases h; exact List.suffix_refl _
  | case2 c t _ docs' t' _ ih =>
    cases h
    exact (ih ‹_›).trans (List.suffix_cons c t)
  | case3 => simp at h
  | case4 => simp at h
  | case5 c t _ _ b u hb _ n _ ih =>
    have h1 : b :: u <:+ t := hb ▸ suffix_afterBang t
    exact (ih h).trans ((List.drop_suffix _ u).trans ((List.suffix_cons b u).trans
      (h1.trans (List.suffix_cons c t))))
  | case6 => simp at h
  | case7 => simp at h
  | case8 => cases h; exact List.suffix_refl _

theorem keeps_attributes : Keeps attributes := by
  intro s
  simp only [after, attributes]
  cases h : attributeList s.lastLine s.cells with
  | error f => simp
  | ok p => exact suffix_attributeList h

/-- Takes a visibility. Only a bare `pub` makes an item public. -/
def visibility : Read Bool := do
  if ← at_ "pub" then
    skip
    if ← at_ "(" then
      let _ ← skipGroup
      return false
    else return true
  else return false

theorem keeps_visibility : Keeps visibility := by
  refine .bind (keeps_at _ _) fun _ => .ite ?_ (.pure _)
  exact .bind keeps_skip fun _ => .bind (keeps_at _ _) fun _ =>
    .ite (.bind keeps_skipGroup fun _ => .pure _) (.pure _)

def generics : Read Unit := do
  if ← at_ "<" then skipAngles

theorem keeps_generics : Keeps generics := .bind (keeps_at _ _) fun _ => .ite keeps_skipAngles (.pure _)

def optional (text : String) : Read Unit := do
  if ← at_ text then skip

theorem keeps_optional (text : String) : Keeps (optional text) :=
  .bind (keeps_at _ _) fun _ => .ite keeps_skip (.pure _)

def field : Read (Option (Field String)) := do
  let _ ← attributes
  if ← atEnd then return none
  else
    let isPublic ← visibility
    let name ← expectIdent "field name"
    let _ ← expect ":"
    let type ← readType [","] ("type of field " ++ name.text)
    optional ","
    return some ⟨name.text, type, .boolean isPublic⟩

/-- A step that finds the range ended after a first part, or goes on with one that takes a token. -/
theorem advances_unlessEnd {β : Type} {m : Read β} {a : β → α} {n : β → Read α} (hm : Keeps m)
    (hn : ∀ b, Advances (n b)) : Advances (do
      let b ← m
      if ← atEnd then return a b
      else n b : Read α) := by
  intro s x u hs e
  simp only [Bind.bind, EStateM.bind, atEnd] at e
  cases em : m s with
  | error g t => simp [em] at e
  | ok b t =>
    simp only [em] at e
    have h1 := (hm.ok em).length_le
    have hpos := List.length_pos_iff.2 hs
    by_cases ht : t.cells = []
    · simp only [ht, List.isEmpty_nil, if_true] at e
      cases e
      simp [ht, hpos]
    · have hne : t.cells.isEmpty = false := by simp [ht]
      simp only [hne] at e
      have := hn b t x u ht e
      omega

theorem advances_field : Advances field := by
  refine advances_unlessEnd keeps_attributes fun _ => ?_
  refine .bind_left keeps_visibility (fun _ => ?_) fun _ => ?_
  · exact .bind (keeps_expectIdent _) fun _ => .bind (keeps_expect _) fun _ => .bind (keeps_readType _ _) fun _ =>
      .bind (keeps_optional _) fun _ => .pure _
  · exact .bind_right (advances_expectIdent _) fun _ => .bind (keeps_expect _) fun _ =>
      .bind (keeps_readType _ _) fun _ => .bind (keeps_optional _) fun _ => .pure _

def fields : Read (List (Field String)) := collect (fun _ => field) (fun _ => advances_field) true

def comment (docs : List String) : Value := .text (" ".intercalate docs)

/-- The fields of a struct; the positional ones of a tuple struct have no names and are left out. -/
def structBody : Read (List (Field String)) := do
  if ← at_ "\x7b" then
    let inner ← skipGroup
    within inner fields
  else if ← at_ "(" then
    let _ ← skipGroup
    skipWhere
    let _ ← expect ";"
    return []
  else
    let _ ← expect ";"
    return []

def struct (isPublic : Bool) (docs : List String) : Read (Struct String) := do
  let _ ← expect "struct"
  let name ← expectIdent "struct name"
  generics
  skipWhere
  let fields ← structBody
  return ⟨name.text, fields, .boolean isPublic, comment docs⟩

theorem keeps_structBody : Keeps structBody := by
  refine .bind (keeps_at _ _) fun _ => .ite (.bind keeps_skipGroup fun _ => keeps_within _ _) ?_
  refine .bind (keeps_at _ _) fun _ => .ite ?_ ?_
  · exact .bind keeps_skipGroup fun _ => .bind keeps_skipWhere fun _ => .bind (keeps_expect _) fun _ => .pure _
  · exact .bind (keeps_expect _) fun _ => .pure _

theorem keeps_structTail (isPublic : Bool) (docs : List String) : Keeps (do
    let name ← expectIdent "struct name"
    generics
    skipWhere
    let fields ← structBody
    return (⟨name.text, fields, .boolean isPublic, comment docs⟩ : Struct String) : Read (Struct String)) :=
  .bind (keeps_expectIdent _) fun _ => .bind keeps_generics fun _ => .bind keeps_skipWhere fun _ =>
    .bind keeps_structBody fun _ => .pure _

theorem keeps_struct (isPublic : Bool) (docs : List String) : Keeps (struct isPublic docs) :=
  .bind (keeps_expect _) fun _ => keeps_structTail isPublic docs

theorem advances_struct (isPublic : Bool) (docs : List String) : Advances (struct isPublic docs) :=
  .bind_right (advances_expect _) fun _ => keeps_structTail isPublic docs

def paramCut (depth : Int) (cells : List Cell) : List Token × List Cell :=
  match cells with
  | [] => ([], [])
  | c :: r =>
    match c.inside with
    | some n =>
      let rest := paramCut depth (r.drop (n + 1))
      (c.token :: (r.take (n + 1)).map Cell.token ++ rest.1, rest.2)
    | none =>
      if c.token.text = "," && depth = 0 then ([], r)
      else
        let step := if c.token.text = "<" then 1 else if c.token.text = ">" then -1 else 0
        let rest := paramCut (depth + step) r
        (c.token :: rest.1, rest.2)
termination_by cells.length
decreasing_by
  all_goals simp only [List.length_cons, List.length_drop]
  all_goals omega

theorem suffix_paramCut (depth : Int) (cs : List Cell) :
    (paramCut depth cs).2 <:+ cs ∧ (cs ≠ [] → (paramCut depth cs).2.length < cs.length) := by
  fun_induction paramCut depth cs with
  | case1 => simp
  | case2 depth c r n hn rest ih =>
    exact ⟨ih.1.trans ((List.drop_suffix _ r).trans (List.suffix_cons c r)),
      fun _ => Nat.lt_of_le_of_lt ih.1.length_le (length_drop_lt c r _)⟩
  | case3 depth c r hn hc => exact ⟨List.suffix_cons c r, fun _ => Nat.lt_succ_self _⟩
  | case4 depth c r hn hc step rest ih =>
    exact ⟨ih.1.trans (List.suffix_cons c r), fun _ => Nat.lt_succ_of_le ih.1.length_le⟩

def paramTokens : Read (List Token) := fun s =>
  .ok (paramCut 0 s.cells).1 { s with cells := (paramCut 0 s.cells).2 }

theorem keeps_paramTokens : Keeps paramTokens := fun s => (suffix_paramCut 0 s.cells).1

theorem advances_paramTokens : Advances paramTokens := by
  intro s a t hs e
  cases e
  exact (suffix_paramCut 0 s.cells).2 hs

def receiverOf (pattern type : List String) : Receiver :=
  if type.isEmpty then
    if pattern.head? = some "&" then if pattern.contains "mut" then .byMutRef else .byRef else .byValue
  else
    let cs := (spelling type).toList
    if cs.head? = some '&' then if RingBridge.Spelling.isMutReference cs then .byMutRef else .byRef else .byValue

def patternName (pattern : List String) : String :=
  match pattern.filter fun t => t != "mut" && t != "ref" with
  | [name] => name
  | _ => "_"

inductive Taken where
  | param (p : Param String)
  | receiver (r : Receiver)

def takenOf (first : Bool) (texts : List String) : Except Cause Taken :=
  let pattern := texts.takeWhile (· != ":")
  let rest := texts.dropWhile (· != ":")
  -- Only the first parameter can be a receiver.
  if first && pattern.getLast? = some "self" then .ok (.receiver (receiverOf pattern rest.tail))
  else match rest with
    | [] => .error (.untypedParam (" ".intercalate texts))
    | _ :: type => .ok (.param ⟨patternName pattern, spelling type⟩)

def param (first : Bool) : Read (Option Taken) := do
  let _ ← attributes
  let tokens ← paramTokens
  match tokens with
  | [] => return none
  | t :: _ =>
    match takenOf first (tokens.map Token.text) with
    | .ok taken => return some taken
    | .error cause => fail (.error cause t.line)

theorem advances_param (first : Bool) : Advances (param first) := by
  have tail : ∀ tokens : List Token, Keeps (match tokens with
      | [] => return none
      | t :: _ =>
        match takenOf first (tokens.map Token.text) with
        | .ok taken => return some taken
        | .error cause => fail (.error cause t.line) : Read (Option Taken)) := by
    intro tokens
    split
    · exact .pure _
    · split
      · exact .pure _
      · exact keeps_fail _
  exact .bind_left keeps_attributes (fun _ => .bind keeps_paramTokens tail)
    fun _ => .bind_right advances_paramTokens tail

def params : Read (List Taken) := collect param advances_param true

def paramsOf (ts : List Taken) : List (Param String) :=
  ts.filterMap fun
    | .param p => some p
    | .receiver _ => none

def receiverIn (ts : List Taken) : Receiver :=
  (ts.findSome? fun
    | .receiver r => some r
    | .param _ => none).getD .absent

def qualifiers : List String := ["const", "async", "unsafe", "extern", "default"]

/-- Whether a function starts here: `fn`, after qualifiers and perhaps the name of a calling convention. -/
def fnAheadFrom (prev : Option Token) : List Cell → Bool
  | [] => false
  | c :: r =>
    if c.token.kind = .ident && c.token.text = "fn" then true
    else if c.token.kind = .ident && qualifiers.contains c.token.text then fnAheadFrom (some c.token) r
    else if c.token.kind = .literal && (prev.any fun p => p.isNamed "extern") then fnAheadFrom (some c.token) r
    else false

def fnAhead (cells : List Cell) : Bool := fnAheadFrom none cells

def seekFn : Read Unit := fun s => .ok () { s with cells := s.cells.dropWhile fun c => !c.token.isNamed "fn" }

theorem keeps_seekFn : Keeps seekFn := fun _ => List.dropWhile_suffix _

def result (name : String) : Read (Option String) := do
  if ← at_ "->" then
    skip
    let type ← readType ["\x7b", ";", "where"] ("return type of " ++ name)
    -- The unit type counts as no result.
    return if type = "()" then none else some type
  else return none

def paramGroup (name : String) : Read (List Taken) := do
  if ← at_ "(" then
    let inner ← skipGroup
    within inner params
  else failHere (.parenAfterName name)

def functionBody : Read Unit := do
  if ← at_ "\x7b" then
    let _ ← skipGroup
  else
    let _ ← expect ";"

def function (isPublic : Bool) (docs : List String) : Read (Function String) := do
  seekFn
  let _ ← expect "fn"
  let name ← expectIdent "function name"
  generics
  let taken ← paramGroup name.text
  let result ← result name.text
  skipWhere
  functionBody
  return ⟨name.text, paramsOf taken, result, .boolean isPublic, receiverIn taken, comment docs⟩

theorem keeps_result (name : String) : Keeps (result name) :=
  .bind (keeps_at _ _) fun _ => .ite (.bind keeps_skip fun _ => .bind (keeps_readType _ _) fun _ => .pure _) (.pure _)

theorem keeps_paramGroup (name : String) : Keeps (paramGroup name) :=
  .bind (keeps_at _ _) fun _ => .ite (.bind keeps_skipGroup fun _ => keeps_within _ _) (keeps_failHere _)

theorem keeps_functionBody : Keeps functionBody :=
  .bind (keeps_at _ _) fun _ => .ite (.bind keeps_skipGroup fun _ => .pure _) (.bind (keeps_expect _) fun _ => .pure _)

theorem keeps_functionTail (isPublic : Bool) (docs : List String) : Keeps (do
    let name ← expectIdent "function name"
    generics
    let taken ← paramGroup name.text
    let result ← result name.text
    skipWhere
    functionBody
    return (⟨name.text, paramsOf taken, result, .boolean isPublic, receiverIn taken, comment docs⟩ : Function String)
      : Read (Function String)) :=
  .bind (keeps_expectIdent _) fun _ => .bind keeps_generics fun _ => .bind (keeps_paramGroup _) fun _ =>
    .bind (keeps_result _) fun _ => .bind keeps_skipWhere fun _ => .bind keeps_functionBody fun _ => .pure _

theorem keeps_function (isPublic : Bool) (docs : List String) : Keeps (function isPublic docs) :=
  .bind keeps_seekFn fun _ => .bind (keeps_expect _) fun _ => keeps_functionTail isPublic docs

theorem advances_function (isPublic : Bool) (docs : List String) : Advances (function isPublic docs) :=
  .bind_left keeps_seekFn (fun _ => .bind (keeps_expect _) fun _ => keeps_functionTail isPublic docs)
    fun _ => .bind_right (advances_expect _) fun _ => keeps_functionTail isPublic docs

/-- A member of an impl that is no function has no wrapper. -/
def member (isPublic : Bool) (docs : List String) : Read (Option (Function String)) := do
  let cs ← cells
  if fnAhead cs then return some (← function isPublic docs)
  else match cs with
    | [] => fail .nothingLeft
    | c :: _ =>
      if c.token.text = "const" || c.token.text = "type" then
        skipStatement
        return none
      else if c.token.kind = .ident && isAt cs "!" 1 then
        skipMacro
        return none
      else fail (.error (.unexpectedInImpl c.token.text) c.token.line)

theorem keeps_member (isPublic : Bool) (docs : List String) : Keeps (member isPublic docs) := by
  refine .bind keeps_cells fun cs => .ite (.bind (keeps_function _ _) fun _ => .pure _) ?_
  split
  · exact keeps_fail _
  · refine .ite (.bind keeps_skipStatement fun _ => .pure _) (.ite (.bind keeps_skipMacro fun _ => .pure _) ?_)
    exact keeps_fail _

/-- A step that looks at the cells first. -/
theorem advances_cells {f : List Cell → Read α} (h : ∀ cs, cs ≠ [] → Advances (f cs)) :
    Advances (do f (← cells) : Read α) := fun s a t hs e => h s.cells hs s a t hs e

theorem advances_member (isPublic : Bool) (docs : List String) : Advances (member isPublic docs) := by
  refine advances_cells fun cs _ => .ite (.bind_right (advances_function _ _) fun _ => .pure _) ?_
  split
  · exact advances_fail _
  · refine .ite (.bind_right advances_skipStatement fun _ => .pure _)
      (.ite (.bind_right advances_skipMacro fun _ => .pure _) ?_)
    exact advances_fail _

def method : Read (Option (Option (Function String))) := do
  let docs ← attributes
  if ← atEnd then return none
  else
    let isPublic ← visibility
    return some (← member isPublic docs)

theorem advances_method : Advances method := by
  refine advances_unlessEnd keeps_attributes fun _ => ?_
  exact .bind_left keeps_visibility (fun _ => .bind (keeps_member _ _) fun _ => .pure _)
    fun _ => .bind_right (advances_member _ _) fun _ => .pure _

def methods : Read (List (Option (Function String))) := collect (fun _ => method) (fun _ => advances_method) true

def implBody : Read Cursor := do
  if ← at_ "\x7b" then skipGroup else failHere (.missingText "\x7b")

def traitImpl (trait : String) : Read (Option (Impl String)) := do
  skip
  let target ← readType ["\x7b", "where"] "impl target type"
  skipWhere
  let _ ← implBody
  note (.traitImpl trait target)
  return none

def inherentImpl (line : Nat) (type : String) : Read (Option (Impl String)) := do
  skipWhere
  let inner ← implBody
  let name := Spelling.baseName type
  if name.isEmpty then fail (.error (.missing "impl type") line)
  else
    let methods ← within inner methods
    return some ⟨name, methods.filterMap id⟩

def implFrom (line : Nat) : Read (Option (Impl String)) := do
  generics
  optional "!"
  let type ← readType ["\x7b", "where", "for"] "impl type"
  if ← at_ "for" then traitImpl type else inherentImpl line type

def impl : Read (Option (Impl String)) := do
  optional "unsafe"
  let keyword ← expect "impl"
  implFrom keyword.line

theorem keeps_implBody : Keeps implBody := .bind (keeps_at _ _) fun _ => .ite keeps_skipGroup (keeps_failHere _)

theorem keeps_traitImpl (trait : String) : Keeps (traitImpl trait) :=
  .bind keeps_skip fun _ => .bind (keeps_readType _ _) fun _ => .bind keeps_skipWhere fun _ =>
    .bind keeps_implBody fun _ => .bind (keeps_note _) fun _ => .pure _

theorem keeps_inherentImpl (line : Nat) (type : String) : Keeps (inherentImpl line type) :=
  .bind keeps_skipWhere fun _ => .bind keeps_implBody fun _ =>
    .ite (keeps_fail _) (.bind (keeps_within _ _) fun _ => .pure _)

theorem keeps_implFrom (line : Nat) : Keeps (implFrom line) :=
  .bind keeps_generics fun _ => .bind (keeps_optional _) fun _ => .bind (keeps_readType _ _) fun _ =>
    .bind (keeps_at _ _) fun _ => .ite (keeps_traitImpl _) (keeps_inherentImpl _ _)

theorem advances_impl : Advances impl :=
  .bind_left (keeps_optional _) (fun _ => .bind (keeps_expect _) fun _ => keeps_implFrom _)
    fun _ => .bind_right (advances_expect _) fun _ => keeps_implFrom _

theorem keeps_impl : Keeps impl :=
  .bind (keeps_optional _) fun _ => .bind (keeps_expect _) fun _ => keeps_implFrom _

inductive ItemKind where
  | struct | impl | function | statement | passedOver | macroCall
deriving DecidableEq

def itemKind? (c : Cell) (cs : List Cell) : Option ItemKind :=
  let text := c.token.text
  if text = "struct" then some .struct
  else if text = "impl" || (text = "unsafe" && isAt cs "impl" 1) then some .impl
  else if fnAhead cs then some .function
  else if ["use", "static", "type", "const"].contains text || (text = "extern" && isAt cs "crate" 1) then
    some .statement
  else if ["enum", "mod", "trait", "union", "extern"].contains text
      || ((text = "unsafe" || text = "auto") && isAt cs "trait" 1) then some .passedOver
  else if c.token.kind = .ident && isAt cs "!" 1 then some .macroCall
  else none

def noticeOf (c : Cell) (cs : List Cell) : Option Notice :=
  if ["enum", "trait", "union"].contains c.token.text then
    cs[1]?.map fun n => .item c.token.text n.token.text
  else none

def noteAll : Option Notice → Read Unit
  | some n => note n
  | none => pure ()

def itemBody (isPublic : Bool) (docs : List String) (c : Cell) (cs : List Cell) :
    Read (Option (Declaration String)) :=
  match itemKind? c cs with
  | some .struct => do return some (.struct (← struct isPublic docs))
  | some .impl => do return (← impl).map .impl
  | some .function => do return some (.func (← function isPublic docs))
  | some .statement => do
    skipStatement
    return none
  | some .passedOver => do
    noteAll (noticeOf c cs)
    skipItem
    return none
  | some .macroCall => do
    skipMacro
    return none
  | none => fail (.error (.unexpected c.token.text) c.token.line)

theorem keeps_noteAll (n : Option Notice) : Keeps (noteAll n) := by
  cases n
  · exact .pure _
  · exact keeps_note _

theorem keeps_itemBody (isPublic : Bool) (docs : List String) (c : Cell) (cs : List Cell) :
    Keeps (itemBody isPublic docs c cs) := by
  unfold itemBody
  split
  · exact .bind (keeps_struct _ _) fun _ => .pure _
  · exact .bind keeps_impl fun _ => .pure _
  · exact .bind (keeps_function _ _) fun _ => .pure _
  · exact .bind keeps_skipStatement fun _ => .pure _
  · exact .bind (keeps_noteAll _) fun _ => .bind keeps_skipItem fun _ => .pure _
  · exact .bind keeps_skipMacro fun _ => .pure _
  · exact keeps_fail _

theorem advances_itemBody (isPublic : Bool) (docs : List String) (c : Cell) (cs : List Cell) :
    Advances (itemBody isPublic docs c cs) := by
  unfold itemBody
  split
  · exact .bind_right (advances_struct _ _) fun _ => .pure _
  · exact .bind_right advances_impl fun _ => .pure _
  · exact .bind_right (advances_function _ _) fun _ => .pure _
  · exact .bind_right advances_skipStatement fun _ => .pure _
  · exact .bind_left (keeps_noteAll _) (fun _ => .bind keeps_skipItem fun _ => .pure _)
      fun _ => .bind_right advances_skipItem fun _ => .pure _
  · exact .bind_right advances_skipMacro fun _ => .pure _
  · exact advances_fail _

inductive Found where
  | modulePrefix (text : String)
  | declaration (d : Declaration String)
  | nothing

def foundOf : Option (Declaration String) → Found
  | some d => .declaration d
  | none => .nothing

def head : Read (List String × Bool) := do
  let docs ← attributes
  let isPublic ← visibility
  return (docs, isPublic)

def itemAt (isPublic : Bool) (docs : List String) : List Cell → Read Found
  | [] => return .nothing
  | c :: r => do return foundOf (← itemBody isPublic docs c (c :: r))

def item : Read Found := do
  let h ← head
  if ← atEnd then return .nothing
  else itemAt h.2 h.1 (← cells)

def prefixDirective : Read Found := do
  let _ ← expect "prefix"
  let _ ← expect ":"
  let t ← next
  if t.kind = .literal && t.text.toList.head? = some '"' then
    let _ ← expect ";"
    return .modulePrefix (Text.onText (fun cs => cs.tail.dropLast) t.text)
  else fail (.error .prefixLiteral t.line)

theorem advances_prefixDirective : Advances prefixDirective :=
  .bind_right (advances_expect _) fun _ => .bind (keeps_expect _) fun _ => .bind keeps_next fun _ =>
    .ite (.bind (keeps_expect _) fun _ => .pure _) (keeps_fail _)

theorem keeps_head : Keeps head := .bind keeps_attributes fun _ => .bind keeps_visibility fun _ => .pure _

theorem advances_item : Advances item := by
  refine advances_unlessEnd keeps_head fun h => advances_cells fun cs hcs => ?_
  cases cs with
  | nil => exact absurd rfl hcs
  | cons c r => exact .bind_right (advances_itemBody _ _ _ _) fun _ => .pure _

def topLevel : Read Found := do
  let cs ← cells
  if isAt cs "prefix" && isAt cs ":" 1 then prefixDirective else item

theorem advances_topLevel : Advances topLevel :=
  advances_cells fun _ _ => .ite advances_prefixDirective advances_item

def file : Read (List Found) :=
  collect (fun _ => do return some (← topLevel)) (fun _ => .bind_right advances_topLevel fun _ => .pure _) true

end Read

/-- The inside of the first `ring_extension!` group, if there is one. -/
def extension? (notices : List Notice) : List Cell → Option (Except Fault Cursor)
  | c :: b :: o :: r =>
    if c.token.kind = .ident && c.token.text = "ring_extension" && b.token.text = "!" && isOpeningText o.token.text then
      match o.inside with
      | some n => some (.ok ⟨r.take n, ((r.take n).getLast?.getD o).token.line, notices⟩)
      | none => some (.error .noGroup)
    else extension? notices (b :: o :: r)
  | _ => none

def Cursor.ofCells (cs : List Cell) : Cursor := ⟨cs, (cs.getLast?.map fun c => c.token.line).getD 1, []⟩

def readingRange (cs : List Cell) : Except Fault Cursor := (extension? [] cs).getD (.ok (.ofCells cs))

def prefixIn (found : List Read.Found) : String :=
  (found.reverse.findSome? fun
    | .modulePrefix p => some p
    | _ => none).getD ""

def declarationsIn (found : List Read.Found) : List (Declaration String) :=
  found.filterMap fun
    | .declaration d => some d
    | _ => none

def documentOf (moduleName : String) (found : List Read.Found) : Document String :=
  ⟨.text moduleName, .text (prefixIn found), declarationsIn found, .text ""⟩

structure Reading where
  document : Except Fault (Document String)
  notices : List Notice := []

def readCells (moduleName : String) (cs : List Cell) : Reading :=
  match readingRange cs with
  | .error f => ⟨.error f, []⟩
  | .ok s =>
    match Read.file s with
    | .ok found t => ⟨.ok (documentOf moduleName found), t.notices⟩
    | .error f t => ⟨.error f, t.notices⟩

def cellsOf (text : String) : Except Fault (List Cell) :=
  match tokenize text with
  | .error e => .error (.error (.lex e.cause) e.line)
  | .ok ts =>
    match cells ts with
    | .error e => .error (.error (.group e.cause) e.line)
    | .ok cs => .ok cs

def readSource (text : String) (moduleName : String := "") : Reading :=
  match cellsOf text with
  | .error f => ⟨.error f, []⟩
  | .ok cs => readCells moduleName cs

end RingBridge.Source
