import RingBridge.Text.Word
/-!
Options of the command. Long ones may be cut short as long as one option alone begins so, and a value may follow
its option behind an equals sign or, for a short one, directly. Two dashes alone end the options.
-/
namespace RingBridge.Command

structure Options where
  input : String
  output : Option String := none
  modulePrefix : Option String := none
  ignored : List String := []
  docs : Option String := none
  dump : Option String := none
deriving DecidableEq, Repr

/-- Why there are no options to run with. `noValue` is two dashes given as the value of an option. -/
inductive Refusal where
  | usage | help | noValue
deriving DecidableEq, Repr

inductive Flag where
  | help | output | modulePrefix | ignore | docs | dump
deriving DecidableEq, Repr

namespace Flag

def spellings : List (String × Flag) :=
  [("-h", help), ("--help", help), ("-o", output), ("--output", output), ("--prefix", modulePrefix),
    ("--ignore", ignore), ("--docs", docs), ("--dump-ir", dump)]

def named? (name : List Char) : Option Flag := (spellings.find? fun s => s.1.toList = name).map (·.2)

def beginning (name : List Char) : List Flag :=
  (spellings.filter fun s => name.isPrefixOf s.1.toList).map (·.2)

end Flag

inductive Mark where
  | flag (f : Flag) (value : Option String)
  | argument (text : String)
  | unknown (text : String)
  | separator
deriving DecidableEq, Repr

namespace Mark

def cutValue (cs : List Char) : List Char × Option String :=
  match cs.dropWhile (· != '=') with
  | [] => (cs, none)
  | _ :: value => (cs.takeWhile (· != '='), some (String.ofList value))

def isDigits (cs : List Char) : Bool := !cs.isEmpty && cs.all Text.isDigit

/-- A decimal number behind its minus sign; one line feed may end it. -/
def isNumber (cs : List Char) : Bool :=
  let cs := if cs.getLast? = some '\n' then cs.dropLast else cs
  isDigits cs || match cs.dropWhile Text.isDigit with
    | '.' :: fraction => isDigits fraction
    | _ => false

def shortened (c : Char) (r : List Char) : List Mark :=
  if c = '-' then
    let (name, value) := cutValue ('-' :: c :: r)
    (Flag.beginning name).map fun f => flag f value
  else (Flag.named? ['-', c]).toList.map fun f => flag f (some (String.ofList r))

def ofArgument (text : String) : Except Refusal Mark :=
  match text.toList with
  | '-' :: c :: r =>
    let (name, value) := cutValue ('-' :: c :: r)
    match Flag.named? ('-' :: c :: r), Flag.named? name, shortened c r with
    | some f, _, _ => .ok (flag f none)
    | _, some f, _ => .ok (flag f value)
    | _, _, [m] => .ok m
    | _, _, _ :: _ => .error .usage
    | _, _, [] => .ok (if isNumber (c :: r) || text.toList.contains ' ' then argument text else unknown text)
  | _ => .ok (argument text)

def ofArguments : List String → Except Refusal (List Mark)
  | [] => .ok []
  | text :: r =>
    if text = "--" then .ok (separator :: r.map argument)
    else do
      let m ← ofArgument text
      return m :: (← ofArguments r)

def argument? : Mark → Option String
  | argument text => some text
  | _ => none

end Mark

structure Met where
  input : Option String := none
  output : Option String := none
  modulePrefix : Option String := none
  ignored : List String := []
  docs : Option String := none
  dump : Option String := none
  /-- Whether an argument was met that nothing takes. -/
  surplus : Bool := false

namespace Met

def set (m : Met) (value : String) : Flag → Met
  | .output => { m with output := some value }
  | .modulePrefix => { m with modulePrefix := some value }
  | .docs => { m with docs := some value }
  | .dump => { m with dump := some value }
  | .ignore => { m with ignored := [value] }
  | .help => m

/-- Sets an option from the value in the same argument. Two dashes do not count as a value. -/
def setJoined (m : Met) (f : Flag) (value : String) : Except Refusal Met :=
  match f with
  | .help => .error .usage
  | .ignore => .ok { m with ignored := if value = "--" then [] else [value] }
  | f => if value = "--" then .error .noValue else .ok (m.set value f)

def dropSeparator : List Mark → List Mark
  | .separator :: r => r
  | ms => ms

def front (ms : List Mark) : List String := (ms.takeWhile fun a => a.argument?.isSome).filterMap Mark.argument?

def afterFront (ms : List Mark) : List Mark := ms.dropWhile fun a => a.argument?.isSome

theorem length_dropSeparator_le (ms : List Mark) : (dropSeparator ms).length ≤ ms.length := by
  unfold dropSeparator
  split <;> simp

theorem length_afterFront_le (ms : List Mark) : (afterFront ms).length ≤ ms.length :=
  (List.dropWhile_suffix _).length_le

/-- Goes through the marks. The first argument that no option takes is the input, with a separator on either side. -/
def through (m : Met) (ms : List Mark) : Except Refusal Met :=
  match ms with
  | [] => .ok m
  | .flag f (some value) :: r => do through (← m.setJoined f value) r
  | .flag .help none :: _ => .error .help
  | .flag .ignore none :: .argument name :: r =>
    through { m with ignored := name :: front r } (afterFront r)
  | .flag f none :: .argument value :: r => through (m.set value f) r
  | .flag _ none :: _ => .error .usage
  | .unknown _ :: r => through { m with surplus := true } r
  | .argument value :: r =>
    if m.input.isSome then through { m with surplus := true } r
    else through { m with input := some value } (dropSeparator r)
  | .separator :: .argument value :: r =>
    if m.input.isSome then through { m with surplus := true } r else through { m with input := some value } r
  | .separator :: r => through { m with surplus := true } r
termination_by ms.length
decreasing_by
  all_goals simp only [List.length_cons]
  all_goals try omega
  · exact Nat.lt_succ_of_le (Nat.le_succ_of_le (length_afterFront_le _))
  · exact Nat.lt_succ_of_le (length_dropSeparator_le _)

def options (m : Met) : Except Refusal Options :=
  match m.input with
  | some input =>
    if m.surplus then .error .usage
    else .ok ⟨input, m.output, m.modulePrefix, m.ignored, m.docs, m.dump⟩
  | none => .error .usage

end Met

def Options.parse (args : List String) : Except Refusal Options := do
  let marks ← Mark.ofArguments args
  (← Met.through {} marks).options

end RingBridge.Command
