import RingBridge.Text.Blank
import RingBridge.Text.Word
/-!
Tokens of Rust source. Blanks and comments are gaps between tokens; a doc comment is a token that holds its text.
A lexeme is one gap or token, and no lexeme is empty.
-/
namespace RingBridge.Source
open Text

inductive TokenKind where
  | ident | lifetime | literal | punct | doc
deriving DecidableEq, Repr

structure Token where
  kind : TokenKind
  text : String
  line : Nat
deriving DecidableEq

inductive LexCause where
  | blockComment | rawString | string | character
deriving DecidableEq

def LexCause.message : LexCause → String
  | blockComment => "unterminated block comment"
  | rawString => "unterminated raw string"
  | string => "unterminated string literal"
  | character => "malformed character literal"

abbrev Cut := List Char × List Char

def extend (cs : List Char) (c : Cut) : Cut := (cs ++ c.1, c.2)

def spanOf (p : Char → Bool) (cs : List Char) : Cut := (cs.takeWhile p, cs.dropWhile p)

def blockComment (depth : Nat) : List Char → Option Cut
  | '/' :: '*' :: r => (blockComment (depth + 1) r).map (extend ['/', '*'])
  | '*' :: '/' :: r =>
    if depth ≤ 1 then some (['*', '/'], r) else (blockComment (depth - 1) r).map (extend ['*', '/'])
  | c :: r => (blockComment depth r).map (extend [c])
  | [] => none

/-- Three slashes and not four. -/
def isLineDoc : List Char → Bool
  | '/' :: '/' :: '/' :: '/' :: _ => false
  | '/' :: '/' :: '/' :: _ => true
  | _ => false

def lineDoc (source : List Char) : List Char := trim (source.drop 3)

/-- Two stars and not three; the comment with nothing in it is no doc comment. -/
def isBlockDoc : List Char → Bool
  | '/' :: '*' :: '*' :: '*' :: _ => false
  | '/' :: '*' :: '*' :: r => r != ['/']
  | _ => false

def docLine (cs : List Char) : List Char := trim ((trim cs).dropWhile (· == '*'))

def blockDoc (source : List Char) : List Char :=
  trim ([' '].intercalate ((lines ((source.drop 3).dropLast.dropLast)).map docLine))

def through (pattern : List Char) : List Char → Option Cut
  | [] => if pattern.isEmpty then some ([], []) else none
  | c :: r =>
    if pattern.isPrefixOf (c :: r) then some (pattern, (c :: r).drop pattern.length)
    else (through pattern r).map (extend [c])

def rawMark? : List Char → Option Cut
  | 'r' :: r =>
    match r.dropWhile (· == '#') with
    | '"' :: t => some (r.takeWhile (· == '#'), t)
    | _ => none
  | _ => none

def rawOpening? (cs : List Char) : Option Cut :=
  rawMark? (match cs with
    | 'b' :: r => r
    | _ => cs)

def stringBody : List Char → Option Cut
  | '\\' :: c :: r => (stringBody r).map (extend ['\\', c])
  | '"' :: r => some (['"'], r)
  | ['\\'] => none
  | c :: r => (stringBody r).map (extend [c])
  | [] => none

def isHexDigit (c : Char) : Bool := isAsciiDigit c || ('a' ≤ c && c ≤ 'f') || ('A' ≤ c && c ≤ 'F')

def braced? : List Char → Option Cut
  | '\x7b' :: r =>
    let ds := r.takeWhile isHexDigit
    match r.dropWhile isHexDigit with
    | '\x7d' :: t => if 1 ≤ ds.length && ds.length ≤ 6 then some ('\x7b' :: ds ++ ['\x7d'], t) else none
    | _ => none
  | _ => none

def closingQuote? : List Char → Option Cut
  | '\'' :: r => some (['\''], r)
  | _ => none

/-- A character after its opening quote. Of an escape, the long forms are tried before the single character. -/
def characterBody? : List Char → Option Cut
  | '\\' :: r =>
    (longEscape? r).or (match r with
      | c :: t => if c == '\n' then none else (closingQuote? t).map (extend ['\\', c])
      | [] => none)
  | c :: r => if c == '\'' || c == '\n' then none else (closingQuote? r).map (extend [c])
  | [] => none
where
  longEscape? : List Char → Option Cut
    | 'x' :: a :: b :: r =>
      if isHexDigit a && isHexDigit b then (closingQuote? r).map (extend ['\\', 'x', a, b]) else none
    | 'u' :: r =>
      match braced? r with
      | some (ds, t) => (closingQuote? t).map (extend ('\\' :: 'u' :: ds))
      | none => none
    | _ => none

def nameCut? : List Char → Option Cut
  | c :: r => if isNameStart c then some (extend [c] (spanOf isWord r)) else none
  | [] => none

def identifier? : List Char → Option Cut
  | 'r' :: '#' :: r =>
    match nameCut? r with
    | some c => some (extend ['r', '#'] c)
    | none => nameCut? ('r' :: '#' :: r)
  | cs => nameCut? cs

/-- Digits and letters, with one fraction if a digit follows the point. -/
def number? : List Char → Option Cut
  | c :: r =>
    if isDigit c then
      match r.dropWhile isWord with
      | '.' :: d :: t =>
        if isDigit d then some (extend (c :: r.takeWhile isWord ++ ['.', d]) (spanOf isWord t))
        else some (c :: r.takeWhile isWord, '.' :: d :: t)
      | t => some (c :: r.takeWhile isWord, t)
    else none
  | [] => none

structure Lexeme where
  kind : Option TokenKind
  source : List Char
  rest : List Char

def Lexeme.of (kind : Option TokenKind) (c : Cut) : Lexeme := ⟨kind, c.1, c.2⟩

def Lexeme.text (l : Lexeme) : List Char :=
  match l.kind with
  | some .doc => if isLineDoc l.source then lineDoc l.source else blockDoc l.source
  | _ => l.source

def quoted (lead : List Char) (body : Option Cut) (cause : LexCause) : Except LexCause Lexeme :=
  match body with
  | some c => .ok (.of (some .literal) (extend lead c))
  | none => .error cause

def character (lead cs : List Char) : Except LexCause Lexeme :=
  match characterBody? cs with
  | some c => .ok (.of (some .literal) (extend lead c))
  | none =>
    if lead == ['\''] then
      match nameCut? cs with
      | some c => .ok (.of (some .lifetime) (extend lead c))
      | none => .error .character
    else .error .character

def raw (cs : List Char) (opening : Cut) : Except LexCause Lexeme :=
  match through ('"' :: opening.1) opening.2 with
  | some c => .ok (.of (some .literal) (extend (cs.take (cs.length - opening.2.length)) c))
  | none => .error .rawString

/-- Identifiers, numbers and punctuation; of the latter three pairs stay together. -/
def plain (cs : List Char) (c : Char) (r : List Char) : Lexeme :=
  match identifier? cs with
  | some i => .of (some .ident) i
  | none =>
    match number? cs with
    | some n => .of (some .literal) n
    | none =>
      match cs with
      | '-' :: '>' :: t => ⟨some .punct, ['-', '>'], t⟩
      | '=' :: '>' :: t => ⟨some .punct, ['=', '>'], t⟩
      | ':' :: ':' :: t => ⟨some .punct, [':', ':'], t⟩
      | _ => ⟨some .punct, [c], r⟩

def lexeme (c : Char) (r : List Char) : Except LexCause Lexeme :=
  if isBlank c then .ok ⟨none, [c], r⟩
  else match c, r with
    | '/', '/' :: _ =>
      let cut := spanOf (· != '\n') (c :: r)
      .ok (.of (if isLineDoc cut.1 then some .doc else none) cut)
    | '/', '*' :: t =>
      match blockComment 1 t with
      | some cut =>
        let cut := extend ['/', '*'] cut
        .ok (.of (if isBlockDoc cut.1 then some .doc else none) cut)
      | none => .error .blockComment
    | _, _ =>
      match rawOpening? (c :: r) with
      | some opening => raw (c :: r) opening
      | none =>
        match c, r with
        | '"', _ => quoted ['"'] (stringBody r) .string
        | 'b', '"' :: t => quoted ['b', '"'] (stringBody t) .string
        | '\'', _ => character ['\''] r
        | 'b', '\'' :: t => character ['b', '\''] t
        | _, _ => .ok (plain (c :: r) c r)

end RingBridge.Source
