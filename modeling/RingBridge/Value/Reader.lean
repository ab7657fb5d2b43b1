import RingBridge.Value
/-!
JSON text to values. A failure keeps its cause and the text from the offending position on, which gives the line.
-/
namespace RingBridge.Value

inductive SyntaxCause where
  | value
  | propertyName
  | colon
  | comma
  | extraData
  | unterminatedString
  | controlCharacter
  | badEscape
  | badUnicodeEscape
  | byteOrderMark
deriving DecidableEq

def SyntaxCause.message : SyntaxCause → String
  | value => "Expecting value"
  | propertyName => "Expecting property name enclosed in double quotes"
  | colon => "Expecting ':' delimiter"
  | comma => "Expecting ',' delimiter"
  | extraData => "Extra data"
  | unterminatedString => "Unterminated string starting at"
  | controlCharacter => "Invalid control character at"
  | badEscape => "Invalid \\escape"
  | badUnicodeEscape => "Invalid \\uXXXX escape"
  | byteOrderMark => "Unexpected UTF-8 BOM (decode using utf-8-sig)"

structure SyntaxError where
  cause : SyntaxCause
  rest : List Char

def SyntaxError.line (e : SyntaxError) (source : List Char) : Nat :=
  source.count '\n' - e.rest.count '\n' + 1

abbrev Rest (cs : List Char) := { r : List Char // r.length < cs.length }

abbrev Reading (α : Type) (cs : List Char) := Except SyntaxError (α × Rest cs)

def isSpace (c : Char) : Bool := c == ' ' || c == '\t' || c == '\n' || c == '\r'

def skipSpace (cs : List Char) : List Char := cs.dropWhile isSpace

theorem length_skipSpace_le (cs : List Char) : (skipSpace cs).length ≤ cs.length :=
  (List.dropWhile_suffix isSpace).length_le

def hexDigit? (c : Char) : Option Nat :=
  if '0' ≤ c && c ≤ '9' then some (c.toNat - '0'.toNat)
  else if 'a' ≤ c && c ≤ 'f' then some (c.toNat - 'a'.toNat + 10)
  else if 'A' ≤ c && c ≤ 'F' then some (c.toNat - 'A'.toNat + 10)
  else none

def unit? (a b c d : Char) : Option Nat := do
  return (((← hexDigit? a) * 16 + (← hexDigit? b)) * 16 + (← hexDigit? c)) * 16 + (← hexDigit? d)

def isHighSurrogate (n : Nat) : Bool := 0xD800 ≤ n && n ≤ 0xDBFF

def isLowSurrogate (n : Nat) : Bool := 0xDC00 ≤ n && n ≤ 0xDFFF

def unitChar (n : Nat) : Char :=
  if isHighSurrogate n || isLowSurrogate n then Char.ofNat 0xFFFD else Char.ofNat n

def simpleEscape? : Char → Option Char
  | '"' => some '"'
  | '\\' => some '\\'
  | '/' => some '/'
  | 'b' => some (Char.ofNat 8)
  | 'f' => some (Char.ofNat 12)
  | 'n' => some '\n'
  | 'r' => some '\r'
  | 't' => some '\t'
  | _ => none

/-- An escape after its backslash. The four digits of a code unit need a character behind them; a high surrogate
    takes a low one that follows it. -/
def readEscape (cs : List Char) : Except SyntaxCause (Char × Rest cs) :=
  match cs with
  | 'u' :: a :: b :: c :: d :: '\\' :: 'u' :: a' :: b' :: c' :: d' :: e :: r =>
    match unit? a b c d, unit? a' b' c' d' with
    | none, _ => .error .badUnicodeEscape
    | some n, low =>
      if !isHighSurrogate n then
        .ok (unitChar n, ⟨'\\' :: 'u' :: a' :: b' :: c' :: d' :: e :: r, by simp only [List.length_cons]; omega⟩)
      else match low with
        | none => .error .badUnicodeEscape
        | some n' =>
          if isLowSurrogate n' then
            .ok (Char.ofNat (0x10000 + (n - 0xD800) * 0x400 + (n' - 0xDC00)),
              ⟨e :: r, by simp only [List.length_cons]; omega⟩)
          else
            .ok (unitChar n, ⟨'\\' :: 'u' :: a' :: b' :: c' :: d' :: e :: r, by simp only [List.length_cons]; omega⟩)
  | 'u' :: a :: b :: c :: d :: e :: r =>
    match unit? a b c d with
    | none => .error .badUnicodeEscape
    | some n => .ok (unitChar n, ⟨e :: r, by simp only [List.length_cons]; omega⟩)
  | 'u' :: _ => .error .badUnicodeEscape
  | c :: r =>
    match simpleEscape? c with
    | some d => .ok (d, ⟨r, by simp⟩)
    | none => .error .badEscape
  | [] => .error .unterminatedString

def readString (opening : List Char) (read : List Char) (cs : List Char) : Reading String cs :=
  match cs with
  | [] => .error ⟨.unterminatedString, opening⟩
  | '"' :: r => .ok (String.ofList read.reverse, ⟨r, by simp⟩)
  | '\\' :: r =>
    match readEscape r with
    | .error .unterminatedString => .error ⟨.unterminatedString, opening⟩
    | .error cause => .error ⟨cause, '\\' :: r⟩
    | .ok (c, ⟨r', h⟩) =>
      match readString opening (c :: read) r' with
      | .error e => .error e
      | .ok (s, ⟨r'', h'⟩) => .ok (s, ⟨r'', by simp only [List.length_cons]; omega⟩)
  | c :: r =>
    if c.toNat < 0x20 then .error ⟨.controlCharacter, c :: r⟩
    else match readString opening (c :: read) r with
      | .error e => .error e
      | .ok (s, ⟨r', h⟩) => .ok (s, ⟨r', by simp only [List.length_cons]; omega⟩)
termination_by cs.length
decreasing_by all_goals simp only [List.length_cons]; omega

def isDigit (c : Char) : Bool := Text.isAsciiDigit c

def digitsValue (ds : List Char) : Nat := ds.foldl (fun n c => 10 * n + (c.toNat - '0'.toNat)) 0

def readWhole? : List Char → Option (List Char × List Char)
  | '0' :: r => some (['0'], r)
  | c :: r => if isDigit c then some (c :: r.takeWhile isDigit, r.dropWhile isDigit) else none
  | [] => none

def readFraction : List Char → List Char × List Char
  | '.' :: r => if (r.takeWhile isDigit).isEmpty then ([], '.' :: r) else (r.takeWhile isDigit, r.dropWhile isDigit)
  | cs => ([], cs)

def readExponent? (cs : List Char) : Option (Int × List Char) :=
  match cs with
  | c :: r =>
    if c == 'e' || c == 'E' then
      let (negative, r) := match r with
        | '-' :: t => (true, t)
        | '+' :: t => (false, t)
        | _ => (false, r)
      let ds := r.takeWhile isDigit
      if ds.isEmpty then none
      else
        let size : Int := digitsValue ds
        some (if negative then -size else size, r.dropWhile isDigit)
    else none
  | [] => none

def readUnsigned? (negative : Bool) (cs : List Char) : Option (Value × List Char) := do
  let (whole, r) ← readWhole? cs
  let (fraction, r) := readFraction r
  match readExponent? r, fraction with
  | none, [] =>
    let n : Int := digitsValue whole
    return (integer (if negative then -n else n), r)
  | none, _ => return (decimal whole fraction 0, r)
  | some (e, r), _ => return (decimal whole fraction e, r)
where
  decimal (whole fraction : List Char) (e : Int) : Value :=
    let digits := (whole ++ fraction).dropWhile (· == '0')
    real (Binary64.ofDecimal negative (digitsValue digits) digits.length (e - fraction.length))

def dropWord? (word cs : List Char) : Option (List Char) :=
  if word.isPrefixOf cs then some (cs.drop word.length) else none

def readAtom? (cs : List Char) : Option (Value × List Char) :=
  match dropWord? "null".toList cs, dropWord? "true".toList cs, dropWord? "false".toList cs with
  | some r, _, _ => some (null, r)
  | _, some r, _ => some (boolean true, r)
  | _, _, some r => some (boolean false, r)
  | _, _, _ =>
    match dropWord? "NaN".toList cs, dropWord? "Infinity".toList cs, dropWord? "-Infinity".toList cs with
    | some r, _, _ => some (real .nan, r)
    | _, some r, _ => some (real (.infinite false), r)
    | _, _, some r => some (real (.infinite true), r)
    | _, _, _ =>
      match cs with
      | '-' :: r => readUnsigned? true r
      | _ => readUnsigned? false cs

def finish {α : Type} (cs r : List Char) (a : α) : Reading α cs :=
  if h : r.length < cs.length then .ok (a, ⟨r, h⟩) else .error ⟨.value, cs⟩

mutual

def readValue (cs : List Char) : Reading Value cs :=
  match cs with
  | '"' :: r =>
    match readString ('"' :: r) [] r with
    | .error e => .error e
    | .ok (s, ⟨r', h⟩) => .ok (text s, ⟨r', by simp only [List.length_cons]; omega⟩)
  | '[' :: r =>
    have hs := length_skipSpace_le r
    match hr : skipSpace r with
    | ']' :: r' => .ok (list [], ⟨r', by rw [hr] at hs; simp only [List.length_cons] at *; omega⟩)
    | _ =>
      match readItems (skipSpace r) with
      | .error e => .error e
      | .ok (vs, ⟨r', h⟩) => .ok (list vs, ⟨r', by simp only [List.length_cons]; omega⟩)
  | '\x7b' :: r =>
    have hs := length_skipSpace_le r
    match hr : skipSpace r with
    | '\x7d' :: r' => .ok (record [], ⟨r', by rw [hr] at hs; simp only [List.length_cons] at *; omega⟩)
    | _ =>
      match readFields ⟨[]⟩ (skipSpace r) with
      | .error e => .error e
      | .ok (fs, ⟨r', h⟩) => .ok (record fs.entries, ⟨r', by simp only [List.length_cons]; omega⟩)
  | cs =>
    match readAtom? cs with
    | some (v, r) => finish cs r v
    | none => .error ⟨.value, cs⟩
termination_by (cs.length, 0)
decreasing_by
  all_goals
    have := length_skipSpace_le r
    simp only [Prod.lex_def, List.length_cons]
    omega

def readItems (cs : List Char) : Reading (List Value) cs :=
  match readValue cs with
  | .error e => .error e
  | .ok (v, ⟨r, h⟩) =>
    have hs := length_skipSpace_le r
    match hr : skipSpace r with
    | ']' :: r' => .ok ([v], ⟨r', by rw [hr] at hs; simp only [List.length_cons] at *; omega⟩)
    | ',' :: r' =>
      have ht := length_skipSpace_le r'
      match readItems (skipSpace r') with
      | .error e => .error e
      | .ok (vs, ⟨r'', h'⟩) =>
        .ok (v :: vs, ⟨r'', by rw [hr] at hs; simp only [List.length_cons] at *; omega⟩)
    | _ => .error ⟨.comma, skipSpace r⟩
termination_by (cs.length, 1)
decreasing_by
  · exact Prod.Lex.right _ Nat.zero_lt_one
  · rw [hr] at hs
    simp only [Prod.lex_def, List.length_cons] at *
    omega

/-- Fields of a record up to its closing brace; there is at least one. A name that comes again keeps its place
    and takes the later value. -/
def readFields (fields : Table String Value) (cs : List Char) : Reading (Table String Value) cs :=
  match cs with
  | '"' :: r =>
    match readString ('"' :: r) [] r with
    | .error e => .error e
    | .ok (k, ⟨r1, h1⟩) =>
      have hs1 := length_skipSpace_le r1
      match hr1 : skipSpace r1 with
      | ':' :: r2 =>
        have hs2 := length_skipSpace_le r2
        match readValue (skipSpace r2) with
        | .error e => .error e
        | .ok (v, ⟨r3, h3⟩) =>
          have hs3 := length_skipSpace_le r3
          match hr3 : skipSpace r3 with
          | '\x7d' :: r4 =>
            .ok (fields.put k v, ⟨r4, by rw [hr1] at hs1; rw [hr3] at hs3; simp only [List.length_cons] at *; omega⟩)
          | ',' :: r4 =>
            have hs4 := length_skipSpace_le r4
            match readFields (fields.put k v) (skipSpace r4) with
            | .error e => .error e
            | .ok (fs, ⟨r5, h5⟩) =>
              .ok (fs, ⟨r5, by rw [hr1] at hs1; rw [hr3] at hs3; simp only [List.length_cons] at *; omega⟩)
          | _ => .error ⟨.comma, skipSpace r3⟩
      | _ => .error ⟨.colon, skipSpace r1⟩
  | _ => .error ⟨.propertyName, cs⟩
termination_by (cs.length, 1)
decreasing_by
  · rw [hr1] at hs1
    simp only [Prod.lex_def, List.length_cons] at *
    omega
  · rw [hr1] at hs1
    rw [hr3] at hs3
    simp only [Prod.lex_def, List.length_cons] at *
    omega

end

def ofJson (cs : List Char) : Except SyntaxError Value :=
  match cs with
  | c :: r =>
    if c.toNat = 0xFEFF then .error ⟨.byteOrderMark, c :: r⟩
    else match readValue (skipSpace (c :: r)) with
      | .error e => .error e
      | .ok (v, ⟨t, _⟩) => if (skipSpace t).isEmpty then .ok v else .error ⟨.extraData, skipSpace t⟩
  | [] => .error ⟨.value, []⟩

end RingBridge.Value
