import Mathlib.Data.List.Basic
import RingBridge.Proofs.Module.Lines
import RingBridge.Proofs.Source.Below
import RingBridge.Proofs.Source.Starts
import RingBridge.Text.Replace
/-!
Texts in quotes. A text is read back from its literal by dropping the outer quotes and undoing the escapes, and the
tokenizer takes the literal whole, whatever stands behind it. So the name in a row of the table of registrations
cannot end its literal early.
-/
namespace RingBridge
open Text Source

def unescapeLiteral : List Char → List Char
  | '\\' :: '\\' :: r => '\\' :: unescapeLiteral r
  | '\\' :: '"' :: r => '"' :: unescapeLiteral r
  | c :: r => c :: unescapeLiteral r
  | [] => []

/-- The text that a literal stands for: its outer quotes are dropped and its escapes undone. -/
def unquoteLiteral (s : String) : String := String.ofList (unescapeLiteral s.toList.tail.dropLast)

theorem toList_quoteLiteral (t : String) : (quoteLiteral t).toList = '"' :: (escapeLiteral t.toList ++ ['"']) := by
  rw [quoteLiteral, String.toList_ofList]
  rfl

theorem unescapeLiteral_escapeLiteral (cs : List Char) : unescapeLiteral (escapeLiteral cs) = cs := by
  fun_induction escapeLiteral cs with
  | case1 => rfl
  | case2 c r hc ih =>
    obtain rfl | rfl : c = '\\' ∨ c = '"' := by simpa using hc
    · rw [unescapeLiteral, ih]
    · rw [unescapeLiteral, ih]
  | case3 c r hc ih =>
    obtain ⟨hslash, -⟩ : c ≠ '\\' ∧ c ≠ '"' := by simpa using hc
    rw [unescapeLiteral, ih]
    · exact fun _ h _ => hslash h
    · exact fun _ h _ => hslash h

theorem unquoteLiteral_quoteLiteral (t : String) : unquoteLiteral (quoteLiteral t) = t := by
  rw [unquoteLiteral, toList_quoteLiteral, List.tail_cons, List.dropLast_concat, unescapeLiteral_escapeLiteral,
    String.ofList_toList]

theorem quoteLiteral_inj {t u : String} : quoteLiteral t = quoteLiteral u ↔ t = u := by
  constructor
  · intro h
    rw [← unquoteLiteral_quoteLiteral t, h, unquoteLiteral_quoteLiteral]
  · exact congrArg quoteLiteral

theorem replaceAfter_singleton (a : Char) (out cs : List Char) :
    replaceAfter [a] out 0 cs = cs.flatMap fun c => if c = a then out else [c] := by
  induction cs with
  | nil => rfl
  | cons c r ih =>
    by_cases hc : c = a
    · simp [replaceAfter, hc, ih]
    · simp [replaceAfter, hc, Ne.symm hc, ih]

/-- Escapes are two replacements. The first one makes no quotes, and the second one's backslashes come too late to be
    doubled. -/
theorem escapeLiteral_eq_replaceAfter (cs : List Char) :
    escapeLiteral cs = replaceAfter ['"'] ['\\', '"'] 0 (replaceAfter ['\\'] ['\\', '\\'] 0 cs) := by
  rw [replaceAfter_singleton, replaceAfter_singleton]
  fun_induction escapeLiteral cs with
  | case1 => rfl
  | case2 c r hc ih =>
    obtain rfl | rfl : c = '\\' ∨ c = '"' := by simpa using hc
    · simp [ih]
    · simp [ih]
  | case3 c r hc ih =>
    obtain ⟨hslash, hquote⟩ : c ≠ '\\' ∧ c ≠ '"' := by simpa using hc
    simp [hslash, hquote, ih]

/-- A literal is the text with its backslashes doubled and then its quotes escaped. -/
theorem quoteLiteral_eq_replace (t : String) :
    quoteLiteral t = "\"" ++ replace "\"" "\\\"" (replace "\\" "\\\\" t) ++ "\"" := by
  apply String.toList_injective
  rw [toList_quoteLiteral, escapeLiteral_eq_replaceAfter]
  simp [replace]

/-- No quote in the escapes closes the literal, and no backslash hides the closing quote. -/
theorem stringBody_escapeLiteral (cs r : List Char) :
    stringBody (escapeLiteral cs ++ '"' :: r) = some (escapeLiteral cs ++ ['"'], r) := by
  fun_induction escapeLiteral cs with
  | case1 => rfl
  | case2 c cs hc ih => rw [List.cons_append, List.cons_append, stringBody, ih]; rfl
  | case3 c cs hc ih =>
    obtain ⟨hslash, hquote⟩ : c ≠ '\\' ∧ c ≠ '"' := by simpa using hc
    rw [List.cons_append, stringBody, ih]
    · rfl
    · exact fun _ _ h _ => hslash h
    · exact hquote
    · exact fun h _ => hslash h

theorem count_quoteLiteral (t : String) : (quoteLiteral t).toList.count '\n' = t.toList.count '\n' := by
  have hescape : ∀ cs : List Char, (escapeLiteral cs).count '\n' = cs.count '\n' := by
    intro cs
    fun_induction escapeLiteral cs with
    | case1 => rfl
    | case2 c r hc ih => rw [List.count_cons_of_ne (by decide), List.count_cons, List.count_cons, ih]
    | case3 c r hc ih => rw [List.count_cons, List.count_cons, ih]
  rw [toList_quoteLiteral, List.count_cons_of_ne (by decide), List.count_append, hescape]
  rfl

/-- A text in quotes is one token, and what stands behind it is read on its own. -/
theorem tokensFrom_quoteLiteral (line : Nat) (t : String) (r : List Char) :
    tokensFrom line ((quoteLiteral t).toList ++ r) =
      (tokensFrom (line + t.toList.count '\n') r).map (⟨.literal, quoteLiteral t, line⟩ :: ·) := by
  have hlexeme : lexeme '"' (escapeLiteral t.toList ++ '"' :: r) = .ok ⟨some .literal, (quoteLiteral t).toList, r⟩ := by
    rw [lexeme_string, stringBody_escapeLiteral, toList_quoteLiteral]
    rfl
  have hfront : (quoteLiteral t).toList ++ r = '"' :: (escapeLiteral t.toList ++ '"' :: r) := by
    rw [toList_quoteLiteral, List.cons_append, List.append_assoc]
    rfl
  have htoken : Lexeme.token? ⟨some .literal, (quoteLiteral t).toList, r⟩ line = some ⟨.literal, quoteLiteral t, line⟩ := by
    rw [Lexeme.token?, Lexeme.text, String.ofList_toList]
    rfl
  rw [hfront, tokensFrom_cons hlexeme, htoken, count_quoteLiteral]
  rfl

namespace Module

def textAbove (m : Module) (above : List Registration) : String :=
  "\n".intercalate (m.headerLines ++ m.tagLines ++ m.wrappers.map Wrapper.text ++
    "ring_libinit! \x7b" :: above.map fun r => "    " ++ tableLine r)

def textBehind (r : Registration) (below : List Registration) : String :=
  " => " ++ r.wrapper ++ ",\n" ++ "\n".intercalate (below.map (fun r => "    " ++ tableLine r) ++ ["\x7d"]) ++ "\n"

variable {m : Module} {above below : List Registration} {r : Registration}

/-- The text of a module around the name in a row of its table. -/
theorem code_eq_row (h : m.registrations = above ++ r :: below) :
    m.code = m.textAbove above ++ "\n    " ++ quoteLiteral r.name ++ textBehind r below := by
  let front := m.headerLines ++ m.tagLines ++ m.wrappers.map Wrapper.text ++
    "ring_libinit! \x7b" :: above.map fun r => "    " ++ tableLine r
  let back := below.map (fun r => "    " ++ tableLine r) ++ ["\x7d"]
  have hlines : m.headerLines ++ m.tagLines ++ m.wrappers.map Wrapper.text ++ tableLines m.registrations =
      front ++ (["    " ++ tableLine r] ++ back) := by
    simp [h, front, back, tableLines]
  have hfront : front ≠ [] := by simp [front]
  have hback : back ≠ [] := by simp [back]
  have hrow : ["    " ++ tableLine r] ≠ [] := List.cons_ne_nil _ _
  have hbreaks : "\n    " = "\n" ++ "    " ∧ ",\n" = "," ++ "\n" := ⟨rfl, rfl⟩
  rw [code_eq, hlines, intercalate_append hfront (List.append_ne_nil_of_left_ne_nil hrow _), intercalate_append hrow hback,
    String.intercalate_singleton, textAbove, textBehind, tableLine, hbreaks.1, hbreaks.2]
  simp only [String.append_assoc, front, back]

/-- From its opening quote on, a row is read as one literal first, whatever the rest of it and the rows below are. -/
theorem tokensFrom_row (r : Registration) (below : List Registration) (line : Nat) :
    tokensFrom line (quoteLiteral r.name ++ textBehind r below).toList =
      (tokensFrom (line + r.name.toList.count '\n') (textBehind r below).toList).map
        (⟨.literal, quoteLiteral r.name, line⟩ :: ·) := by
  rw [String.toList_append]
  exact tokensFrom_quoteLiteral line r.name _

end Module

theorem tokensFrom_blank {c : Char} (hc : isBlank c = true) (hfeed : c ≠ '\n') (line : Nat) (r : List Char) :
    tokensFrom line (c :: r) = tokensFrom line r := by
  rw [tokensFrom_cons (lexeme_blank hc)]
  show (tokensFrom (line + [c].count '\n') r).map id = _
  rw [List.count_singleton, if_neg (by simpa using hfeed)]
  exact congrFun Except.map_id _

/-- A text in quotes is its text with the backslashes doubled and then the quotes escaped. It is one token, whole, and its
    text is read back from it; so different texts are quoted differently. In the table of a module, the tokenizer takes
    the name of a registration whole from where its literal starts, whatever the name, the wrapper and the rows below
    are, and it gets there wherever it can read what stands above. -/
theorem tokenize_quoteLiteral :
    (∀ t : String, quoteLiteral t = "\"" ++ replace "\"" "\\\"" (replace "\\" "\\\\" t) ++ "\"" ∧
      tokenize (quoteLiteral t) = .ok [⟨.literal, quoteLiteral t, 1⟩] ∧ unquoteLiteral (quoteLiteral t) = t) ∧
    (∀ t u : String, quoteLiteral t = quoteLiteral u ↔ t = u) ∧
    ∀ (m : Module) (above below : List Registration) (r : Registration), m.registrations = above ++ r :: below →
      m.code = m.textAbove above ++ "\n    " ++ quoteLiteral r.name ++ Module.textBehind r below ∧
      (∀ line, tokensFrom line (quoteLiteral r.name ++ Module.textBehind r below).toList =
        (tokensFrom (line + r.name.toList.count '\n') (Module.textBehind r below).toList).map
          (⟨.literal, quoteLiteral r.name, line⟩ :: ·)) ∧
      ∀ ts line, tokenize (m.textAbove above) = .ok ts → line = 2 + (m.textAbove above).toList.count '\n' →
        tokenize m.code = (tokensFrom (line + r.name.toList.count '\n') (Module.textBehind r below).toList).map
          (ts ++ ⟨.literal, quoteLiteral r.name, line⟩ :: ·) := by
  refine ⟨fun t => ⟨quoteLiteral_eq_replace t, ?_, unquoteLiteral_quoteLiteral t⟩, fun t u => quoteLiteral_inj,
    fun m above below r h => ⟨Module.code_eq_row h, Module.tokensFrom_row r below, fun ts line hts hline => ?_⟩⟩
  · have hread := tokensFrom_quoteLiteral 1 t []
    rw [List.append_nil, tokensFrom_nil] at hread
    exact hread
  · have hcode : m.code.toList = (m.textAbove above).toList ++
        '\n' :: ' ' :: ' ' :: ' ' :: ' ' :: (quoteLiteral r.name ++ Module.textBehind r below).toList := by
      rw [Module.code_eq_row h]
      simp
    have hblank : ∀ line r, tokensFrom line (' ' :: r) = tokensFrom line r := tokensFrom_blank (by decide) (by decide)
    have hrow : 1 + (1 + (m.textAbove above).toList.count '\n') = line := by omega
    rw [tokenize, hcode, tokensFrom_above hts, hblank, hblank, hblank, hblank, hrow, Module.tokensFrom_row]
    cases tokensFrom (line + r.name.toList.count '\n') (Module.textBehind r below).toList with
    | error e => rfl
    | ok us => rfl

def quotedRegistration : Registration where
  name := "q\"\\\\\""
  wrapper := "ring_q\"\\\\\""

def quotedModule : Module where
  moduleName := .text "geo"
  modulePrefix := ""
  wrappers := [{ registration := quotedRegistration, count := 0, answer := .skip }]

/-- The name is read whole on line 9, between the brace that opens the table and the arrow. -/
theorem tokenize_quoteLiteral_module : quotedModule.registrations = [] ++ quotedRegistration :: [] ∧ ∃ ts us,
    tokenize (quotedModule.textAbove []) = .ok ts ∧ ts.getLast? = some ⟨.punct, "\x7b", 8⟩ ∧
    9 = 2 + (quotedModule.textAbove []).toList.count '\n' ∧
    tokenize quotedModule.code = .ok (ts ++ ⟨.literal, "\"q\\\"\\\\\\\\\\\"\"", 9⟩ :: ⟨.punct, "=>", 9⟩ :: us) := by
  have hregistrations : quotedModule.registrations = [] ++ quotedRegistration :: [] := rfl
  have habove : ∃ ts, tokenize (quotedModule.textAbove []) = .ok ts ∧ ts.getLast? = some ⟨.punct, "\x7b", 8⟩ :=
    exists_ok_of_toOption (by decide +kernel)
  have hline : 9 = 2 + (quotedModule.textAbove []).toList.count '\n' := by decide +kernel
  have hbehind : ∃ us, tokensFrom 9 (Module.textBehind quotedRegistration []).toList = .ok us ∧
      us.head? = some ⟨.punct, "=>", 9⟩ := exists_ok_of_toOption (by decide +kernel)
  obtain ⟨ts, hts, hbrace⟩ := habove
  obtain ⟨us, hus, harrow⟩ := hbehind
  obtain ⟨us, rfl⟩ := List.head?_eq_some_iff.1 harrow
  refine ⟨hregistrations, ts, us, hts, hbrace, hline, ?_⟩
  rw [(tokenize_quoteLiteral.2.2 quotedModule [] [] quotedRegistration hregistrations).2.2 ts 9 hts hline]
  exact congrArg (Except.map _) hus

end RingBridge
