import RingBridge.Proofs.Source.Extension
/-!
Lines of texts one below the other. Where a text has tokens, a text that stands below it has the tokens or the failure
that it has alone, further down by the lines above it.
-/
namespace RingBridge.Source

def Token.below (n : Nat) (t : Token) : Token := { t with line := t.line + n }

def LexError.below (n : Nat) (e : LexError) : LexError := { e with line := e.line + n }

def tokensBelow (n : Nat) : Except LexError (List Token) → Except LexError (List Token)
  | .ok ts => .ok (ts.map (Token.below n))
  | .error e => .error (e.below n)

theorem Lexeme.token_below (l : Lexeme) (line n : Nat) :
    (l.token? (line + n)).toList = (l.token? line).toList.map (Token.below n) := by
  unfold token?
  cases l.kind <;> rfl

theorem tokensFrom_error {line : Nat} {c : Char} {r : List Char} {cause : LexCause} (h : lexeme c r = .error cause) :
    tokensFrom line (c :: r) = .error ⟨cause, line⟩ := by
  rw [tokensFrom.eq_def]
  split
  · next he => cases he
  · next c' r' he =>
    cases he
    split
    · next hl =>
      cases h.symm.trans hl
      rfl
    · next hl => cases h.symm.trans hl

/-- Only the lines of the tokens, or of the failure, depend on the line on which a text starts. -/
theorem tokensFrom_add (line n : Nat) (cs : List Char) :
    tokensFrom (line + n) cs = tokensBelow n (tokensFrom line cs) := by
  fun_induction tokensFrom line cs with
  | case1 line =>
    rw [tokensFrom_nil]
    rfl
  | case2 line c r cause hl =>
    rw [tokensFrom_error hl]
    rfl
  | case3 line c r l hl e hrest ih =>
    rw [tokensFrom_cons hl, Nat.add_right_comm, ih, hrest]
    rfl
  | case4 line c r l hl ts hrest ih =>
    rw [tokensFrom_cons hl, Nat.add_right_comm, ih, hrest, l.token_below]
    exact congrArg Except.ok List.map_append.symm

/-- The tokens of a text stand in front of whatever the text below it comes to. -/
theorem tokensFrom_above {line : Nat} {cs x : List Char} {ts : List Token} (h : tokensFrom line cs = .ok ts) :
    tokensFrom line (cs ++ '\n' :: x) = (tokensFrom (line + (1 + cs.count '\n')) x).map (ts ++ ·) := by
  fun_induction tokensFrom line cs generalizing ts with
  | case1 line =>
    cases h
    have hfeed : lexeme '\n' x = .ok ⟨none, ['\n'], x⟩ := by rw [lexeme.eq_def, if_pos (by decide)]
    rw [List.nil_append, tokensFrom_cons hfeed]
    rfl
  | case2 => cases h
  | case3 => cases h
  | case4 line c r l hl ts' hrest ih =>
    cases h
    have hlines : line + l.source.count '\n' + (1 + l.rest.count '\n') = line + (1 + (c :: r).count '\n') := by
      rw [← (starts_lexeme hl).append, List.count_append]
      omega
    rw [List.cons_append, tokensFrom_cons (lexeme_above hl)]
    show (tokensFrom (line + l.source.count '\n') (l.rest ++ '\n' :: x)).map _ = _
    rw [ih hrest, hlines]
    cases tokensFrom (line + (1 + (c :: r).count '\n')) x with
    | error e => rfl
    | ok us => exact congrArg Except.ok (List.append_assoc ..).symm

/-- Below a text that has tokens, any text comes to what it comes to alone: to its tokens, which follow those above, or
    to a failure for the same cause. Their lines are further down by the line feeds above and the one between. -/
theorem tokenize_below {u : String} {ts : List Token} (h : tokenize u = .ok ts) (v : String) :
    (∀ us, tokenize v = .ok us →
      tokenize (u ++ "\n" ++ v) = .ok (ts ++ us.map (Token.below (1 + u.toList.count '\n')))) ∧
    ∀ e, tokenize v = .error e →
      tokenize (u ++ "\n" ++ v) = .error (e.below (1 + u.toList.count '\n')) := by
  have htext : (u ++ "\n" ++ v).toList = u.toList ++ '\n' :: v.toList := by simp
  have hboth : tokenize (u ++ "\n" ++ v) =
      (tokensBelow (1 + u.toList.count '\n') (tokenize v)).map (ts ++ ·) := by
    rw [tokenize, htext, tokensFrom_above h, tokensFrom_add]
    rfl
  refine ⟨fun us hus => ?_, fun e he => ?_⟩
  · rw [hboth, hus]
    rfl
  · rw [hboth, he]
    rfl

theorem exists_error_of_match {ε α : Type} {x : Except ε α} {p : ε → Bool}
    (h : (match x with | .ok _ => false | .error e => p e) = true) : ∃ e, x = .error e ∧ p e = true := by
  cases x with
  | ok a => cases h
  | error e => exact ⟨e, rfl, h⟩

/-- Above stand a raw string and a comment with line feeds in them, a lifetime that a quote would turn into a character,
    and digits with a point; below stand digits, or a quote that the line feed above keeps apart. -/
theorem tokenize_below_quotes : ∃ ts us e, tokenize "r\"\n\" /*\n*/ 'a 1." = .ok ts ∧ tokenize "2\n'b'" = .ok us ∧
    tokenize "\n'" = .error e ∧ ts.map (fun t => (t.text, t.line)) = [("r\"\n\"", 1), ("'a", 3), ("1", 3), (".", 3)] ∧
    us.map (fun t => (t.text, t.line)) = [("2", 1), ("'b'", 2)] ∧ e.line = 2 ∧
    tokenize ("r\"\n\" /*\n*/ 'a 1." ++ "\n" ++ "2\n'b'") = .ok (ts ++ us.map (Token.below 3)) ∧
    tokenize ("r\"\n\" /*\n*/ 'a 1." ++ "\n" ++ "\n'") = .error (e.below 3) := by
  obtain ⟨ts, hts, htexts⟩ : ∃ ts, tokenize "r\"\n\" /*\n*/ 'a 1." = .ok ts ∧
      ts.map (fun t => (t.text, t.line)) = [("r\"\n\"", 1), ("'a", 3), ("1", 3), (".", 3)] :=
    exists_ok_of_toOption (by decide +kernel)
  obtain ⟨us, hus, hutexts⟩ : ∃ us, tokenize "2\n'b'" = .ok us ∧
      us.map (fun t => (t.text, t.line)) = [("2", 1), ("'b'", 2)] := exists_ok_of_toOption (by decide +kernel)
  obtain ⟨e, he, hline⟩ : ∃ e, tokenize "\n'" = .error e ∧ (e.line == 2) = true :=
    exists_error_of_match (by decide +kernel)
  refine ⟨ts, us, e, hts, hus, he, htexts, hutexts, beq_iff_eq.1 hline, ?_, ?_⟩
  · exact (tokenize_below hts "2\n'b'").1 us hus
  · exact (tokenize_below hts "\n'").2 e he

end RingBridge.Source
