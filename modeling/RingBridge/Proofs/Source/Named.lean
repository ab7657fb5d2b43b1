import RingBridge.Proofs.Source.Yields
import RingBridge.Proofs.Spelling.Head
/-!
What source text can name a declaration. The name of a struct, a field, a method or a function is an identifier token, and
such a token is a name or a raw name. The target of an impl is a type, which need not be a name at all.
-/
namespace RingBridge.Source
open Text Spelling

def IsIdentifier (x : String) : Prop := ∃ i : Ident, x.toList = i.chars ∨ x.toList = 'r' :: '#' :: i.chars

theorem exists_of_nameCut {cs : List Char} {cut : Cut} (h : nameCut? cs = some cut) : ∃ i : Ident, cut.1 = i.chars := by
  unfold nameCut? at h
  split at h
  · next c r =>
    split at h
    · next hc =>
      cases h
      exact ⟨⟨c, r.takeWhile isWord, hc, List.all_eq_true.1 List.all_takeWhile⟩, rfl⟩
    · cases h
  · cases h

theorem exists_of_identifier {cs : List Char} {cut : Cut} (h : identifier? cs = some cut) :
    ∃ i : Ident, cut.1 = i.chars ∨ cut.1 = 'r' :: '#' :: i.chars := by
  unfold identifier? at h
  split at h
  · split at h
    · next hcut =>
      cases h
      obtain ⟨i, hi⟩ := exists_of_nameCut hcut
      exact ⟨i, .inr (congrArg (['r', '#'] ++ ·) hi)⟩
    · exact (exists_of_nameCut h).imp fun _ => .inl
  · exact (exists_of_nameCut h).imp fun _ => .inl

theorem identifier_of_plain {cs r : List Char} {c : Char} (h : (plain cs c r).kind = some .ident) :
    ∃ cut, identifier? cs = some cut ∧ (plain cs c r).source = cut.1 := by
  unfold plain at h ⊢
  cases hcut : identifier? cs with
  | some cut => exact ⟨cut, rfl, rfl⟩
  | none =>
    simp only [hcut] at h
    split at h
    · cases h
    · split at h <;> cases h

theorem kind_quoted {lead : List Char} {body : Option Cut} {cause : LexCause} {l : Lexeme}
    (h : quoted lead body cause = .ok l) : l.kind = some .literal := by
  unfold quoted at h
  split at h <;> cases h
  rfl

theorem kind_character {lead cs : List Char} {l : Lexeme} (h : character lead cs = .ok l) :
    l.kind = some .literal ∨ l.kind = some .lifetime := by
  unfold character at h
  split at h
  · cases h
    exact .inl rfl
  · split at h
    · split at h <;> cases h
      exact .inr rfl
    · cases h

theorem kind_raw {cs : List Char} {opening : Cut} {l : Lexeme} (h : raw cs opening = .ok l) :
    l.kind = some .literal := by
  unfold raw at h
  split at h <;> cases h
  rfl

/-- An identifier is what is left when a lexeme is no comment and no literal. -/
theorem eq_plain_of_lexeme {c : Char} {r : List Char} {l : Lexeme} (h : lexeme c r = .ok l) (hk : l.kind = some .ident) :
    l = plain (c :: r) c r := by
  have hcomment : ∀ {b : Prop} [Decidable b], (if b then some TokenKind.doc else none) ≠ some .ident := by
    intro b _
    split <;> decide
  unfold lexeme at h
  split at h
  · cases h
    cases hk
  · split at h
    · cases h
      exact absurd hk hcomment
    · split at h <;> cases h
      exact absurd hk hcomment
    · split at h
      · exact absurd ((kind_raw h).symm.trans hk) (by decide)
      · split at h
        · exact absurd ((kind_quoted h).symm.trans hk) (by decide)
        · exact absurd ((kind_quoted h).symm.trans hk) (by decide)
        · obtain h | h := kind_character h <;> exact absurd (h.symm.trans hk) (by decide)
        · obtain h | h := kind_character h <;> exact absurd (h.symm.trans hk) (by decide)
        · cases h
          rfl

def Token.IsSpelled (t : Token) : Prop := t.kind = .ident → IsIdentifier t.text

theorem isSpelled_of_mem_tokensFrom {line : Nat} {cs : List Char} {ts : List Token} (h : tokensFrom line cs = .ok ts)
    {t : Token} (hmem : t ∈ ts) : t.IsSpelled := by
  intro hident
  obtain ⟨c, r, l, hl, hk, htext⟩ := exists_lexeme_of_mem h hmem
  rw [hident] at hk
  have hplain := eq_plain_of_lexeme hl hk
  obtain ⟨cut, hcut, hsource⟩ := identifier_of_plain (hplain ▸ hk)
  rw [IsIdentifier, htext, String.toList_ofList, Lexeme.text, hk, hplain, hsource]
  exact exists_of_identifier hcut

def AreSpelled (cs : List Cell) : Prop := ∀ c ∈ cs, c.token.IsSpelled

instance : Inherited AreSpelled := ⟨fun h hs c hc => h c (hs.subset hc)⟩

theorem areSpelled_of_cellsOf {text : String} {cs : List Cell} (h : cellsOf text = .ok cs) : AreSpelled cs := by
  obtain ⟨ts, hts, hcells⟩ := exists_of_cellsOf h
  obtain ⟨_, _, htokens⟩ := Balanced.exists_of_cells hcells
  exact fun c hc => isSpelled_of_mem_tokensFrom hts (htokens ▸ List.mem_map_of_mem hc)

namespace Read

abbrev Gives {α : Type} (m : Read α) (P : α → Prop) : Prop := Yields AreSpelled m P

theorem gives_expectIdent (what : String) : Gives (expectIdent what) fun t => IsIdentifier t.text := by
  intro s a t hs e
  unfold expectIdent at e
  split at e
  · next c r hc =>
    split at e
    · next hident =>
      cases e
      exact hs c (hc ▸ List.mem_cons_self ..) hident
    · cases e
  · cases e

theorem gives_skipGroup : Gives skipGroup fun inner => AreSpelled inner.cells :=
  fun _ _ _ hs e c hc => hs c (subset_of_skipGroup e hc)

end Read

def IsNamed : Declaration String → Prop
  | .struct t => IsIdentifier t.name ∧ ∀ f ∈ t.fields, IsIdentifier f.name
  | .impl i => ∀ f ∈ i.methods, IsIdentifier f.name
  | .func f => IsIdentifier f.name

namespace Read

theorem gives_field : Gives field fun o => ∀ f ∈ o, IsIdentifier f.name := by
  refine .after keeps_attributes fun _ => .after keeps_atEnd fun _ => .ite .none ?_
  refine .after keeps_visibility fun _ => .bind (keeps_expectIdent _) (gives_expectIdent _) fun name hname => ?_
  refine .after (keeps_expect _) fun _ => .after (keeps_readType _ _) fun _ => .after (keeps_optional _) fun _ => ?_
  exact .some hname

theorem gives_structBody : Gives structBody fun fs => ∀ f ∈ fs, IsIdentifier f.name := by
  refine .after (keeps_at _ _) fun _ => .ite (.bind keeps_skipGroup gives_skipGroup fun inner hinner => ?_) ?_
  · exact .within hinner (.collect (fun _ => keeps_field) (fun _ => gives_field) true)
  · refine .after (keeps_at _ _) fun _ => .ite ?_ (.after (keeps_expect _) fun _ => .pure (List.forall_mem_nil _))
    refine .after keeps_skipGroup fun _ => .after keeps_skipWhere fun _ => .after (keeps_expect _) fun _ => ?_
    exact .pure (List.forall_mem_nil _)

theorem gives_struct (isPublic : Bool) (docs : List String) :
    Gives (struct isPublic docs) fun t => IsNamed (.struct t) := by
  refine .after (keeps_expect _) fun _ => .bind (keeps_expectIdent _) (gives_expectIdent _) fun name hname => ?_
  refine .after keeps_generics fun _ => .after keeps_skipWhere fun _ => ?_
  exact .bind keeps_structBody gives_structBody fun fs hfs => .pure ⟨hname, hfs⟩

theorem gives_function (isPublic : Bool) (docs : List String) :
    Gives (function isPublic docs) fun f => IsIdentifier f.name := by
  refine .after keeps_seekFn fun _ => .after (keeps_expect _) fun _ => ?_
  refine .bind (keeps_expectIdent _) (gives_expectIdent _) fun name hname => .after keeps_generics fun _ => ?_
  refine .after (keeps_paramGroup _) fun _ => .after (keeps_result _) fun _ => .after keeps_skipWhere fun _ => ?_
  exact .after keeps_functionBody fun _ => .pure hname

theorem items_give : ItemsYield AreSpelled (fun f => IsIdentifier f.name) IsNamed where
  inside := gives_skipGroup
  function := gives_function
  struct := gives_struct
  func _ hf := hf
  impl _ _ hms := hms

end Read

/-- Whatever source declares has identifiers for names. -/
theorem isNamed_of_readSource {text moduleName : String} {d : Document String}
    (h : (readSource text moduleName).document = .ok d) : ∀ decl ∈ d.decls, IsNamed decl :=
  Read.items_give.readSource (fun _ => areSpelled_of_cellsOf) h

end RingBridge.Source
