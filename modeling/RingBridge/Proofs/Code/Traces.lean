import RingBridge.Proofs.Code.Names
/-!
Ways through code. A test holds or does not, a match takes one of its arms, a loop any number of turns.
-/
namespace RingBridge

inductive Layer where
  | option | result
deriving DecidableEq

/-- How code goes on where it has a choice. A value that is taken apart stands with the names that its parts go by; a
    tuple has only one way to be. -/
inductive Move where
  | test (test : Test) (holds : Bool)
  | present (layer : Layer) (value : Expr) (names : List String)
  | missing (layer : Layer) (value : Expr)
  | turn (value : Expr) (names : List String)
  | done (value : Expr)
  | parts (value : Expr) (names : List String)

inductive Step where
  | move (m : Move)
  | stmt (s : Stmt)
  | miss (m : Missing)
  | bind (name : String)

def Stmt.goesOn : Stmt → Bool
  | leave => false
  | _ => true

def Step.bindIf (ends : Bool) (x : String) : List Step := if ends then [.bind x] else []

namespace Code

/-- The steps of one way through code, and whether it comes to the end of the code. -/
inductive Path : Code → List Step → Bool → Prop
  | skip : Path skip [] true
  | line {s} : Path (line s) [.stmt s] s.goesOn
  | left {a b p} : Path a p false → Path (seq a b) p false
  | seq {a b p q r} : Path a p true → Path b q r → Path (seq a b) (p ++ q) r
  | fragment {c p r} : Path c p r → Path (fragment c) p r
  | whenYes {t c p r} : Path c p r → Path (when t c) (.move (.test t true) :: p) r
  | whenNo {t c} : Path (when t c) [.move (.test t false)] true
  | letYes {x t a b p r} : Path a p r → Path (letIf x t a b) (.move (.test t true) :: (p ++ Step.bindIf r x)) r
  | letNo {x t a b p r} : Path b p r → Path (letIf x t a b) (.move (.test t false) :: (p ++ Step.bindIf r x)) r
  | chainFirst {x t₁ a₁ t₂ a₂ b p r} : Path a₁ p r →
      Path (letChain x t₁ a₁ t₂ a₂ b) (.move (.test t₁ true) :: (p ++ Step.bindIf r x)) r
  | chainSecond {x t₁ a₁ t₂ a₂ b p r} : Path a₂ p r →
      Path (letChain x t₁ a₁ t₂ a₂ b) (.move (.test t₁ false) :: .move (.test t₂ true) :: (p ++ Step.bindIf r x)) r
  | chainLast {x t₁ a₁ t₂ a₂ b p r} : Path b p r →
      Path (letChain x t₁ a₁ t₂ a₂ b) (.move (.test t₁ false) :: .move (.test t₂ false) :: (p ++ Step.bindIf r x)) r
  | itemsDone {i l c} : Path (items i l c) [.move (.done (.var l))] true
  | itemsTurn {i l c p q r} : Path c p true → Path (items i l c) q r →
      Path (items i l c) (.move (.turn (.var l) [i]) :: (p ++ q)) r
  | itemsLeft {i l c p} : Path c p false → Path (items i l c) (.move (.turn (.var l) [i]) :: p) false
  | eachDone {x e c} : Path (each x e c) [.move (.done e)] true
  | eachTurn {x e c p q r} : Path c p true → Path (each x e c) q r →
      Path (each x e c) (.move (.turn e [x]) :: (p ++ q)) r
  | eachLeft {x e c p} : Path c p false → Path (each x e c) (.move (.turn e [x]) :: p) false
  | pairDone {k v e c} : Path (eachPair k v e c) [.move (.done e)] true
  | pairTurn {k v e c p q r} : Path c p true → Path (eachPair k v e c) q r →
      Path (eachPair k v e c) (.move (.turn e [k, v]) :: (p ++ q)) r
  | pairLeft {k v e c p} : Path c p false → Path (eachPair k v e c) (.move (.turn e [k, v]) :: p) false
  | some {e x c m p r} : Path c p r → Path (matchOption e x c m) (.move (.present .option e [x]) :: p) r
  | none {e x c m} : Path (matchOption e x c m) [.move (.missing .option e), .miss m] true
  | ok {e x c m p r} : Path c p r → Path (matchResult e x c m) (.move (.present .result e [x]) :: p) r
  | error {e x c m} : Path (matchResult e x c m) [.move (.missing .result e), .miss m] true
  | doneOk {e m} : Path (matchDone e m) [.move (.present .result e [])] true
  | doneError {e m} : Path (matchDone e m) [.move (.missing .result e), .miss m] true
  | received {x s} : Path (receive x s) [.bind x] true
  | refused {x s} : Path (receive x s) [.stmt (.invalidPointer s), .stmt .leave] false

/-- There is a way through any code. -/
theorem exists_path (c : Code) : ∃ p r, c.Path p r := by
  induction c with
  | skip => exact ⟨_, _, .skip⟩
  | line s => exact ⟨_, _, .line⟩
  | seq a b iha ihb =>
    obtain ⟨p, r, ha⟩ := iha
    obtain ⟨q, r', hb⟩ := ihb
    cases r with
    | true => exact ⟨_, _, .seq ha hb⟩
    | false => exact ⟨_, _, .left ha⟩
  | fragment c ih =>
    obtain ⟨p, r, hc⟩ := ih
    exact ⟨_, _, .fragment hc⟩
  | when t c => exact ⟨_, _, .whenNo⟩
  | letIf x t a b iha =>
    obtain ⟨p, r, ha⟩ := iha
    exact ⟨_, _, .letYes ha⟩
  | letChain x t₁ a₁ t₂ a₂ b iha =>
    obtain ⟨p, r, ha⟩ := iha
    exact ⟨_, _, .chainFirst ha⟩
  | items i l c => exact ⟨_, _, .itemsDone⟩
  | each x e c => exact ⟨_, _, .eachDone⟩
  | eachPair k v e c => exact ⟨_, _, .pairDone⟩
  | matchOption e x c m => exact ⟨_, _, .none⟩
  | matchResult e x c m => exact ⟨_, _, .error⟩
  | matchDone e m => exact ⟨_, _, .doneOk⟩
  | receive x s => exact ⟨_, _, .received⟩

/-- Every way through code comes to its end, and its steps satisfy `Q`. -/
def Through (c : Code) (Q : List Step → Prop) : Prop := ∀ p r, c.Path p r → r = true ∧ Q p

namespace Through
variable {a b c : Code} {Q R : List Step → Prop} {e : Expr} {m : Missing} {x : String}

theorem weaken (h : c.Through Q) (hQ : ∀ p, Q p → R p) : c.Through R :=
  fun p r hp => ⟨(h p r hp).1, hQ p (h p r hp).2⟩

theorem skip (h : Q []) : Code.skip.Through Q := by
  intro p r hp
  cases hp
  exact ⟨rfl, h⟩

theorem line {s : Stmt} (hs : s.goesOn = true) (h : Q [.stmt s]) : (Code.line s).Through Q := by
  intro p r hp
  cases hp
  exact ⟨hs, h⟩

theorem seq (h : a.Through fun p => b.Through fun q => Q (p ++ q)) : (Code.seq a b).Through Q := by
  intro p r hp
  cases hp with
  | left ha => exact absurd (h _ _ ha).1 Bool.false_ne_true
  | seq ha hb => exact (h _ _ ha).2 _ _ hb

/-- A statement, and then the rest. -/
theorem line_seq {s : Stmt} (hs : s.goesOn = true) (h : b.Through fun q => Q (.stmt s :: q)) :
    (Code.seq (.line s) b).Through Q :=
  .seq (.line hs h)

theorem when {t : Test} (hyes : c.Through fun p => Q (.move (.test t true) :: p)) (hno : Q [.move (.test t false)]) :
    (Code.when t c).Through Q := by
  intro p r hp
  cases hp with
  | whenYes hc => exact hyes _ _ hc
  | whenNo => exact ⟨rfl, hno⟩

theorem letIf {t : Test} (hyes : a.Through fun p => Q (.move (.test t true) :: (p ++ [.bind x])))
    (hno : b.Through fun p => Q (.move (.test t false) :: (p ++ [.bind x]))) : (Code.letIf x t a b).Through Q := by
  intro p r hp
  cases hp with
  | letYes ha =>
    obtain ⟨rfl, hQ⟩ := hyes _ _ ha
    exact ⟨rfl, hQ⟩
  | letNo hb =>
    obtain ⟨rfl, hQ⟩ := hno _ _ hb
    exact ⟨rfl, hQ⟩

theorem letChain {t₁ t₂ : Test} (hfirst : a.Through fun p => Q (.move (.test t₁ true) :: (p ++ [.bind x])))
    (hsecond : b.Through fun p => Q (.move (.test t₁ false) :: .move (.test t₂ true) :: (p ++ [.bind x])))
    (hlast : c.Through fun p => Q (.move (.test t₁ false) :: .move (.test t₂ false) :: (p ++ [.bind x]))) :
    (Code.letChain x t₁ a t₂ b c).Through Q := by
  intro p r hp
  cases hp with
  | chainFirst ha =>
    obtain ⟨rfl, hQ⟩ := hfirst _ _ ha
    exact ⟨rfl, hQ⟩
  | chainSecond hb =>
    obtain ⟨rfl, hQ⟩ := hsecond _ _ hb
    exact ⟨rfl, hQ⟩
  | chainLast hc =>
    obtain ⟨rfl, hQ⟩ := hlast _ _ hc
    exact ⟨rfl, hQ⟩

/-- What holds of no turn, and is kept by one turn more, holds of a loop. -/
theorem items {i l : String} (hdone : Q [.move (.done (.var l))])
    (hturn : c.Through fun p => ∀ q, Q q → Q (.move (.turn (.var l) [i]) :: (p ++ q))) : (Code.items i l c).Through Q := by
  intro p r hp
  generalize hloop : Code.items i l c = loop at hp
  induction hp with
  | itemsDone =>
    cases hloop
    exact ⟨rfl, hdone⟩
  | itemsTurn hbody _ _ ih =>
    cases hloop
    obtain ⟨hr, hq⟩ := ih rfl
    exact ⟨hr, (hturn _ _ hbody).2 _ hq⟩
  | itemsLeft hbody =>
    cases hloop
    exact absurd (hturn _ _ hbody).1 Bool.false_ne_true
  | _ => cases hloop

theorem each (hdone : Q [.move (.done e)])
    (hturn : c.Through fun p => ∀ q, Q q → Q (.move (.turn e [x]) :: (p ++ q))) : (Code.each x e c).Through Q := by
  intro p r hp
  generalize hloop : Code.each x e c = loop at hp
  induction hp with
  | eachDone =>
    cases hloop
    exact ⟨rfl, hdone⟩
  | eachTurn hbody _ _ ih =>
    cases hloop
    obtain ⟨hr, hq⟩ := ih rfl
    exact ⟨hr, (hturn _ _ hbody).2 _ hq⟩
  | eachLeft hbody =>
    cases hloop
    exact absurd (hturn _ _ hbody).1 Bool.false_ne_true
  | _ => cases hloop

theorem eachPair {k v : String} (hdone : Q [.move (.done e)])
    (hturn : c.Through fun p => ∀ q, Q q → Q (.move (.turn e [k, v]) :: (p ++ q))) : (Code.eachPair k v e c).Through Q := by
  intro p r hp
  generalize hloop : Code.eachPair k v e c = loop at hp
  induction hp with
  | pairDone =>
    cases hloop
    exact ⟨rfl, hdone⟩
  | pairTurn hbody _ _ ih =>
    cases hloop
    obtain ⟨hr, hq⟩ := ih rfl
    exact ⟨hr, (hturn _ _ hbody).2 _ hq⟩
  | pairLeft hbody =>
    cases hloop
    exact absurd (hturn _ _ hbody).1 Bool.false_ne_true
  | _ => cases hloop

theorem matchOption (h : c.Through fun p => Q (.move (.present .option e [x]) :: p))
    (hm : Q [.move (.missing .option e), .miss m]) : (Code.matchOption e x c m).Through Q := by
  intro p r hp
  cases hp with
  | some hc => exact h _ _ hc
  | none => exact ⟨rfl, hm⟩

theorem matchResult (h : c.Through fun p => Q (.move (.present .result e [x]) :: p))
    (hm : Q [.move (.missing .result e), .miss m]) : (Code.matchResult e x c m).Through Q := by
  intro p r hp
  cases hp with
  | ok hc => exact h _ _ hc
  | error => exact ⟨rfl, hm⟩

theorem matchDone (h : Q [.move (.present .result e [])]) (hm : Q [.move (.missing .result e), .miss m]) :
    (Code.matchDone e m).Through Q := by
  intro p r hp
  cases hp with
  | doneOk => exact ⟨rfl, h⟩
  | doneError => exact ⟨rfl, hm⟩

end Through
end Code

namespace Step

def move? : Step → Option Move
  | move m => some m
  | stmt (.bindTuple xs e) => some (.parts e xs)
  | _ => none

def binders : Step → List String
  | move (.present _ _ xs) | move (.turn _ xs) => xs
  | stmt s => s.binders
  | bind x => [x]
  | _ => []

end Step

namespace Code

def moves (p : List Step) : List Move := p.filterMap Step.move?

def boundBy (p : List Step) : List String := p.flatMap Step.binders

theorem moves_append (p q : List Step) : moves (p ++ q) = moves p ++ moves q := List.filterMap_append

end Code
end RingBridge
