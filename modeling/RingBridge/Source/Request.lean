import RingBridge.Source.Cursor
/-!
Single requests to a cursor over all tokens of a text. A request that fails leaves the cursor where the failure
was found.
-/
namespace RingBridge.Source

inductive Request where
  | peek (offset : Int)
  | isAt (text : String) (offset : Int)
  | next
  | expect (text : String)
  | expectIdent (what : String)
  | skipGroup
  | skipAngles
  | readType (stops : List String) (what : String)

inductive Reply where
  | token (t : Option Token)
  | truth (b : Bool)
  | range (first last : Nat)
  | text (s : String)
  | nothing

inductive Refusal where
  | reading (f : Fault)
  | outside

def position (all : List Cell) (s : Cursor) : Nat := all.length - s.cells.length

/-- The token at an offset from the cursor. Before the first token, places count from the end. -/
def lookAt (all : List Cell) (s : Cursor) (offset : Int) : Except Refusal (Option Token) :=
  let place := position all s + offset
  let place := if place < 0 then place + all.length else place
  if place < 0 then .error .outside else .ok ((all[place.toNat]?).map Cell.token)

namespace Request

def reply {α : Type} (m : Read α) (f : α → Reply) (s : Cursor) : Except Refusal Reply × Cursor :=
  match m s with
  | .ok a t => (.ok (f a), t)
  | .error e t => (.error (.reading e), t)

def serve (all : List Cell) (s : Cursor) : Request → Except Refusal Reply × Cursor
  | peek offset => ((lookAt all s offset).map .token, s)
  | isAt text offset => ((lookAt all s offset).map fun t => .truth (t.any fun t => t.isNamed text), s)
  | next => reply Read.next (fun t => .token (some t)) s
  | expect text => reply (Read.expect text) (fun t => .token (some t)) s
  | expectIdent what => reply (Read.expectIdent what) (fun t => .token (some t)) s
  | skipGroup =>
    let first := position all s + 1
    reply Read.skipGroup (fun inner => .range first (first + inner.cells.length)) s
  | skipAngles => reply Read.skipAngles (fun _ => .nothing) s
  | readType stops what => reply (Read.readType stops what) .text s

end Request
end RingBridge.Source
