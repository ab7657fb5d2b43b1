/-!
Line ends: a carriage return, alone or before a line feed, counts as one line feed.
-/
namespace RingBridge.Text

def unifyLineEnds : List Char → List Char
  | '\r' :: '\n' :: r => '\n' :: unifyLineEnds r
  | '\r' :: r => '\n' :: unifyLineEnds r
  | c :: r => c :: unifyLineEnds r
  | [] => []

end RingBridge.Text
