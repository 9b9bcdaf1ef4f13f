import BookingSystem.Base.ContentLines

/-!
# The content lines of the Go encoder

How the encoder of the Go service writes one property. Its strings are bytes, and it folds a line after so many of them.
-/

namespace BookingSystem.Service.Ics

/-- One byte under the replacer of `escape`. -/
def escapeByte (b : UInt8) : List UInt8 :=
  if b = 92 then [92, 92]
  else if b = 59 then [92, 59]
  else if b = 44 then [92, 44]
  else if b = 10 then [92, 110]
  else if b = 13 then []
  else [b]

def escape (s : List UInt8) : List UInt8 := s.flatMap escapeByte

/-- The loop of `fold` from the byte `i` on; `n` bounds the turns. -/
def foldFrom (limit : ℕ) (s : List UInt8) : ℕ → ℕ → List UInt8
  | 0, _ => []
  | n + 1, i =>
    if i < s.length then
      (if 0 < i then [13, 10, 32] else []) ++ (s.take (min (i + limit) s.length)).drop i ++
        foldFrom limit s n (i + limit)
    else []

def fold (s : List UInt8) : List UInt8 := if s.length ≤ 75 then s else foldFrom 75 s s.length 0

/-- What `line` writes. -/
def line (s : List UInt8) : List UInt8 := fold s ++ [13, 10]

/-- What `kv` writes. -/
def kv (key val : List UInt8) : List UInt8 := line (key ++ [58] ++ escape val)

end BookingSystem.Service.Ics
