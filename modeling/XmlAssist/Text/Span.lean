/-!
# Spans, positions and ranges

A span is a half-open interval of byte offsets. Editors speak of a line and a character in it,
counted in UTF-16 units: that is a position, and two of them make a range.
-/

namespace XmlAssist

/-- The bytes from `start` up to `stop`, which is excluded. -/
structure Span where
  start : Nat := 0
  stop : Nat := 0
deriving DecidableEq, Repr, Inhabited

namespace Span

/-- The number of bytes covered. -/
def length (s : Span) : Nat := s.stop - s.start

/-- The span covers nothing. -/
def isEmpty (s : Span) : Bool := s.start == s.stop

/-- The byte at `offset` is covered. -/
def contains (s : Span) (offset : Nat) : Bool := s.start ≤ offset && offset < s.stop

/-- The cursor at `offset` is inside the span or right behind it. -/
def touches (s : Span) (offset : Nat) : Bool := s.start ≤ offset && offset ≤ s.stop

/-- The span, grown so that it reaches at least `stop`. -/
def extendTo (s : Span) (stop : Nat) : Span := { s with stop := max s.stop stop }

end Span

/-- A line and a character in it, both from zero; characters count UTF-16 units. -/
structure Position where
  line : Nat := 0
  character : Nat := 0
deriving DecidableEq, Repr, Inhabited

namespace Position

/-- Positions are compared by line, then by character. -/
def compare (a b : Position) : Ordering :=
  (Ord.compare a.line b.line).then (Ord.compare a.character b.character)

/-- `a` is `b` or stands before it. -/
def le (a b : Position) : Bool := (a.compare b).isLE

/-- `a` stands before `b`. -/
def lt (a b : Position) : Bool := (a.compare b).isLT

end Position

/-- The text from one position up to another, which is excluded. -/
structure Range where
  start : Position := {}
  stop : Position := {}
deriving DecidableEq, Repr, Inhabited

namespace Range

/-- The empty range at a position, such as a place of insertion. -/
def point (p : Position) : Range := ⟨p, p⟩

/-- The position is in the range. -/
def contains (r : Range) (p : Position) : Bool := r.start.le p && p.lt r.stop

/-- The range covers nothing. -/
def isEmpty (r : Range) : Bool := r.start == r.stop

/-- The ranges share a position; touching counts. -/
def intersects (a b : Range) : Bool := a.start.le b.stop && b.start.le a.stop

end Range

end XmlAssist
