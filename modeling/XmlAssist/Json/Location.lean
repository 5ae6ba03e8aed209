import XmlAssist.Json
import XmlAssist.Text.Span

/-!
# Positions, ranges and spans as JSON

The form in which places are written into reports.
-/

namespace XmlAssist

/-- A position as a value. -/
def Position.toJson (p : Position) : Json :=
  .mkObj [("line", .ofNat p.line), ("character", .ofNat p.character)]

/-- A range as a value. -/
def Range.toJson (r : Range) : Json := .mkObj [("start", r.start.toJson), ("end", r.stop.toJson)]

/-- A span as a value. -/
def Span.toJson (s : Span) : Json := .mkObj [("start", .ofNat s.start), ("end", .ofNat s.stop)]

end XmlAssist
