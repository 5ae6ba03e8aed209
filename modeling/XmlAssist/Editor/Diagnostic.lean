import XmlAssist.Editor.Location
import XmlAssist.Settings
import XmlAssist.Text.LineIndex

/-!
# Diagnostics

A problem of a document, with the place that it is about, and the list of problems of one document
as it is handed to a client.
-/

namespace XmlAssist

/-- Another place that a diagnostic is about. -/
structure RelatedPlace where
  location : Location
  message : String
deriving DecidableEq, Repr, Inhabited

/-- A problem of a document. -/
structure Diagnostic where
  range : Range
  severity : Severity
  /-- Fixed for a kind of problem, so that fixes can be offered for it. -/
  code : Option String := none
  /-- Who reports the problem. -/
  source : Option String := some "xml"
  message : String
  related : List RelatedPlace := []
deriving DecidableEq, Repr, Inhabited

namespace Diagnostic

/-- A diagnostic as a value. -/
def toJson (x : Diagnostic) : Json :=
  .mkObjSome [
    ("range", some x.range.toJson),
    ("severity", some (.str x.severity.label)),
    ("code", x.code.map .str),
    ("source", x.source.map .str),
    ("message", some (.str x.message)),
    ("relatedInformation",
      if x.related.isEmpty then none
      else some (.arr (x.related.map fun place =>
        .mkObj [("location", place.location.toJson), ("message", .str place.message)])))]

/-- An error with a code, at a span of a document; none if the span is no place of the text. -/
def errorAt (rangeOf : Span → Except BadLocation Range) (span : Span) (code message : String) :
    List Diagnostic :=
  match rangeOf span with
  | .ok range => [{ range, severity := .error, code := some code, message }]
  | .error _ => []

end Diagnostic

/-- The diagnostics of one document. -/
structure DiagnosticReport where
  uri : String
  diagnostics : List Diagnostic
deriving DecidableEq, Repr, Inhabited

/-- A report as a value. -/
def DiagnosticReport.toJson (x : DiagnosticReport) : Json :=
  .mkObj [("uri", .str x.uri), ("diagnostics", .arr (x.diagnostics.map Diagnostic.toJson))]

end XmlAssist
