import XmlAssist.Json.Location

/-!
# Places in documents

A location is a range of a document; links lead from a range of one document to another place.
-/

namespace XmlAssist

/-- A range of the document at an address. -/
structure Location where
  uri : String
  range : Range
deriving DecidableEq, Repr, Inhabited

/-- A location as a value. -/
def Location.toJson (x : Location) : Json := .mkObj [("uri", .str x.uri), ("range", x.range.toJson)]

/-- A link from a range to a place, such as from a name to its declaration. -/
structure LocationLink where
  origin : Range
  targetUri : String
  target : Range
deriving DecidableEq, Repr, Inhabited

/-- A link as a value. The range to select is the target itself. -/
def LocationLink.toJson (x : LocationLink) : Json :=
  .mkObj [
    ("originSelectionRange", x.origin.toJson),
    ("targetUri", .str x.targetUri),
    ("targetRange", x.target.toJson),
    ("targetSelectionRange", x.target.toJson)]

/-- A link from a range to a whole document. -/
structure DocumentLink where
  range : Range
  target : String
deriving DecidableEq, Repr, Inhabited

/-- A link to a document as a value. -/
def DocumentLink.toJson (x : DocumentLink) : Json :=
  .mkObj [("range", x.range.toJson), ("target", .str x.target)]

/-- Whether a highlighted range mentions a thing, uses it or declares it. -/
inductive Highlight.Kind where
  | text
  | read
  | write
deriving DecidableEq, Repr, Inhabited

/-- The name of a kind of highlight. -/
def Highlight.Kind.label : Highlight.Kind → String
  | .text => "text"
  | .read => "read"
  | .write => "write"

/-- A highlighted range. -/
structure Highlight where
  range : Range
  kind : Highlight.Kind
deriving DecidableEq, Repr, Inhabited

/-- A highlight as a value. -/
def Highlight.toJson (x : Highlight) : Json :=
  .mkObj [("range", x.range.toJson), ("kind", .str x.kind.label)]

end XmlAssist
