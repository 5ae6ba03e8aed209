import XmlAssist.Editor.Location

/-!
# Outlines and folds

The entries of an outline, as a tree and as a list, and the ranges of lines that can be folded.
-/

namespace XmlAssist

/-- What an entry of an outline stands for. -/
inductive Symbol.Kind where
  /-- An element without elements inside. -/
  | leaf
  /-- An element with elements inside. -/
  | branch
  | instruction
  | doctype
  | elementDecl
  | attributeDecl
  /-- The declaration of an entity or a notation. -/
  | entityDecl
deriving DecidableEq, Repr, Inhabited

/-- The name of a kind of entry. -/
def Symbol.Kind.label : Symbol.Kind → String
  | .leaf => "field"
  | .branch => "object"
  | .instruction => "property"
  | .doctype => "struct"
  | .elementDecl => "key"
  | .attributeDecl => "constant"
  | .entityDecl => "variable"

/-- An entry of an outline. -/
inductive Symbol where
  | mk (name : String) (detail : Option String) (kind : Symbol.Kind) (range selection : Range)
    (children : List Symbol)
deriving Repr, Inhabited

namespace Symbol

mutual

/-- An entry as a value. -/
def toJson : Symbol → Json
  | .mk name detail kind range selection children =>
    .mkObjSome [
      ("name", some (.str name)),
      ("detail", detail.map .str),
      ("kind", some (.str kind.label)),
      ("range", some range.toJson),
      ("selectionRange", some selection.toJson),
      ("children", if children.isEmpty then none else some (.arr (listToJson children)))]

/-- Entries as values. -/
def listToJson : List Symbol → List Json
  | [] => []
  | x :: xs => toJson x :: listToJson xs

end

end Symbol

/-- An entry of a flat outline, with the name of the entry around it. -/
structure SymbolInformation where
  name : String
  kind : Symbol.Kind
  location : Location
  container : Option String := none
deriving DecidableEq, Repr, Inhabited

/-- An entry of a flat outline as a value. -/
def SymbolInformation.toJson (x : SymbolInformation) : Json :=
  .mkObjSome [
    ("name", some (.str x.name)),
    ("kind", some (.str x.kind.label)),
    ("location", some x.location.toJson),
    ("containerName", x.container.map .str)]

namespace Symbol

mutual

/-- An entry and all inside it, in order. -/
def flatten (uri : String) (container : Option String) : Symbol → List SymbolInformation
  | .mk name _ kind range _ children =>
    { name, kind, location := { uri, range }, container } :: flattenList uri (some name) children

/-- Entries and all inside them, in order. -/
def flattenList (uri : String) (container : Option String) : List Symbol → List SymbolInformation
  | [] => []
  | x :: xs => flatten uri container x ++ flattenList uri container xs

end

end Symbol

/-- What a fold hides, where it is not an element. -/
inductive FoldingRange.Kind where
  | comment
  | region
deriving DecidableEq, Repr, Inhabited

/-- The name of a kind of fold. -/
def FoldingRange.Kind.label : FoldingRange.Kind → String
  | .comment => "comment"
  | .region => "region"

/-- Lines that can be folded. -/
structure FoldingRange where
  startLine : Nat
  endLine : Nat
  kind : Option FoldingRange.Kind := none
deriving DecidableEq, Repr, Inhabited

/-- A fold as a value. -/
def FoldingRange.toJson (x : FoldingRange) : Json :=
  .mkObjSome [
    ("startLine", some (.ofNat x.startLine)),
    ("endLine", some (.ofNat x.endLine)),
    ("kind", x.kind.map fun k => .str k.label)]

end XmlAssist
