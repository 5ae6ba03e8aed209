import XmlAssist.Editor.Location
import XmlAssist.Tree.Element

/-!
# Grammars

A grammar declares elements with their attributes and the elements allowed inside. Elements refer
to each other by name, so that an element may be allowed inside itself. An element of a document
has the declaration that the walk from the outermost element down to it leads to.
-/

namespace XmlAssist

namespace Grammar

/-- The declaration of an attribute. -/
structure Attribute where
  name : String
  default : Option String := none
  /-- The allowed values; without any, all are allowed. -/
  values : List String := []
  required : Bool := false
  documentation : Option String := none
  /-- The documentation of single values. -/
  valueDocumentation : List (String × String) := []
deriving DecidableEq, Repr, Inhabited

/-- The declaration of an element. -/
structure Element where
  name : String
  /-- The names of the elements allowed inside. -/
  children : List String := []
  attributes : List Attribute := []
  /-- Nothing is allowed inside. -/
  isEmpty : Bool := false
  documentation : Option String := none
  /-- The address of the grammar that documentation names. -/
  source : Option String := none
  /-- The values allowed as text. -/
  values : List String := []
  /-- Where the name is declared. -/
  location : Option Location := none
deriving DecidableEq, Repr, Inhabited

namespace Element

/-- The name without the part before its first colon. -/
def localName (e : Element) : String := ((Text.splitOnce? ':' e.name).map (·.2)).getD e.name

/-- The declaration of an attribute. -/
def attribute? (e : Element) (name : String) : Option Attribute := e.attributes.find? (·.name == name)

end Element

end Grammar

/-- A grammar. -/
structure Grammar where
  uri : String
  targetNamespace : Option String := none
  /-- All declared elements. -/
  elements : List Grammar.Element := []
  /-- The elements that may be outermost. -/
  globals : List Grammar.Element := []
deriving DecidableEq, Repr, Inhabited

namespace Grammar

/-- The declaration with a name. -/
def element? (g : Grammar) (name : String) : Option Element := g.elements.find? (·.name == name)

/-- The declarations of the elements allowed inside an element. -/
def childrenOf (g : Grammar) (e : Element) : List Element := e.children.filterMap g.element?

/-- The declaration of an element allowed inside another, by its name or its local name. -/
def child? (g : Grammar) (e : Element) (tag : String) : Option Element :=
  (g.childrenOf e).find? fun c => c.name == tag || c.localName == tag

/-- The declaration of an outermost element by its local name. -/
def global? (g : Grammar) (localName : String) : Option Element :=
  g.globals.find? (·.localName == localName)

/-- Follows local names inwards from a declaration. Where a step leads nowhere, the declaration of
an outermost element with the innermost name is taken. -/
def walk (g : Grammar) (innermost : Option String) (current : Option Element) :
    List (Option String) → Option Element
  | [] => current
  | none :: _ => none
  | some name :: inner =>
    let next := match current with
      | none => g.global? name
      | some e => g.child? e name
    match next with
    | some e => g.walk innermost (some e) inner
    | none => innermost.bind g.global?

/-- The local name of an element of a document. -/
def localName? (d : Document) (id : Nat) : Option String := (d.element? id).bind (·.localName)

/-- The elements from one outwards, as long as they are in a namespace; without one, all. -/
def pathIn (d : Document) (ns : Option String) (id : Nat) : List Nat :=
  match d.elementChain id with
  | [] => []
  | self :: outer =>
    self :: outer.takeWhile fun a =>
      ns.isNone || ((d.element? a).bind fun e => d.namespace? a e) == ns

/-- The declaration of an element of a document, found from the outermost element in the namespace
inwards. -/
def declaration? (g : Grammar) (d : Document) (ns : Option String) (id : Nat) : Option Element :=
  g.walk (localName? d id) none ((pathIn d ns id).reverse.map (localName? d))

/-- The link from the tag of an element to the place where its name is declared. -/
def typeLink? (g : Grammar) (d : Document) (id : Nat) : Option LocationLink := do
  let e ← d.element? id
  let origin ← (d.rangeOf (← e.tagSpan)).toOption
  let declared ← g.element? (← e.tag)
  let place ← declared.location
  return { origin, targetUri := place.uri, target := place.range }

end Grammar

end XmlAssist
