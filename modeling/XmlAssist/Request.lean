import XmlAssist.Settings
import XmlAssist.Tree.Element

/-!
# Requests

A request is about a place of a document. It names the node at that place, which for most requests
is the attribute under the cursor, and else the innermost node that contains it.
-/

namespace XmlAssist

/-- A place of a document and the node that it is about. -/
structure Request where
  document : Document
  position : Position
  offset : Nat
  node : Nat
deriving Repr, Inhabited

namespace Request

/-- The request about the attribute or else the innermost node at a position. -/
def ofPosition (d : Document) (position : Position) : Except BadLocation Request := do
  let offset ← d.offsetAt position
  let node := match d.attributeAt? offset with
    | some (id, _) => id
    | none => d.nodeAt offset
  return { document := d, position, offset, node }

/-- The request about the node that a cursor at a position is behind. -/
def behind (d : Document) (position : Position) : Except BadLocation Request := do
  let offset ← d.offsetAt position
  return { document := d, position, offset, node := d.nodeBefore offset }

/-- The attribute that the request is about. -/
def attribute? (r : Request) : Option Attribute := (r.document.node r.node).attribute?

/-- The element that the request is about. -/
def element? (r : Request) : Option Element := r.document.element? r.node

/-- The element of an attribute; an attribute of the XML declaration has none. -/
def ownerElement? (d : Document) (id : Nat) : Option Nat :=
  (d.node id).parent.filter fun owner => (d.node owner).isElement

/-- The element of the attribute, the element itself, or the innermost one around the node. -/
def parentElement? (r : Request) : Option Nat :=
  if r.attribute?.isSome then ownerElement? r.document r.node
  else if r.element?.isSome then some r.node
  else r.document.parentElement? r.node

/-- The tag of the element. -/
def tag? (r : Request) : Option String := r.parentElement?.bind fun id => (r.document.element? id).bind (·.tag)

/-- The name of the attribute. -/
def attributeName? (r : Request) : Option String := r.attribute?.map (·.name)

end Request

namespace Hover

/-- What the cursor is on. -/
inductive Target where
  | tag
  | attributeName
  | attributeValue
deriving DecidableEq, Repr, Inhabited

/-- A request for what to show under the cursor. -/
structure Request extends XmlAssist.Request where
  /-- The range of the name or the value. -/
  range : Option Range
  /-- The cursor is on a start tag, not on an end tag. -/
  isOpen : Bool
  settings : Settings
deriving Repr, Inhabited

end Hover

end XmlAssist
