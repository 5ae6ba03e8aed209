import XmlAssist.Editor.Completion
import XmlAssist.Request

/-!
# Requests for proposals

A request for proposals is about what a proposal would replace. Proposals are added to a response,
which leaves out attributes that the element has already.
-/

namespace XmlAssist.Completion

/-- What is completed. -/
inductive Place where
  /-- The name behind `<`. -/
  | tagOpen
  /-- Text between tags. -/
  | content
  /-- The name of an attribute; no value is to be inserted if an `=` follows. -/
  | attributeName (withValue : Bool)
  /-- The value of an attribute, and the part of it before the cursor. -/
  | attributeValue (typed : String)
deriving DecidableEq, Repr, Inhabited

/-- A request for proposals. -/
structure Request extends XmlAssist.Request where
  settings : Settings
  /-- The text that a proposal replaces. -/
  replaced : Span
  /-- The replaced text stands in quotes. -/
  quoted : Bool := false
  /-- The tag seen last before the cursor. -/
  lastTag : Option String := none
  /-- The name of an attribute seen last before the cursor. -/
  lastAttribute : Option String := none
deriving Repr, Inhabited

namespace Request

/-- The range that a proposal replaces. -/
def range (r : Request) : Range :=
  match r.document.rangeOf r.replaced with
  | .ok range => range
  | .error _ => .point r.position

/-- The request about replacing a span without quotes. -/
def replacing (r : Request) (start stop : Nat) : Request :=
  { r with replaced := ⟨start, stop⟩, quoted := false }

/-- The tag that the cursor is in, or that of the element around it. -/
def currentTag (r : Request) : Option String := r.lastTag.or r.toRequest.tag?

/-- The name of the attribute whose value is completed. -/
def currentAttribute (r : Request) : Option String := r.lastAttribute.or r.toRequest.attributeName?

/-- A value as it is to be inserted: in quotes unless it stands in quotes already. -/
def valueText (r : Request) (value : String) : String := if r.quoted then value else "\"" ++ value ++ "\""

end Request

/-- The proposals so far. -/
structure Response where
  items : List Item := []
  /-- The names of the attributes that are there already. -/
  existing : List String := []
  isIncomplete : Bool := false
deriving Repr, Inhabited

namespace Response

/-- No proposals yet, for a node whose attributes are not to be proposed again, except the one whose
name the cursor is in. -/
def ofNode (d : Document) (id offset : Nat) : Response :=
  { existing := (d.attributes id).filterMap fun (_, a) =>
      if a.nameTouches offset then none else some a.name }

/-- An attribute is there already. -/
def hasAttribute (x : Response) (name : String) : Bool := x.existing.contains name

/-- There are proposals. -/
def hasItems (x : Response) : Bool := !x.items.isEmpty

/-- Adds a proposal. -/
def add (x : Response) (item : Item) : Response := { x with items := x.items ++ [item] }

/-- Adds proposals in order. -/
def addAll (x : Response) (items : List Item) : Response := { x with items := x.items ++ items }

/-- Adds the proposal of an attribute, unless the attribute is there or something with its name is
proposed. -/
def addAttribute (x : Response) (item : Item) : Response :=
  if x.hasAttribute item.label || x.items.any (·.label == item.label) then x else x.add item

/-- The proposals as they are answered. -/
def toList (x : Response) : CompletionList := { isIncomplete := x.isIncomplete, items := x.items }

end Response

end XmlAssist.Completion
