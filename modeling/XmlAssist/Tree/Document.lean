import XmlAssist.Text.LineIndex
import XmlAssist.Tree.Builder

/-!
# Documents

A document is a text with its address, its lines and its nodes. Reading a text never fails. This
module holds the document itself and the ways from one node to others.

The nodes are numbered by natural numbers. No text has more nodes than tokens, but for those there are
from the start, so that the numbers of nodes fit into 32 bits for the texts that are meant, as offsets
do (`LineIndex`).
-/

namespace XmlAssist

/-- A document as it is typed. -/
structure Document where
  uri : String
  text : String
  lines : LineIndex
  nodes : Array Node
deriving Repr, Inhabited

namespace Document

/-- The address is that of a file of declarations. -/
def isDtdUri (uri : String) : Bool :=
  uri.endsWith ".dtd" || uri.endsWith ".ent" || uri.endsWith ".mod"

/-- The document with a text and an address. -/
def parse (text uri : String) : Document :=
  { uri, text, lines := LineIndex.ofText text, nodes := Builder.build text (isDtdUri uri) }

/-- The number of bytes. -/
def size (d : Document) : Nat := Text.size d.text

/-- The node with a number. -/
def node (d : Document) (id : Nat) : Node := d.nodes.getD id default

/-- The node with a number, if there is one. -/
def node? (d : Document) (id : Nat) : Option Node := d.nodes[id]?

/-- The span of a node. -/
def span (d : Document) (id : Nat) : Span := (d.node id).span

/-- The text of a span. -/
def slice (d : Document) (s : Span) : String := Text.slice d.text s.start s.stop

/-- The text of a node. -/
def source (d : Document) (id : Nat) : String := d.slice (d.span id)

/-- The children of a node in order. -/
def children (d : Document) (id : Nat) : List Nat := (d.node id).children.toList

/-- The nodes around a node, from the inside to the outside. -/
def ancestors (d : Document) (id : Nat) : List Nat := (Node.chain d.nodes id).drop 1

/-- The element with a number. -/
def element? (d : Document) (id : Nat) : Option Element := (d.node id).element?

/-- The elements among the children of a node. -/
def childElements (d : Document) (id : Nat) : List Nat :=
  (d.children id).filter fun c => (d.node c).isElement

/-- The innermost element around a node. -/
def parentElement? (d : Document) (id : Nat) : Option Nat :=
  (d.ancestors id).find? fun a => (d.node a).isElement

/-- The node itself and all nodes inside it, in the order of the text; attributes are left out. -/
def descendants (d : Document) (id : Nat) : List Nat :=
  id :: (d.children id).flatMap fun c =>
    if id < c ∧ c < d.nodes.size then d.descendants c else []
termination_by d.nodes.size - id
decreasing_by omega

/-- All elements in the order of the text. -/
def elements (d : Document) : List Nat := (d.descendants 0).filter fun id => (d.node id).isElement

/-- The first element of the document. -/
def root? (d : Document) : Option Nat := (d.childElements 0).head?

/-- The document type. -/
def doctype? (d : Document) : Option Nat := (d.children 0).find? fun c => (d.node c).isDoctype

/-- The record of the document type. -/
def doctypeData? (d : Document) : Option Doctype := d.doctype?.bind fun id => (d.node id).doctype?

/-- The XML declaration. -/
def prolog? (d : Document) : Option Nat :=
  (d.children 0).head?.filter fun c => (d.node c).isProlog

/-- The document is a file of declarations. -/
def isDtd (d : Document) : Bool := isDtdUri d.uri

/-- The document is a schema. -/
def isXsd (d : Document) : Bool := d.uri.endsWith ".xsd"

/-- The place of a child in its parent. -/
def indexInParent? (d : Document) (id : Nat) : Option (Nat × Nat) := do
  let parent ← (d.node id).parent
  let index ← (d.children parent).findIdx? (· == id)
  return (parent, index)

/-- The next child of the same parent. -/
def nextSibling? (d : Document) (id : Nat) : Option Nat := do
  let (parent, index) ← d.indexInParent? id
  (d.children parent)[index + 1]?

/-- The child of the same parent before this one. -/
def previousSibling? (d : Document) (id : Nat) : Option Nat := do
  let (parent, index) ← d.indexInParent? id
  if index = 0 then none else (d.children parent)[index - 1]?

/-- The text of a text node, or what stands between the delimiters of a comment, a CDATA section or
an instruction. -/
def content? (d : Document) (id : Nat) : Option String :=
  let inside (s : Option Span) : Option String := some ((s.map d.slice).getD "")
  match (d.node id).kind with
  | .text => some (d.source id)
  | .comment c | .cdata c => inside c.content
  | .instruction i => inside i.content
  | _ => none

/-! ## Attributes -/

/-- The attributes of a node with their numbers, in order. -/
def attributes (d : Document) (id : Nat) : List (Nat × Attribute) :=
  (d.node id).attributeIds.toList.filterMap fun a => ((d.node a).attribute?).map (a, ·)

/-- The first attribute with a name. -/
def attribute? (d : Document) (id : Nat) (name : String) : Option (Nat × Attribute) :=
  (d.attributes id).find? fun (_, a) => a.name == name

/-- The value of the first attribute with a name, without quotes. -/
def attributeValue? (d : Document) (id : Nat) (name : String) : Option String :=
  (d.attribute? id name).bind (·.2.value)

/-- The node has an attribute with a name. -/
def hasAttribute (d : Document) (id : Nat) (name : String) : Bool := (d.attribute? id name).isSome

/-- The attribute of a node that the cursor at `offset` is in or right behind. -/
def attributeOn? (d : Document) (id : Nat) (offset : Nat) : Option (Nat × Attribute) :=
  (d.attributes id).find? fun (a, _) => (d.span a).touches offset

/-! ## Places -/

/-- The innermost node from `id` inwards that contains `offset`. The end of the text belongs to the
innermost node that ends there. -/
def nodeAtFrom (d : Document) (offset : Nat) (id : Nat) : Nat :=
  let kids := d.children id
  let atEnd : Option Nat :=
    if d.size ≤ offset then
      kids.getLast?.filter fun c => (d.span c).stop == d.size && (d.span c).start < offset
    else none
  let next := match kids.dropWhile fun c => (d.span c).stop ≤ offset with
    | c :: _ => if (d.span c).start ≤ offset then some c else atEnd
    | [] => atEnd
  match next with
  | some c => if id < c ∧ c < d.nodes.size then d.nodeAtFrom offset c else id
  | none => id
termination_by d.nodes.size - id
decreasing_by omega

/-- The innermost node that contains `offset`; attributes are not looked at. -/
def nodeAt (d : Document) (offset : Nat) : Nat := d.nodeAtFrom offset 0

/-- From `id` inwards, the last child that starts before `offset`, as long as `offset` is inside it
or it ends where its own last child ends. -/
def nodeBeforeFrom (d : Document) (offset : Nat) (id : Nat) : Nat :=
  match ((d.children id).takeWhile fun c => (d.span c).start < offset).getLast? with
  | none => id
  | some c =>
    let stop := (d.span c).stop
    let nested := match (d.children c).getLast? with
      | some last => (d.span last).stop == stop
      | none => false
    if stop ≤ offset && !nested then c
    else if id < c ∧ c < d.nodes.size then d.nodeBeforeFrom offset c
    else id
termination_by d.nodes.size - id
decreasing_by omega

/-- The node that a cursor at `offset` is behind. -/
def nodeBefore (d : Document) (offset : Nat) : Nat := d.nodeBeforeFrom offset 0

/-- The attribute that a cursor at `offset` is in or right behind. -/
def attributeAt? (d : Document) (offset : Nat) : Option (Nat × Attribute) :=
  let id := d.nodeAt offset
  match d.attributeOn? id offset with
  | some a => some a
  | none => (d.node id).parent.bind fun parent => d.attributeOn? parent offset

/-- The text node that contains `offset`. -/
def textAt? (d : Document) (offset : Nat) : Option Nat :=
  let id := d.nodeAt offset
  if (d.node id).isText then some id else none

/-- The character `c` stands right before `offset`. -/
def endsWith (d : Document) (c : Char) (offset : Nat) : Bool :=
  match Text.slice? d.text 0 offset with
  | some before => before.endsWith c
  | none => false

/-- The character `c` stands at `offset`. -/
def startsWith (d : Document) (c : Char) (offset : Nat) : Bool :=
  match Text.slice? d.text offset d.size with
  | some behind => behind.startsWith c
  | none => false

/-- The position of an offset. -/
def positionAt (d : Document) (offset : Nat) : Except BadLocation Position :=
  d.lines.positionAt d.text offset

/-- The offset of a position. -/
def offsetAt (d : Document) (p : Position) : Except BadLocation Nat := d.lines.offsetAt d.text p

/-- The range of a span. -/
def rangeOf (d : Document) (s : Span) : Except BadLocation Range := do
  let start ← d.positionAt s.start
  let stop ← d.positionAt s.stop
  return ⟨start, stop⟩

/-- The span of a range. -/
def spanOf (d : Document) (r : Range) : Except BadLocation Span := do
  let start ← d.offsetAt r.start
  let stop ← d.offsetAt r.stop
  return ⟨start, stop⟩

end Document

end XmlAssist
