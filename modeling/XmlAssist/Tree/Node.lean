import XmlAssist.Library
import XmlAssist.Tree.Declaration

/-!
# Nodes

The records that a document is made of. A node is known by its number, that of the document itself
being zero; it keeps the numbers of its
parent and its children, and the offsets of all its parts, since any of them may be missing in a
document that is being typed.
-/

namespace XmlAssist

/-- An element: its start tag, its end tag, or both. -/
structure Element where
  tag : Option String := none
  /-- The name in the start tag. -/
  tagSpan : Option Span := none
  /-- The offset of `<`. -/
  startOpen : Option Nat := none
  /-- The offset of the `>` or `/>` of the start tag. -/
  startClose : Option Nat := none
  /-- The offset of `</`. -/
  endOpen : Option Nat := none
  /-- The name in the end tag. -/
  endTagSpan : Option Span := none
  /-- The offset of the `>` of the end tag. -/
  endClose : Option Nat := none
  selfClosed : Bool := false
  /-- An end tag or `/>` was seen. -/
  closed : Bool := false
  attributes : Array Nat := #[]
deriving DecidableEq, Repr, Inhabited

namespace Element

/-- The element has a start tag. -/
def hasStartTag (e : Element) : Bool := e.startOpen.isSome

/-- The element has an end tag. -/
def hasEndTag (e : Element) : Bool := e.endOpen.isSome

/-- The start tag ends with `>` or `/>`. -/
def isStartTagClosed (e : Element) : Bool := e.startClose.isSome

/-- The end tag ends with `>`. -/
def isEndTagClosed (e : Element) : Bool := e.endClose.isSome

/-- The tag without the part before its first colon. -/
def localName (e : Element) : Option String :=
  e.tag.map fun t => ((Text.splitOnce? ':' t).map (·.2)).getD t

/-- The part of the tag before its first colon. -/
def namePrefix (e : Element) : Option String :=
  e.tag.bind fun t => (Text.splitOnce? ':' t).map (·.1)

end Element

/-- An attribute of an element or of the XML declaration. -/
structure Attribute where
  name : String
  nameSpan : Span
  valueSpan : Option Span := none
  /-- The value as it is written. -/
  written : Option String := none
  /-- The value without the quotes around it. -/
  value : Option String := none
  /-- An `=` follows the name. -/
  hasDelimiter : Bool := false
deriving DecidableEq, Repr, Inhabited

namespace Attribute

/-- The attribute with a value as it is written. -/
def withValue (a : Attribute) (written : String) (span : Span) : Attribute :=
  { a with value := some (Text.stripQuotes written), written := some written, valueSpan := some span }

/-- The attributes have the same name and the same value, wherever they are written. -/
def same (a b : Attribute) : Bool := a.name == b.name && a.value == b.value

/-- The value with its references replaced; one with a reference that cannot be stays as it is. -/
def decoded [Library] (a : Attribute) : Option String :=
  a.value.map fun raw => (Library.decode? raw).getD raw

/-- The value starts with a quote. -/
def isQuoted (a : Attribute) : Bool := (a.written.map Text.startsWithQuote).getD false

/-- The attribute declares the default namespace. -/
def isDefaultXmlns (a : Attribute) : Bool := a.name == "xmlns"

/-- The prefix that the attribute declares a namespace for. -/
def xmlnsPrefix (a : Attribute) : Option String := Text.after? "xmlns:" a.name

/-- The attribute declares the namespace of a prefix. -/
def isPrefixXmlns (a : Attribute) : Bool := a.xmlnsPrefix.isSome

/-- The attribute declares a namespace. -/
def isXmlns (a : Attribute) : Bool := a.isDefaultXmlns || a.isPrefixXmlns

/-- The prefix that the attribute binds to the namespace `uri`. -/
def prefixFor (a : Attribute) (uri : String) : Option String :=
  if a.value == some uri then a.xmlnsPrefix else none

/-- The cursor at `offset` is in the name or right behind it. -/
def nameTouches (a : Attribute) (offset : Nat) : Bool := a.nameSpan.touches offset

/-- The cursor at `offset` is in the value or right behind it. -/
def valueTouches (a : Attribute) (offset : Nat) : Bool :=
  (a.valueSpan.map (·.touches offset)).getD false

end Attribute

/-- What stands between the delimiters of a comment or a CDATA section. -/
structure Enclosed where
  content : Option Span := none
  closed : Bool := false
deriving DecidableEq, Repr, Inhabited

/-- `<?target content?>`; the content of the XML declaration is read as attributes. -/
structure Instruction where
  target : Option String := none
  targetSpan : Option Span := none
  content : Option Span := none
  isProlog : Bool := false
  closed : Bool := false
  attributes : Array Nat := #[]
deriving DecidableEq, Repr, Inhabited

namespace Node

/-- The kinds of node. -/
inductive Kind where
  | document
  | element (data : Element)
  | attribute (data : Attribute)
  | text
  | comment (data : Enclosed)
  | cdata (data : Enclosed)
  | instruction (data : Instruction)
  | doctype (data : Doctype)
  | declaration (data : Declaration)
deriving DecidableEq, Repr, Inhabited

end Node

/-- A node of a document. -/
structure Node where
  span : Span := {}
  parent : Option Nat := none
  children : Array Nat := #[]
  kind : Node.Kind := .document
deriving DecidableEq, Repr, Inhabited

namespace Node

/-- The name that a node shows: a tag, a target, the name of a declaration. -/
def name (n : Node) : Option String :=
  match n.kind with
  | .document => some "#document"
  | .element e => e.tag
  | .attribute a => some a.name
  | .text => some "#text"
  | .comment _ => some "#comment"
  | .cdata _ => some "#cdata-section"
  | .instruction i => i.target
  | .doctype d => d.name.map (·.text)
  | .declaration d => d.body.name.map (·.text)

/-- The closing delimiter of the node was seen. -/
def isClosed (n : Node) : Bool :=
  match n.kind with
  | .document | .text | .attribute _ => true
  | .element e => e.closed
  | .comment c | .cdata c => c.closed
  | .instruction i => i.closed
  | .doctype d => d.closed
  | .declaration d => d.closed

/-- The numbers of the attributes of an element or of the XML declaration. -/
def attributeIds (n : Node) : Array Nat :=
  match n.kind with
  | .element e => e.attributes
  | .instruction i => i.attributes
  | _ => #[]

/-- The node as an element. -/
def element? (n : Node) : Option Element :=
  match n.kind with
  | .element e => some e
  | _ => none

/-- The node as an attribute. -/
def attribute? (n : Node) : Option Attribute :=
  match n.kind with
  | .attribute a => some a
  | _ => none

/-- The node as a document type. -/
def doctype? (n : Node) : Option Doctype :=
  match n.kind with
  | .doctype d => some d
  | _ => none

/-- The node as a declaration. -/
def declaration? (n : Node) : Option Declaration :=
  match n.kind with
  | .declaration d => some d
  | _ => none

/-- The node as the declaration of an element. -/
def elementDecl? (n : Node) : Option Declaration.ElementBody :=
  match n.kind with
  | .declaration ⟨.element b, _, _, _⟩ => some b
  | _ => none

/-- The node as an attribute list. -/
def attlistDecl? (n : Node) : Option Declaration.AttlistBody :=
  match n.kind with
  | .declaration ⟨.attlist b, _, _, _⟩ => some b
  | _ => none

/-- The node as the declaration of an entity. -/
def entityDecl? (n : Node) : Option Declaration.EntityBody :=
  match n.kind with
  | .declaration ⟨.entity b, _, _, _⟩ => some b
  | _ => none

/-- The node is the XML declaration. -/
def isProlog (n : Node) : Bool :=
  match n.kind with
  | .instruction i => i.isProlog
  | _ => false

/-- The node is text. -/
def isText (n : Node) : Bool := n.kind matches .text

/-- The node is an element. -/
def isElement (n : Node) : Bool := n.element?.isSome

/-- The node is a document type. -/
def isDoctype (n : Node) : Bool := n.doctype?.isSome

end Node

end XmlAssist
