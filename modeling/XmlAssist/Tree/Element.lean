import XmlAssist.Tree.Document

/-!
# Elements in their document

Where the tags of an element are, and which namespaces its prefixes stand for.
-/

namespace XmlAssist.Document

/-- The namespace of XML Schema. -/
def schemaNamespace : String := "http://www.w3.org/2001/XMLSchema"

/-- The offset behind the start tag; of a start tag without `>`, where it breaks off. -/
def startTagStop (d : Document) (id : Nat) (e : Element) : Nat :=
  match e.startClose with
  | some close => if e.selfClosed then close + 2 else close + 1
  | none =>
    match d.children id with
    | c :: _ => (d.span c).start
    | [] => (d.span id).stop

/-- The cursor at `offset` is behind the `<` and not behind the `>` of the start tag. -/
def isInStartTag (d : Document) (id : Nat) (e : Element) (offset : Nat) : Bool :=
  match e.startOpen with
  | some start => start < offset && offset ≤ e.startClose.getD (d.startTagStop id e)
  | none => false

/-- The cursor at `offset` is inside the end tag. -/
def isInEndTag (d : Document) (id : Nat) (e : Element) (offset : Nat) : Bool :=
  match e.endOpen with
  | some start => start < offset && offset < (d.span id).stop
  | none => false

/-- The element and those around it, from the inside to the outside. -/
def elementChain (d : Document) (id : Nat) : List Nat :=
  id :: (d.ancestors id).filter fun a => (d.node a).isElement

/-- The namespace that a prefix, or no prefix, stands for at an element. -/
def namespaceFor? (d : Document) (id : Nat) (pre : Option String) : Option String :=
  let name := match pre with
    | some p => "xmlns:" ++ p
    | none => "xmlns"
  (d.elementChain id).findSome? fun e => d.attributeValue? e name

/-- The namespace of an element. -/
def namespace? (d : Document) (id : Nat) (e : Element) : Option String :=
  d.namespaceFor? id e.namePrefix

/-- A prefix that an element or one around it declares for a namespace. -/
def prefixFor? (d : Document) (id : Nat) (uri : String) : Option String :=
  (d.elementChain id).findSome? fun e => (d.attributes e).findSome? fun (_, a) => a.prefixFor uri

/-- The prefixes declared on an element and those around it, nearest first, each once. -/
def prefixes (d : Document) (id : Nat) : List String :=
  ((d.elementChain id).flatMap fun e => (d.attributes e).filterMap fun (_, a) => a.xmlnsPrefix).foldl
    (fun found p => if found.contains p then found else found ++ [p]) []

/-- The prefix of XML Schema on the first element of the document. -/
def schemaPrefix? (d : Document) : Option String :=
  d.root?.bind fun id => (d.attributes id).findSome? fun (_, a) => a.prefixFor schemaNamespace

end XmlAssist.Document
