import XmlAssist.Tree.Document

/-!
# Equal documents

Two documents are equal in structure if their nodes have the same tags, attributes (names and
values without quotes), contents and children, wherever they are written.
-/

namespace XmlAssist

/-- The kinds are built by the same constructor, declarations of the same kind. -/
def Node.Kind.alike : Node.Kind → Node.Kind → Bool
  | .document, .document | .element _, .element _ | .attribute _, .attribute _ | .text, .text
  | .comment _, .comment _ | .cdata _, .cdata _ | .instruction _, .instruction _
  | .doctype _, .doctype _ => true
  | .declaration d, .declaration e =>
    match d.body, e.body with
    | .element _, .element _ | .attlist _, .attlist _ | .entity _, .entity _
    | .notationDecl _, .notationDecl _ => true
    | _, _ => false
  | _, _ => false

namespace Document

/-- The lists have the same attributes in the same order. -/
def sameAttributes : List (Nat × Attribute) → List (Nat × Attribute) → Bool
  | [], [] => true
  | (_, a) :: as, (_, b) :: bs => a.same b && sameAttributes as bs
  | _, _ => false

/-- The nodes are equal, their children not looked at. -/
def sameNode (d e : Document) (a b : Nat) : Bool :=
  match (d.node a).kind, (e.node b).kind with
  | .element x, .element y => x.tag == y.tag && sameAttributes (d.attributes a) (e.attributes b)
  | .text, .text | .comment _, .comment _ | .cdata _, .cdata _ => d.content? a == e.content? b
  | .instruction _, .instruction _ =>
    (d.node a).name == (e.node b).name && d.source a == e.source b
  | x, y => x.alike y && (d.node a).name == (e.node b).name

/-- The nodes and all nodes inside them are equal. -/
def sameTree (d e : Document) (a b : Nat) : Bool :=
  sameNode d e a b && (d.children a).length == (e.children b).length &&
    ((d.children a).zip (e.children b)).all fun (x, y) =>
      if a < x ∧ x < d.nodes.size then sameTree d e x y else false
termination_by d.nodes.size - a
decreasing_by omega

/-- The documents are equal in structure. -/
def structurallyEqual (d e : Document) : Bool := sameTree d e 0 0

end Document

end XmlAssist
