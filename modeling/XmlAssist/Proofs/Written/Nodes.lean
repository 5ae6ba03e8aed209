import XmlAssist.Proofs.Written.Forest
import XmlAssist.Tree.Node

/-!
# The nodes of a written document

The nodes that a written document stands for, in the order of the text: `i` is the offset at which
a piece is written, `n` the number of its node and `parent` that of the node around it.
-/

namespace XmlAssist.Written

open Text (size)

/-- The span of a text that is written at an offset, if it is not empty. -/
def spanOf? (i : Nat) (text : String) : Option Span :=
  if text = "" then none else some ⟨i, i + size text⟩

/-- The attribute whose name is written at offset `i`. -/
def Attr.record (a : Attr) (i : Nat) : Attribute where
  name := a.name
  nameSpan := ⟨i, i + size a.name⟩
  valueSpan := some ⟨i + size a.name + size "=", i + size a.body⟩
  written := some a.quoted
  value := some a.value
  hasDelimiter := true

/-- The node of an attribute: the white space before it is not part of it. -/
def Attr.node (a : Attr) (i parent : Nat) : Node :=
  let start := i + size a.space
  { span := ⟨start, start + size a.body⟩, parent := some parent, kind := .attribute (a.record start) }

def attributeNodes : List Attr → (i parent : Nat) → Array Node
  | [], _, _ => #[]
  | a :: as, i, parent => #[a.node i parent] ++ attributeNodes as (i + size a.print) parent

/-- The numbers of the attributes of the node `n`: they follow it. -/
def attributeIds (as : List Attr) (n : Nat) : Array Nat := (List.range' (n + 1) as.length).toArray

/-- The element with a start tag whose bracket is not read yet. -/
def Tag.opened (t : Tag) (i n : Nat) : Element where
  tag := some t.name
  tagSpan := some ⟨i + size "<", i + size "<" + size t.name⟩
  startOpen := some i
  attributes := attributeIds t.attributes n

/-- The offset of the bracket that ends the tag. -/
def Tag.closeAt (t : Tag) (i : Nat) : Nat :=
  i + size "<" + size t.name + size (printAttributes t.attributes) + size t.space

def Tag.empty (t : Tag) (i n : Nat) : Element :=
  { t.opened i n with startClose := some (t.closeAt i), selfClosed := true, closed := true }

/-- The element of a start tag and an end tag that is written at offset `stop`. -/
def Tag.element (t : Tag) (i n stop : Nat) (space : String) : Element :=
  { t.opened i n with
    startClose := some (t.closeAt i)
    closed := true
    endOpen := some stop
    endTagSpan := some ⟨stop + size "</", stop + size "</" + size t.name⟩
    endClose := some (stop + size "</" + size t.name + size space) }

def Tag.attributeNodes (t : Tag) (i n : Nat) : Array Node :=
  Written.attributeNodes t.attributes (i + size "<" + size t.name) n

def Leaf.kind : Leaf → (i n : Nat) → Node.Kind
  | .text _, _, _ => .text
  | .comment content, i, _ => .comment { content := spanOf? (i + size "<!--") content, closed := true }
  | .cdata content, i, _ => .cdata { content := spanOf? (i + size "<![CDATA[") content, closed := true }
  | .instruction target space content, i, _ => .instruction
    { target := some target
      targetSpan := some ⟨i + size "<?", i + size "<?" + size target⟩
      content := spanOf? (i + size "<?" + size target + size space) content
      closed := true }
  | .empty tag, i, n => .element (tag.empty i n)

def Leaf.attributeNodes : Leaf → (i n : Nat) → Array Node
  | .empty tag, i, n => tag.attributeNodes i n
  | _, _, _ => #[]

def Leaf.nodes (piece : Leaf) (i n parent : Nat) : Array Node :=
  #[{ span := ⟨i, i + size piece.print⟩, parent := some parent, kind := piece.kind i n }] ++
    piece.attributeNodes i n

def Leaf.count : Leaf → Nat
  | .empty tag => 1 + tag.attributes.length
  | _ => 1

def Forest.count : Forest → Nat
  | .nil => 0
  | .leaf piece others => piece.count + others.count
  | .element tag content _ others => 1 + tag.attributes.length + content.count + others.count

/-- The numbers of the nodes that are not inside another one of the forest. -/
def Forest.roots : Forest → (n : Nat) → Array Nat
  | .nil, _ => #[]
  | .leaf piece others, n => #[n] ++ others.roots (n + piece.count)
  | .element tag content _ others, n =>
    #[n] ++ others.roots (n + (1 + tag.attributes.length + content.count))

def Forest.nodes : Forest → (i n parent : Nat) → Array Node
  | .nil, _, _, _ => #[]
  | .leaf piece others, i, n, parent =>
    piece.nodes i n parent ++ others.nodes (i + size piece.print) (n + piece.count) parent
  | .element tag content space others, i, n, parent =>
    let start := i + size (tag.print ">")
    let stop := start + size content.print
    let first := n + (1 + tag.attributes.length)
    #[{ span := ⟨i, stop + size (tag.printEnd space)⟩
        parent := some parent
        children := content.roots first
        kind := .element (tag.element i n stop space) }] ++
      tag.attributeNodes i n ++ content.nodes start first n ++
      others.nodes (stop + size (tag.printEnd space)) (first + content.count) parent

/-- The nodes of an XML declaration, which is the first piece of its document. -/
def Prolog.nodes (p : Prolog) : Array Node :=
  #[{ span := ⟨0, size p.print⟩
      parent := some 0
      kind := .instruction
        { target := some "xml"
          targetSpan := some ⟨size "<?", size "<?" + size "xml"⟩
          isProlog := true
          closed := true
          attributes := attributeIds p.attributes 1 } }] ++
    Written.attributeNodes p.attributes (size "<?" + size "xml") 1

/-- The nodes of what stands before the content. -/
def headNodes (w : Written) : Array Node := (w.prolog.map (·.nodes)).getD #[]

/-- The children of the document before those for its content. -/
def headRoots (w : Written) : Array Nat := if w.prolog.isSome then #[1] else #[]

def documentNode (w : Written) : Node where
  span := ⟨0, size w.print⟩
  children := w.headRoots ++ w.forest.roots (1 + w.headNodes.size)

def innerNodes (w : Written) : Array Node :=
  w.headNodes ++ w.forest.nodes (size w.head) (1 + w.headNodes.size) 0

def nodes (w : Written) : Array Node := #[w.documentNode] ++ w.innerNodes

/-! ## Numbers of nodes -/

theorem size_attributeNodes (as : List Attr) (i n : Nat) : (attributeNodes as i n).size = as.length := by
  induction as generalizing i with
  | nil => rfl
  | cons a as ih =>
    rw [attributeNodes, Array.size_append, ih, List.length_cons]
    exact Nat.add_comm ..

theorem Leaf.size_nodes (piece : Leaf) (i n parent : Nat) :
    (piece.nodes i n parent).size = piece.count := by
  rw [Leaf.nodes, Array.size_append]
  cases piece with
  | empty tag => exact congrArg (1 + ·) (size_attributeNodes ..)
  | _ => rfl

theorem Forest.size_nodes (f : Forest) (i n parent : Nat) : (f.nodes i n parent).size = f.count := by
  induction f generalizing i n parent with
  | nil => rfl
  | leaf piece others ih =>
    rw [Forest.nodes, Array.size_append, Leaf.size_nodes, ih]
    rfl
  | element tag content space others ihcontent ih =>
    simp only [Forest.nodes, Array.size_append, ihcontent, ih, Tag.attributeNodes,
      size_attributeNodes]
    rfl

end XmlAssist.Written
