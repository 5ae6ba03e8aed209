import XmlAssist.Proofs.Written.Reading
import XmlAssist.Tree.Document

/-!
# Documents that show what is written

`Document.Shows` compares a document with a written one, node by node: the children of each node are
the pieces inside it in their order, and each of them has the kind, the names, the values and the
content of its piece and a span that is the piece exactly. The nodes that a written document stands
for show it.
-/

namespace XmlAssist

open Text (Stands)
open Written (Attr Tag Leaf Forest Prolog)

/-- The attribute has the name and the value that are written. -/
structure Attribute.Shows (x : Attribute) (a : Attr) : Prop where
  name : x.name = a.name
  value : x.value = some a.value
  written : x.written = some a.quoted
  hasDelimiter : x.hasDelimiter = true

namespace Document

/-- The node `id` under `parent` is closed, and it is the text `piece` at offset `i`. -/
structure Covers (d : Document) (parent id i : Nat) (piece : String) : Prop where
  parent : (d.node id).parent = some parent
  closed : (d.node id).isClosed = true
  span : d.span id = ⟨i, i + Text.size piece⟩
  source : d.source id = piece

/-- The attributes of the node `owner` are those written from offset `i` on. -/
inductive ShowsAttributes (d : Document) (owner : Nat) :
    (i : Nat) → List Attr → List (Nat × Attribute) → Prop where
  | nil {i} : ShowsAttributes d owner i [] []
  | cons {i id a as x xs} (covers : d.Covers owner id (i + Text.size a.space) a.body) (shows : x.Shows a)
      (children : d.children id = [])
      (others : ShowsAttributes d owner (i + Text.size a.print) as xs) :
      ShowsAttributes d owner i (a :: as) ((id, x) :: xs)

/-- The node `id` is the element `e`, which has the name and the attributes of a tag at offset `i`. -/
structure ShowsTag (d : Document) (id i : Nat) (t : Tag) (e : Element) : Prop where
  kind : (d.node id).kind = .element e
  tag : e.tag = some t.name
  startTag : e.hasStartTag = true ∧ e.isStartTagClosed = true
  attributes : d.ShowsAttributes id (i + Text.size "<" + Text.size t.name) t.attributes (d.attributes id)

/-- The node `id` is of the kind of a piece at offset `i`, and it has its content. -/
def ShowsLeaf (d : Document) (id i : Nat) : Leaf → Prop
  | .text content => (d.node id).kind = .text ∧ d.content? id = some content
  | .comment content => (∃ c, (d.node id).kind = .comment c) ∧ d.content? id = some content
  | .cdata content => (∃ c, (d.node id).kind = .cdata c) ∧ d.content? id = some content
  | .instruction target _ content =>
    (∃ p, (d.node id).kind = .instruction p ∧ p.target = some target ∧ p.isProlog = false ∧
      p.attributes = #[]) ∧ d.content? id = some content
  | .empty tag => ∃ e, d.ShowsTag id i tag e ∧ e.selfClosed = true

/-- The children of `parent` from some one on are the pieces written from offset `i` on. -/
inductive ShowsForest (d : Document) : (parent i : Nat) → Forest → List Nat → Prop where
  | nil {parent i} : ShowsForest d parent i .nil []
  | leaf {parent i id ids piece others} (covers : d.Covers parent id i piece.print)
      (shows : d.ShowsLeaf id i piece) (children : d.children id = [])
      (next : ShowsForest d parent (i + Text.size piece.print) others ids) :
      ShowsForest d parent i (.leaf piece others) (id :: ids)
  | element {parent i id ids tag content space others e}
      (covers : d.Covers parent id i (tag.print ">" ++ (content.print ++ tag.printEnd space)))
      (shows : d.ShowsTag id i tag e) (selfClosed : e.selfClosed = false)
      (endTag : e.hasEndTag = true ∧ e.isEndTagClosed = true)
      (inside : ShowsForest d id (i + Text.size (tag.print ">")) content (d.children id))
      (next : ShowsForest d parent
        (i + Text.size (tag.print ">" ++ (content.print ++ tag.printEnd space))) others ids) :
      ShowsForest d parent i (.element tag content space others) (id :: ids)

/-- The node `id` is the XML declaration. -/
structure ShowsProlog (d : Document) (id : Nat) (p : Prolog) : Prop where
  covers : d.Covers 0 id 0 p.print
  kind : ∃ x, (d.node id).kind = .instruction x ∧ x.target = some "xml" ∧ x.isProlog = true ∧
    x.content = none
  children : d.children id = []
  attributes : d.ShowsAttributes id (Text.size "<?" + Text.size "xml") p.attributes (d.attributes id)

/-- The children of the document are the XML declaration, if one is written, and the content. -/
def ShowsChildren (d : Document) (f : Forest) : Option Prolog → List Nat → Prop
  | none, ids => d.ShowsForest 0 0 f ids
  | some p, ids => ∃ id others, ids = id :: others ∧ d.ShowsProlog id p ∧
    d.ShowsForest 0 (Text.size p.print) f others

/-- The document is the written one. -/
structure Shows (d : Document) (w : Written) : Prop where
  text : d.text = w.print
  kind : (d.node 0).kind = .document
  span : d.span 0 = ⟨0, Text.size w.print⟩
  children : d.ShowsChildren w.forest w.prolog (d.children 0)

theorem ShowsTag.element? {d : Document} {id i : Nat} {t : Tag} {e : Element} (h : d.ShowsTag id i t e) :
    d.element? id = some e := by
  rw [Document.element?, Node.element?, h.kind]

/-- A piece without others inside is an empty element, or neither an element nor a document type. -/
theorem ShowsLeaf.element_or {d : Document} {id i : Nat} {piece : Leaf} (h : d.ShowsLeaf id i piece) :
    (∃ tag e, piece = .empty tag ∧ d.ShowsTag id i tag e ∧ e.selfClosed = true) ∨
      (d.element? id = none ∧ (d.node id).doctype? = none) := by
  rw [Document.element?, Node.element?, Node.doctype?]
  cases piece with
  | text content =>
    rw [h.1]
    exact .inr ⟨rfl, rfl⟩
  | comment content =>
    obtain ⟨⟨c, hkind⟩, -⟩ := h
    rw [hkind]
    exact .inr ⟨rfl, rfl⟩
  | cdata content =>
    obtain ⟨⟨c, hkind⟩, -⟩ := h
    rw [hkind]
    exact .inr ⟨rfl, rfl⟩
  | instruction target space content =>
    obtain ⟨⟨p, hkind, -⟩, -⟩ := h
    rw [hkind]
    exact .inr ⟨rfl, rfl⟩
  | empty tag =>
    obtain ⟨e, htag, hself⟩ := h
    exact .inl ⟨tag, e, rfl, htag, hself⟩

/-! ## Nodes in a row -/

/-- The nodes from `n` on are `ns`. -/
def Holds (d : Document) (n : Nat) (ns : Array Node) : Prop :=
  ∃ A B, d.nodes = A ++ ns ++ B ∧ A.size = n

section holds
variable {d : Document} {n : Nat} {x : Node} {ns ms : Array Node}

theorem Holds.left (h : d.Holds n (ns ++ ms)) : d.Holds n ns := by
  obtain ⟨A, B, hnodes, hA⟩ := h
  exact ⟨A, ms ++ B, by simpa only [Array.append_assoc] using hnodes, hA⟩

theorem Holds.right (h : d.Holds n (ns ++ ms)) : d.Holds (n + ns.size) ms := by
  obtain ⟨A, B, hnodes, rfl⟩ := h
  exact ⟨A ++ ns, B, by simpa only [Array.append_assoc] using hnodes, Array.size_append⟩

theorem Holds.node (h : d.Holds n #[x]) : d.node n = x := by
  obtain ⟨A, B, hnodes, rfl⟩ := h
  rw [Document.node, Array.getD_eq_getD_getElem?, hnodes, getElem?_mid]
  rfl

end holds

/-! ## The nodes of a written document show it -/

variable {d : Document} {n i j parent : Nat} {x : Node}

theorem covers_of_node {piece : String} (h : Stands d.text i piece) (hx : d.node n = x)
    (hp : x.parent = some parent) (hclosed : x.isClosed = true)
    (hspan : x.span = ⟨i, i + Text.size piece⟩) : d.Covers parent n i piece := by
  have hn : d.span n = ⟨i, i + Text.size piece⟩ := by rw [span, hx, hspan]
  refine ⟨by rw [hx, hp], by rw [hx, hclosed], hn, ?_⟩
  rw [source, hn]
  exact h.slice

theorem children_of_node (hx : d.node n = x) : d.children n = x.children.toList := by
  rw [children, hx]

theorem shows_attributes {as : List Attr} (h : Stands d.text i (Written.printAttributes as))
    (hn : d.Holds n (Written.attributeNodes as i parent)) :
    d.ShowsAttributes parent i as
      ((List.range' n as.length).filterMap fun a => (d.node a).attribute?.map (a, ·)) := by
  induction as generalizing i n with
  | nil => exact .nil
  | cons a as ih =>
    have hnode := hn.left.node
    have hkind : (d.node n).attribute? = some (a.record (i + Text.size a.space)) := by
      rw [hnode]
      rfl
    rw [List.length_cons, List.range'_succ, List.filterMap_cons, hkind]
    refine .cons (covers_of_node h.left.right hnode rfl rfl rfl) ⟨rfl, rfl, rfl, rfl⟩
      (children_of_node hnode) (ih h.right hn.right)

theorem slice_spanOf {text : String} (h : Stands d.text i text) :
    ((Written.spanOf? i text).map d.slice).getD "" = text := by
  rw [Written.spanOf?]
  split
  · rename_i hempty
    exact hempty.symm
  · exact h.slice

theorem shows_tag {t : Tag} {close : String} {e : Element} (h : Stands d.text i (t.print close))
    (hkind : (d.node n).kind = .element e) (htag : e.tag = some t.name)
    (hstart : e.hasStartTag = true ∧ e.isStartTagClosed = true)
    (hids : e.attributes = Written.attributeIds t.attributes n)
    (hn : d.Holds (n + 1) (t.attributeNodes i n)) : d.ShowsTag n i t e := by
  refine ⟨hkind, htag, hstart, ?_⟩
  rw [attributes, Node.attributeIds, hkind]
  simp only [hids, Written.attributeIds]
  exact shows_attributes h.right.right.left hn

theorem shows_leaf {piece : Leaf} (h : Stands d.text i piece.print)
    (hn : d.Holds n (piece.nodes i n parent)) :
    d.Covers parent n i piece.print ∧ d.ShowsLeaf n i piece ∧ d.children n = [] := by
  have hnode := hn.left.node
  have hattributes := hn.right
  have hkind : (d.node n).kind = piece.kind i n := by rw [hnode]
  have hclosed : (d.node n).isClosed = true := by
    rw [hnode]
    cases piece <;> rfl
  have hcovers := covers_of_node h hnode rfl (hnode ▸ hclosed) rfl
  refine ⟨hcovers, ?_, children_of_node hnode⟩
  cases piece with
  | text content =>
    refine ⟨hkind, ?_⟩
    rw [content?, hkind]
    exact congrArg some hcovers.source
  | comment content =>
    refine ⟨⟨_, hkind⟩, ?_⟩
    rw [content?, hkind]
    exact congrArg some (slice_spanOf h.right.left)
  | cdata content =>
    refine ⟨⟨_, hkind⟩, ?_⟩
    rw [content?, hkind]
    exact congrArg some (slice_spanOf h.right.left)
  | instruction target space content =>
    refine ⟨⟨_, hkind, rfl, rfl, rfl⟩, ?_⟩
    rw [content?, hkind]
    exact congrArg some (slice_spanOf h.right.right.right.left)
  | empty tag =>
    exact ⟨_, shows_tag h hkind rfl ⟨rfl, rfl⟩ rfl hattributes, rfl⟩

theorem shows_forest {f : Forest} (h : Stands d.text i f.print) (hn : d.Holds n (f.nodes i n parent)) :
    d.ShowsForest parent i f (f.roots n).toList := by
  induction f generalizing i n parent with
  | nil => exact .nil
  | leaf piece others ih =>
    obtain ⟨hcovers, hshows, hchildren⟩ := shows_leaf h.left hn.left
    have hothers := hn.right
    rw [Leaf.size_nodes] at hothers
    rw [Forest.roots, Array.toList_append]
    exact .leaf hcovers hshows hchildren (ih h.right hothers)
  | element tag content space others ihcontent ih =>
    have hnode := hn.left.left.left.node
    have hkind : (d.node n).kind =
        .element (tag.element i n (i + Text.size (tag.print ">") + Text.size content.print) space) := by
      rw [hnode]
    have hsize : i + Text.size (tag.print ">" ++ (content.print ++ tag.printEnd space)) =
        i + Text.size (tag.print ">") + Text.size content.print + Text.size (tag.printEnd space) := by
      simp only [Text.size_append]
      omega
    have hinside := hn.left.right
    have hothers := hn.right
    simp only [Array.size_append, List.size_toArray, List.length_singleton, Tag.attributeNodes,
      Written.size_attributeNodes, Forest.size_nodes] at hinside hothers
    rw [Forest.roots, Array.toList_append]
    refine .element (covers_of_node h.left hnode rfl rfl (by rw [hsize]))
      (shows_tag h.left.left hkind rfl ⟨rfl, rfl⟩ rfl hn.left.left.right) rfl ⟨rfl, rfl⟩ ?_ ?_
    · rw [children_of_node hnode]
      exact ihcontent h.left.right.left hinside
    · rw [hsize]
      refine ih (hsize ▸ h.right) ?_
      rwa [Nat.add_assoc n] at hothers

theorem shows_prolog {p : Prolog} (h : Stands d.text 0 p.print) (hn : d.Holds 1 p.nodes) :
    d.ShowsProlog 1 p := by
  have hnode := hn.left.node
  refine ⟨covers_of_node h hnode rfl rfl (by rw [Nat.zero_add]), ⟨_, by rw [hnode], rfl, rfl, rfl⟩,
    children_of_node hnode, ?_⟩
  rw [attributes, hnode]
  have hattributes := h.right.right.left
  rw [Nat.zero_add] at hattributes
  exact shows_attributes hattributes hn.right

theorem shows_of_nodes {w : Written} (htext : d.text = w.print) (hnodes : d.nodes = w.nodes) :
    d.Shows w := by
  have h : Stands d.text 0 w.print := htext ▸ Text.stands_self w.print
  have hn : d.Holds 0 w.nodes := ⟨#[], #[], by simp [hnodes], rfl⟩
  have hnode := hn.left.node
  refine ⟨htext, by rw [hnode]; rfl, by rw [span, hnode]; rfl, ?_⟩
  have hhead := h.right
  rw [Nat.zero_add] at hhead
  have hforest := shows_forest hhead hn.right.right
  rw [children_of_node hnode, Written.documentNode, Array.toList_append]
  obtain ⟨prolog, forest⟩ := w
  cases prolog with
  | none => exact hforest
  | some p => exact ⟨1, _, rfl, shows_prolog h.left hn.right.left, hforest⟩

end Document

end XmlAssist
