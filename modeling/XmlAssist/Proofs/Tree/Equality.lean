import XmlAssist.Proofs.Tree.Shape
import XmlAssist.Tree.Equality

/-!
# Equality in structure

Documents are compared node by node. What counts of a node is its label (`Document.label`), and what
counts of a node with all that is inside it is a tree of labels (`Document.labelled`). Two documents
are equal in structure exactly if they have the same tree (`structurallyEqual_iff`).
-/

namespace XmlAssist

/-- The kind without its data; of a declaration, what it declares is left. -/
def Node.Kind.bare : Node.Kind → Node.Kind
  | .document => .document
  | .element _ => .element {}
  | .attribute _ => .attribute default
  | .text => .text
  | .comment _ => .comment {}
  | .cdata _ => .cdata {}
  | .instruction _ => .instruction {}
  | .doctype _ => .doctype default
  | .declaration d => .declaration { (default : Declaration) with body :=
      match d.body with
      | .element _ => .element {}
      | .attlist _ => .attlist {}
      | .entity _ => .entity {}
      | .notationDecl _ => .notationDecl {} }

theorem Node.Kind.alike_iff (x y : Node.Kind) : x.alike y = true ↔ x.bare = y.bare := by
  cases x with
  | declaration d =>
    cases y with
    | declaration e => cases hd : d.body <;> cases he : e.body <;> simp [alike, bare, hd, he]
    | _ => simp [alike, bare]
  | _ => cases y <;> simp [alike, bare]

namespace Document

open Node

/-- What counts of a node if documents are compared. -/
inductive Label where
  | element (tag : Option String) (attributes : List (String × Option String))
  | text (content : Option String)
  | comment (content : Option String)
  | cdata (content : Option String)
  | instruction (target : Option String) (source : String)
  /-- Any other node, of which the kind and the name count. -/
  | other (kind : Node.Kind) (name : Option String)
deriving DecidableEq, Inhabited

/-- A tree of labels. -/
inductive Labelled where
  | node (label : Label) (children : List Labelled)

/-- The label of a node. -/
def label (d : Document) (id : Nat) : Label :=
  match (d.node id).kind with
  | .element e => .element e.tag ((d.attributes id).map fun (_, a) => (a.name, a.value))
  | .text => .text (d.content? id)
  | .comment _ => .comment (d.content? id)
  | .cdata _ => .cdata (d.content? id)
  | .instruction _ => .instruction (d.node id).name (d.source id)
  | kind => .other kind.bare (d.node id).name

/-- The labels of a node and of all nodes inside it. -/
def labelled (d : Document) (id : Nat) : Labelled :=
  .node (d.label id) ((d.children id).map fun c =>
    if id < c ∧ c < d.nodes.size then d.labelled c else .node default [])
termination_by d.nodes.size - id
decreasing_by omega

/-! ## One node -/

variable {d e : Document} {a b : Nat}

theorem sameAttributes_iff (as bs : List (Nat × Attribute)) : sameAttributes as bs = true ↔
    as.map (fun (_, a) => (a.name, a.value)) = bs.map fun (_, b) => (b.name, b.value) := by
  induction as generalizing bs with
  | nil => cases bs <;> simp [sameAttributes]
  | cons a as ih =>
    cases bs with
    | nil => simp [sameAttributes]
    | cons b bs => simp [sameAttributes, Attribute.same, ih]

theorem sameNode_iff : sameNode d e a b = true ↔ d.label a = e.label b := by
  unfold sameNode label
  cases hx : (d.node a).kind with
  | element x => cases (e.node b).kind <;> simp [sameAttributes_iff, Node.Kind.alike]
  | text => cases (e.node b).kind <;> simp [Node.Kind.alike]
  | comment x => cases (e.node b).kind <;> simp [Node.Kind.alike]
  | cdata x => cases (e.node b).kind <;> simp [Node.Kind.alike]
  | instruction x => cases (e.node b).kind <;> simp [Node.Kind.alike]
  | _ => cases (e.node b).kind <;> simp [Node.Kind.alike_iff, Node.Kind.bare]

/-! ## All nodes -/

theorem inside_of_mem_children (ha : Arena d.nodes) {c : Nat} (hc : c ∈ d.children a) :
    a < c ∧ c < d.nodes.size := by
  cases hn : d.nodes[a]? with
  | none => simp [children_eq_nil hn] at hc
  | some n =>
    have hchild := (mem_children ha (lt_size_of_getElem? hn)).mp hc
    exact ⟨ha.child_lt hchild, hchild.lt_size⟩

theorem labelled_eq (ha : Arena d.nodes) (id : Nat) :
    d.labelled id = .node (d.label id) ((d.children id).map d.labelled) := by
  rw [labelled]
  congr 1
  exact List.map_congr_left fun c hc => if_pos (inside_of_mem_children ha hc)

theorem map_eq_map_iff_zip {α β γ : Type} {f : α → γ} {g : β → γ} {p : α × β → Bool} {as : List α}
    {bs : List β} (hp : ∀ x ∈ as, ∀ y, p (x, y) = true ↔ f x = g y) :
    (as.length == bs.length && (as.zip bs).all p) = true ↔ as.map f = bs.map g := by
  induction as generalizing bs with
  | nil => cases bs <;> simp
  | cons x as ih =>
    obtain ⟨hx, has⟩ := List.forall_mem_cons.mp hp
    cases bs with
    | nil => simp
    | cons y bs =>
      rw [List.map_cons, List.map_cons, List.cons.injEq, ← hx y, ← ih has]
      simp [and_left_comm]

theorem sameTree_eq (ha : Arena d.nodes) : sameTree d e a b =
    (sameNode d e a b && ((d.children a).length == (e.children b).length &&
      ((d.children a).zip (e.children b)).all fun (x, y) => sameTree d e x y)) := by
  rw [sameTree, Bool.and_assoc]
  congr 2
  refine Bool.eq_iff_iff.mpr ?_
  rw [List.all_eq_true, List.all_eq_true]
  refine forall_congr' fun (x, y) => forall_congr' fun hxy => ?_
  dsimp only
  rw [if_pos (inside_of_mem_children ha (List.of_mem_zip hxy).1)]

theorem sameTree_iff (hd : Arena d.nodes) (he : Arena e.nodes) (a b : Nat) :
    sameTree d e a b = true ↔ d.labelled a = e.labelled b := by
  rw [sameTree_eq hd, labelled_eq hd, labelled_eq he, Labelled.node.injEq, Bool.and_eq_true, sameNode_iff]
  refine and_congr_right fun _ => map_eq_map_iff_zip fun x hx y => ?_
  have hinside := inside_of_mem_children hd hx
  exact sameTree_iff hd he x y
termination_by d.nodes.size - a
decreasing_by omega

theorem arena_parse (text uri : String) : Arena (parse text uri).nodes := by
  obtain ⟨⟨_, h⟩, -⟩ := Builder.build_spec text (isDtdUri uri)
  exact h.arena

theorem structurallyEqual_iff (hd : Arena d.nodes) (he : Arena e.nodes) :
    d.structurallyEqual e = true ↔ d.labelled 0 = e.labelled 0 :=
  sameTree_iff hd he 0 0

theorem equivalence_structurallyEqual : Equivalence fun x y : String × String =>
    (parse x.1 x.2).structurallyEqual (parse y.1 y.2) = true := by
  have hiff (x y : String × String) := structurallyEqual_iff (arena_parse x.1 x.2) (arena_parse y.1 y.2)
  constructor
  · intro x
    exact (hiff x x).mpr rfl
  · intro x y hxy
    exact (hiff y x).mpr ((hiff x y).mp hxy).symm
  · intro x y z hxy hyz
    exact (hiff x z).mpr (((hiff x y).mp hxy).trans ((hiff y z).mp hyz))

end Document

end XmlAssist
