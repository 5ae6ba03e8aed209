import XmlAssist.Proofs.Tree.Pairing

/-!
# The outline of a tree

An edit moves what follows it, so that the trees before and after it agree in no offset. What may stay
the same is the outline: the nodes with their parents and children, what kind they are, whether
they are closed, their names, and the names and values of attributes.

`Mirrors f b b'` says that two builders, each with a text of its own, hold the same outline but for the
tags of elements and the data of attributes, which `f` changes. The outline after a token depends on
nothing but its kind and what is written there, so that a token keeps this (`Mirrors.step`) as long
as what it says about the changed parts fits.
-/

namespace XmlAssist

open Node
open Text (size)

def Element.outline (e : Element) : Element :=
  { e with
    tagSpan := e.tagSpan.map fun _ => {}
    startOpen := e.startOpen.map fun _ => 0
    startClose := e.startClose.map fun _ => 0
    endOpen := e.endOpen.map fun _ => 0
    endTagSpan := e.endTagSpan.map fun _ => {}
    endClose := e.endClose.map fun _ => 0 }

def Attribute.outline (a : Attribute) : Attribute :=
  { a with nameSpan := {}, valueSpan := a.valueSpan.map fun _ => {} }

/-- A declaration of the same kind without parameters. -/
def Declaration.Body.outline : Declaration.Body → Declaration.Body
  | .element _ => .element {}
  | .attlist _ => .attlist {}
  | .entity _ => .entity {}
  | .notationDecl _ => .notationDecl {}

namespace Node

/-- What a node is wherever it stands; of declarations only their kind. -/
def Kind.outline : Kind → Kind
  | .element e => .element e.outline
  | .attribute a => .attribute a.outline
  | .comment c => .comment { c with content := c.content.map fun _ => {} }
  | .cdata c => .cdata { c with content := c.content.map fun _ => {} }
  | .instruction i =>
    .instruction { i with targetSpan := i.targetSpan.map fun _ => {}, content := i.content.map fun _ => {} }
  | .doctype d => .doctype { closed := d.closed, synthetic := d.synthetic }
  | .declaration d => .declaration { body := d.body.outline, closed := d.closed }
  | k => k

/-- The node wherever it stands. -/
def outline (n : Node) : Node := { n with span := {}, kind := n.kind.outline }

end Node

/-- Other tags for some elements, and other data for some attributes, by their numbers. -/
structure Retouch where
  onTag : Nat → Option String → Option String := fun _ t => t
  onAttribute : Nat → Attribute → Attribute := fun _ a => a

namespace Retouch

/-- A node of that kind and number after the change. -/
def kind (f : Retouch) (id : Nat) : Kind → Kind
  | .element e => .element { e with tag := f.onTag id e.tag }
  | .attribute a => .attribute (f.onAttribute id a)
  | k => k

/-- A node with that number after the change. -/
def node (f : Retouch) (id : Nat) (n : Node) : Node := { n with kind := f.kind id n.kind }

end Retouch

/-- Where `k` is what it is, `k'` is the same after the change. -/
def Node.Kind.Mirrors (f : Retouch) (id : Nat) (k k' : Kind) : Prop := k'.outline = f.kind id k.outline

namespace Node.Kind.Mirrors

variable {f : Retouch} {id : Nat} {k k' : Kind}

attribute [local simp] Mirrors Kind.outline Retouch.kind Element.outline

theorem ofElement {e : Element} (h : (Kind.element e).Mirrors f id k') :
    ∃ e', k' = .element e' ∧ e'.outline = { e.outline with tag := f.onTag id e.tag } := by
  cases k' <;> simp_all

theorem ofAttribute {a : Attribute} (h : (Kind.attribute a).Mirrors f id k') :
    ∃ a', k' = .attribute a' ∧ a'.outline = f.onAttribute id a.outline := by
  cases k' <;> simp_all

theorem ne_element (h : k.Mirrors f id k') (hk : ∀ e, k ≠ .element e) : ∀ e, k' ≠ .element e := by
  rintro e rfl
  cases k <;> simp_all

theorem ne_attribute (h : k.Mirrors f id k') (hk : ∀ a, k ≠ .attribute a) : ∀ a, k' ≠ .attribute a := by
  rintro a rfl
  cases k <;> simp_all

theorem ne_comment (h : k.Mirrors f id k') (hk : ∀ c, k ≠ .comment c) : ∀ c, k' ≠ .comment c := by
  rintro c rfl
  cases k <;> simp_all

theorem ne_cdata (h : k.Mirrors f id k') (hk : ∀ c, k ≠ .cdata c) : ∀ c, k' ≠ .cdata c := by
  rintro c rfl
  cases k <;> simp_all

theorem ne_instruction (h : k.Mirrors f id k') (hk : ∀ p, k ≠ .instruction p) :
    ∀ p, k' ≠ .instruction p := by
  rintro p rfl
  cases k <;> simp_all

theorem ne_doctype (h : k.Mirrors f id k') (hk : ∀ d, k ≠ .doctype d) : ∀ d, k' ≠ .doctype d := by
  rintro d rfl
  cases k <;> simp_all

theorem ne_declaration (h : k.Mirrors f id k') (hk : ∀ d, k ≠ .declaration d) :
    ∀ d, k' ≠ .declaration d := by
  rintro d rfl
  cases k <;> simp_all

theorem comment {c : Enclosed} (h : (Kind.comment c).Mirrors f id k') :
    ∃ c', k' = .comment c' ∧ c'.closed = c.closed := by
  cases k' <;> simp_all

theorem cdata {c : Enclosed} (h : (Kind.cdata c).Mirrors f id k') :
    ∃ c', k' = .cdata c' ∧ c'.closed = c.closed := by
  cases k' <;> simp_all

theorem instruction {i : Instruction} (h : (Kind.instruction i).Mirrors f id k') :
    ∃ i', k' = .instruction i' ∧ (Kind.instruction i').outline = (Kind.instruction i).outline := by
  cases k' <;> simp_all

theorem doctype {d : Doctype} (h : (Kind.doctype d).Mirrors f id k') :
    ∃ d', k' = .doctype d' ∧ d'.closed = d.closed ∧ d'.synthetic = d.synthetic := by
  cases k' <;> simp_all

theorem declaration {d : Declaration} (h : (Kind.declaration d).Mirrors f id k') :
    ∃ d', k' = .declaration d' ∧ d'.body.outline = d.body.outline ∧ d'.closed = d.closed := by
  cases k' <;> simp_all

end Node.Kind.Mirrors

namespace Builder

variable {f : Retouch} {b b' : Builder} {id stop stop' : Nat} {k k' : Kind} {span span' : Span}

theorem leaveClosedElement_of_ne (h : ∀ e, b.kindOf b.current ≠ .element e) :
    b.leaveClosedElement = b := by
  unfold Builder.leaveClosedElement
  split
  · rename_i e he
    exact absurd he (h e)
  · rfl

/-- The builders hold the same outline, but for what `f` changes. The attribute that waits for its
value is left out. -/
structure Mirrors (f : Retouch) (b b' : Builder) : Prop where
  node : ∀ id, b'.nodes[id]?.map Node.outline = b.nodes[id]?.map fun n => f.node id n.outline
  current : b'.current = b.current
  doctype : b'.doctype = b.doctype
  declaration : b'.declaration = b.declaration
  pending : b'.endTagOpen.isSome = b.endTagOpen.isSome

namespace Mirrors

variable (h : Mirrors f b b')
include h

theorem size : b'.nodes.size = b.nodes.size := by
  have hle (i : Nat) : b'.nodes.size ≤ i ↔ b.nodes.size ≤ i := by
    rw [← Array.getElem?_eq_none_iff, ← Array.getElem?_eq_none_iff, ← Option.map_eq_none_iff, h.node i,
      Option.map_eq_none_iff]
  have h₁ := hle b.nodes.size
  have h₂ := hle b'.nodes.size
  omega

theorem exists_node {n : Node} (hn : b.nodes[id]? = some n) :
    ∃ n', b'.nodes[id]? = some n' ∧ n'.outline = f.node id n.outline := by
  have hnode := h.node id
  rw [hn] at hnode
  exact Option.map_eq_some_iff.mp hnode

theorem kindOf (id : Nat) : (b.kindOf id).Mirrors f id (b'.kindOf id) := by
  cases hn : b.nodes[id]? with
  | none =>
    have hn' : b'.nodes[id]? = none := by
      have hnode := h.node id
      rwa [hn, Option.map_none, Option.map_eq_none_iff] at hnode
    rw [Builder.kindOf, Builder.kindOf, hn, hn']
    rfl
  | some n =>
    obtain ⟨n', hn', hsame⟩ := h.exists_node hn
    rw [kindOf_eq hn, kindOf_eq hn']
    exact congrArg Node.kind hsame

theorem kindOf_of_eq (hk : b.kindOf id = k) : k.Mirrors f id (b'.kindOf id) := hk ▸ h.kindOf id

theorem parentAt (id : Nat) : parentAt b'.nodes id = parentAt b.nodes id := by
  have hnode := congrArg (fun o => o.bind Node.parent) (h.node id)
  simpa [Node.parentAt, Option.bind_map, Function.comp_def, Node.outline, Retouch.node] using hnode

theorem chain (id : Nat) : chain b'.nodes id = chain b.nodes id := chain_congr fun _ _ => h.parentAt _

theorem parentOf (id : Nat) : b'.parentOf id = b.parentOf id := congrArg (·.getD 0) (h.parentAt id)

/-! ## The operations of the builder -/

theorem modify {g g' : Node → Node} (id : Nat)
    (hg : ∀ n n', n'.outline = f.node id n.outline → (g' n').outline = f.node id (g n).outline) :
    Mirrors f (b.modify id g) (b'.modify id g') := by
  refine ⟨fun i => ?_, h.current, h.doctype, h.declaration, h.pending⟩
  have hnode := h.node i
  simp only [Builder.modify, Array.getElem?_modify]
  by_cases hi : id = i
  · subst hi
    cases hn : b.nodes[id]? with
    | none =>
      rw [hn, Option.map_none, Option.map_eq_none_iff] at hnode
      simp [hnode]
    | some n =>
      obtain ⟨n', hn', hsame⟩ := h.exists_node hn
      simp [hn', hg n n' hsame]
  · simpa [hi] using hnode

theorem update (hk : k.Mirrors f id k') : Mirrors f (b.update id k stop) (b'.update id k' stop') := by
  refine h.modify id fun n n' hn => ?_
  have hparent := congrArg Node.parent hn
  have hchildren := congrArg Node.children hn
  simp only [Node.outline, Retouch.node] at hparent hchildren ⊢
  rw [hparent, hchildren, hk]

theorem extend (id : Nat) : Mirrors f (b.extend id stop) (b'.extend id stop') :=
  h.modify id fun _ _ hn => hn

theorem push (span span' : Span) (hk : k.Mirrors f b.nodes.size k') :
    Mirrors f { b with nodes := b.nodes.push { span, parent := some b.current, kind := k } }
      { b' with nodes := b'.nodes.push { span := span', parent := some b'.current, kind := k' } } := by
  refine ⟨fun i => ?_, h.current, h.doctype, h.declaration, h.pending⟩
  simp only [Array.getElem?_push, h.size]
  split
  · rename_i hi
    simp only [Option.map_some, Node.outline, Retouch.node, h.current, hi]
    rw [hk]
  · exact h.node i

theorem append (hk : k.Mirrors f b.nodes.size k') : Mirrors f (b.append k span) (b'.append k' span') := by
  have hparent : Mirrors f (b.modify b.current fun n => { n with children := n.children.push b.nodes.size })
      (b'.modify b'.current fun n => { n with children := n.children.push b'.nodes.size }) := by
    rw [h.size, h.current]
    refine h.modify _ fun n n' hn => ?_
    have hlinks := congrArg Node.parent hn
    have hchildren := congrArg Node.children hn
    have hkind := congrArg Node.kind hn
    simp only [Node.outline, Retouch.node] at hlinks hchildren hkind ⊢
    rw [hlinks, hchildren, hkind]
  refine hparent.push span span' ?_
  rwa [show (b.modify _ _).nodes.size = b.nodes.size from Array.size_modify]

theorem withCurrent (id : Nat) : Mirrors f { b with current := id } { b' with current := id } :=
  ⟨h.node, rfl, h.doctype, h.declaration, h.pending⟩

theorem openNode (hk : k.Mirrors f b.nodes.size k') :
    Mirrors f (b.openNode k span) (b'.openNode k' span') := by
  have happend : Mirrors f (b.append k span) (b'.append k' span') := h.append hk
  have hopen := happend.withCurrent ((b.append k span).nodes.size - 1)
  rw [Builder.openNode, Builder.openNode, happend.size]
  exact hopen

theorem leave : Mirrors f b.leave b'.leave := by
  rw [Builder.leave, Builder.leave, h.current, h.parentOf]
  exact h.withCurrent _

theorem forget : Mirrors f { b with openAttribute := none } { b' with openAttribute := none } :=
  ⟨h.node, h.current, h.doctype, h.declaration, h.pending⟩

theorem leaveClosedElement : Mirrors f b.leaveClosedElement b'.leaveClosedElement := by
  by_cases hk : ∃ e, b.kindOf b.current = .element e
  · obtain ⟨e, hk⟩ := hk
    obtain ⟨e', hk', he⟩ := (h.kindOf_of_eq hk).ofElement
    have hclosed : e'.closed = e.closed := (Element.mk.inj he).2.2.2.2.2.2.2.2.1
    simp only [Builder.leaveClosedElement, hk, h.current, hk', hclosed]
    split
    · exact h.leave
    · exact h
  · have hk : ∀ e, b.kindOf b.current ≠ .element e := fun e he => hk ⟨e, he⟩
    have hk' := (h.kindOf b.current).ne_element hk
    rw [leaveClosedElement_of_ne hk, leaveClosedElement_of_ne (h.current ▸ hk')]
    exact h

theorem leaveDeclaration : Mirrors f b.leaveDeclaration b'.leaveDeclaration := by
  unfold Builder.leaveDeclaration
  rw [h.declaration]
  split
  · exact ⟨h.node, h.parentOf _, h.doctype, rfl, h.pending⟩
  · exact h

theorem leaveDoctype : Mirrors f (b.leaveDoctype stop) (b'.leaveDoctype stop') := by
  have hleft := h.leaveDeclaration
  unfold Builder.leaveDoctype
  dsimp only
  rw [hleft.doctype]
  split
  · rename_i id _
    have hextend : Mirrors f (b.leaveDeclaration.extend id stop) (b'.leaveDeclaration.extend id stop') :=
      hleft.extend id
    exact ⟨hextend.node, hleft.parentOf _, rfl, hextend.declaration, hextend.pending⟩
  · exact hleft

theorem flushEndTag {close close' : Option Nat} (hclose : close'.isSome = close.isSome)
    (hf : f.onTag b.nodes.size none = none) :
    Mirrors f (b.flushEndTag stop close) (b'.flushEndTag stop' close') := by
  have hpending := h.pending
  unfold Builder.flushEndTag
  cases ho : b.endTagOpen with
  | none =>
    rw [ho, Option.isSome_none, Option.isSome_eq_false_iff, Option.isNone_iff_eq_none] at hpending
    rwa [hpending]
  | some start =>
    rw [ho, Option.isSome_some, Option.isSome_iff_exists] at hpending
    obtain ⟨start', ho'⟩ := hpending
    rw [ho']
    have hforget : Mirrors f { b with endTagOpen := none } { b' with endTagOpen := none } :=
      ⟨h.node, h.current, h.doctype, h.declaration, rfl⟩
    refine hforget.append ?_
    have hsame : close'.map (fun _ => 0) = close.map fun _ => 0 := by
      cases close <;> cases close' <;> simp_all
    simp only [Kind.Mirrors, Kind.outline, Element.outline, Retouch.kind, Option.map_some, Option.map_none,
      hclose, hsame, hf]

theorem beforeMarkup {start start' : Nat} {inDtd : Bool} (hf : f.onTag b.nodes.size none = none) :
    Mirrors f (b.beforeMarkup start inDtd) (b'.beforeMarkup start' inDtd) := by
  have hflush : Mirrors f ({ b with openAttribute := none }.flushEndTag start none).leaveDeclaration
      ({ b' with openAttribute := none }.flushEndTag start' none).leaveDeclaration :=
    (h.forget.flushEndTag rfl hf).leaveDeclaration
  unfold Builder.beforeMarkup
  dsimp only
  rw [hflush.doctype]
  split
  · exact hflush.leaveDoctype.leaveClosedElement
  · exact hflush.leaveClosedElement

end Mirrors

end Builder

end XmlAssist
