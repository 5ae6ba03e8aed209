import XmlAssist.Proofs.Tree.Nesting

/-!
# What the builder does to the nodes

The states a builder can be in between two tokens, and what its operations make of them. In most of
them nothing but nodes is open (`Steady`). Three more are in the middle of something: a `</` has
been read whose name is not known (`Pending`), the current element has got an end tag without its
`>` (`Closing`), or a declaration is being read (`Declaring`).
-/

namespace XmlAssist

open Node
open Text (size)

def Node.Kind.isClosedElement : Kind → Bool
  | .element e => e.closed
  | _ => false

/-- No end has been seen of the node or of those around it. -/
def Unclosed (nodes : Array Node) (id : Nat) : Prop :=
  ∀ c ∈ chain nodes id, ∀ n, nodes[c]? = some n → n.kind.isClosedElement = false

def Node.Kind.isOuter : Kind → Bool
  | .document | .doctype _ => true
  | _ => false

/-- A node of this kind can be a new child. -/
def Node.Kind.Bare : Kind → Prop
  | .document | .attribute _ => False
  | .element e => e.attributes = #[]
  | .instruction i => i.attributes = #[]
  | _ => True

variable {s : String} {top edge stop id c : Nat} {nodes : Array Node} {f : Node → Node}

theorem Unclosed.of_mem_chain (h : Unclosed nodes id) (hc : c ∈ chain nodes id) :
    Unclosed nodes c := fun d hd => h d (mem_chain_trans hc hd)

theorem Unclosed.modify {current : Nat} (h : Unclosed nodes current)
    (hlinks : Relinks nodes (nodes.modify id f))
    (hf : ∀ n, nodes[id]? = some n → id ∈ chain nodes current →
      (f n).kind.isClosedElement = n.kind.isClosedElement) :
    Unclosed (nodes.modify id f) current := by
  intro d hd m hm
  rw [hlinks.chain] at hd
  obtain ⟨n, hn, ⟨rfl, rfl⟩ | ⟨-, rfl⟩⟩ := getElem?_modify_eq_some hm
  · rw [hf n hn hd]
    exact h _ hd n hn
  · exact h d hd m hn

theorem Unclosed.add {current : Nat} {m n : Node} (h : Unclosed nodes current)
    (ha : Adds nodes current m (f m) n)
    (hf : (f m).kind.isClosedElement = m.kind.isClosedElement) :
    Unclosed (grow nodes current f n) current := by
  intro d hd k hk
  rw [ha.chain_of_ne (Nat.ne_of_lt ha.lt_size)] at hd
  have hlt := lt_size_of_mem_chain ha.lt_size hd
  rcases ha.get hk with ⟨rfl, -⟩ | ⟨rfl, -, rfl⟩ | ⟨-, -, hk⟩
  · exact absurd hlt (Nat.lt_irrefl _)
  · rw [hf]
    exact h _ hd m ha.owner
  · exact h d hd k hk

theorem Unclosed.add_new {current : Nat} {m n : Node} (h : Unclosed (grow nodes current f n) current)
    (ha : Adds nodes current m (f m) n) (hn : n.kind.isClosedElement = false) :
    Unclosed (grow nodes current f n) nodes.size := by
  intro d hd k hk
  rw [ha.chain_size, List.mem_cons] at hd
  rcases hd with rfl | hd
  · rcases ha.get hk with ⟨-, rfl⟩ | ⟨-, hlt, -⟩ | ⟨-, hlt, -⟩
    · exact hn
    · exact absurd hlt (Nat.lt_irrefl _)
    · exact absurd hlt (Nat.lt_irrefl _)
  · rw [← ha.chain_of_ne (Nat.ne_of_lt ha.lt_size)] at hd
    exact h d hd k hk

namespace Builder

variable {b : Builder}

theorem kindOf_eq {n : Node} (h : b.nodes[id]? = some n) : b.kindOf id = n.kind := by
  simp [kindOf, h]

theorem parentOf_eq {p : Nat} (h : parentAt b.nodes id = some p) : b.parentOf id = p := by
  show (parentAt b.nodes id).getD 0 = p
  rw [h]
  rfl

/-- The nodes are nested up to `edge`, and no open one is an element whose end has been seen. -/
structure Steady (s : String) (top edge : Nat) (b : Builder) : Prop where
  nested : Nested s top b.nodes b.current edge
  unclosed : Unclosed b.nodes b.current
  endTagOpen : b.endTagOpen = none
  declaration : b.declaration = none

theorem Steady.mono {edge' : Nat} (h : b.Steady s top edge) (hle : edge ≤ edge')
    (hsize : edge' ≤ size s) : b.Steady s top edge' :=
  { h with nested := h.nested.mono hle hsize }

/-! ## Changes of one node -/

theorem Steady.modify (h : b.Steady s top edge) (hid : MayGrow b.nodes b.current id)
    (hf : ∀ n, b.nodes[id]? = some n → Grows stop n (f n))
    (hc : ∀ n, b.nodes[id]? = some n → (f n).kind.isClosedElement = n.kind.isClosedElement)
    (hle : edge ≤ stop) (hsize : stop ≤ size s) : (b.modify id f).Steady s top stop where
  nested := h.nested.touch hid hf hle hsize
  unclosed := h.unclosed.modify (relinks_modify fun n hn => (hf n hn).links) fun n hn _ => hc n hn
  endTagOpen := h.endTagOpen
  declaration := h.declaration

theorem grows_update {k : Kind} (hk : (b.kindOf id).Alike k) (n : Node) (hn : b.nodes[id]? = some n) :
    Grows stop n { n with kind := k, span := n.span.extendTo stop } := by
  rw [kindOf_eq hn] at hk
  exact hk.grows (Nat.le_refl _)

theorem Steady.update {k : Kind} (h : b.Steady s top edge) (hid : MayGrow b.nodes b.current id)
    (hk : (b.kindOf id).Alike k) (hc : k.isClosedElement = (b.kindOf id).isClosedElement)
    (hle : edge ≤ stop) (hsize : stop ≤ size s) : (b.update id k stop).Steady s top stop := by
  refine h.modify hid (grows_update hk) (fun n hn => ?_) hle hsize
  rw [kindOf_eq hn] at hc
  exact hc

theorem Steady.extend (h : b.Steady s top edge) (hid : MayGrow b.nodes b.current id)
    (hle : edge ≤ stop) (hsize : stop ≤ size s) : (b.extend id stop).Steady s top stop :=
  h.modify hid (fun n _ => grows_extend n (Nat.le_refl _)) (fun _ _ => rfl) hle hsize

theorem relinks_update {k : Kind} (hk : (b.kindOf id).Alike k) (stop : Nat) :
    Relinks b.nodes (b.update id k stop).nodes :=
  relinks_modify fun n hn => by
    rw [kindOf_eq hn] at hk
    exact hk.sameLinks _

theorem relinks_extend (b : Builder) (id stop : Nat) : Relinks b.nodes (b.extend id stop).nodes :=
  relinks_modify fun n _ => (Kind.Alike.refl n.kind).sameLinks _

theorem sealed_modify {current : Nat} (h : Nested s top (nodes.modify id f) current stop)
    (hid : id < nodes.size) (htop : top ≤ id) (hf : ∀ n, stop ≤ (f n).span.stop) :
    Sealed (nodes.modify id f) id := by
  obtain ⟨m, hm⟩ : ∃ m, (nodes.modify id f)[id]? = some m :=
    ⟨_, Array.getElem?_eq_getElem (by simpa using hid)⟩
  obtain ⟨n, -, ⟨-, rfl⟩ | ⟨hne, -⟩⟩ := getElem?_modify_eq_some hm
  · exact h.sealed_of_edge_le hm htop (hf n)
  · exact absurd rfl hne

theorem top_lt_of_kind {current : Nat} {n : Node} (h : Nested s top nodes current edge)
    (hn : nodes[id]? = some n) (hk : n.kind.isOuter = false) : top < id := by
  refine h.top_lt hn (fun hd => ?_) ?_
  · rw [hd] at hk
    cases hk
  · cases hkind : n.kind <;> simp_all [isDoctype, doctype?, Kind.isOuter]

theorem top_lt_of_element {current : Nat} {e : Element} (h : Nested s top b.nodes current edge)
    (hkind : b.kindOf id = .element e) : top < id := by
  cases hn : b.nodes[id]? with
  | none => simp [kindOf, hn] at hkind
  | some n =>
    rw [kindOf_eq hn] at hkind
    exact top_lt_of_kind h hn (by rw [hkind]; rfl)

theorem leave_spec (h : Nested s top b.nodes b.current edge) (htop : top < b.current)
    (hs : Sealed b.nodes b.current) :
    parentAt b.nodes b.current = some b.leave.current ∧
      Nested s top b.nodes b.leave.current edge := by
  obtain ⟨p, hp, -, hnested⟩ := h.leave htop hs
  rw [show b.leave.current = p from parentOf_eq hp]
  exact ⟨hp, hnested⟩

/-- The current node reaches up to where the text has been read, and only it may have got its end. -/
structure Ended (s : String) (top edge : Nat) (b : Builder) : Prop where
  nested : Nested s top b.nodes b.current edge
  around : ∀ p, parentAt b.nodes b.current = some p → Unclosed b.nodes p
  isSealed : Sealed b.nodes b.current

theorem ended_modify (h : Nested s top b.nodes b.current edge)
    (ha : ∀ p, parentAt b.nodes b.current = some p → Unclosed b.nodes p)
    (hf : ∀ n, b.nodes[b.current]? = some n → Grows stop n (f n)) (hstop : ∀ n, stop ≤ (f n).span.stop)
    (hle : edge ≤ stop) (hsize : stop ≤ size s) : (b.modify b.current f).Ended s top stop := by
  have hlinks := relinks_modify fun n hn => (hf n hn).links
  have hnested : Nested s top (b.nodes.modify b.current f) b.current stop :=
    h.touch mayGrow_current hf hle hsize
  obtain ⟨n, hn, -⟩ := h.current_node
  refine ⟨hnested, fun p hp => ?_, ?_⟩
  · have hp' := (hlinks.parentAt _).symm.trans hp
    refine (ha p hp').modify hlinks fun n _ hmem => ?_
    exact absurd (le_of_mem_chain hmem) (Nat.not_le_of_lt (h.arena.parentAt_lt hp'))
  · exact sealed_modify hnested (lt_size_of_getElem? hn) h.top_le hstop

theorem Steady.around (h : b.Steady s top edge) {p : Nat} (hp : parentAt b.nodes b.current = some p) :
    Unclosed b.nodes p :=
  h.unclosed.of_mem_chain (parentAt_mem_chain hp (h.nested.arena.parentAt_lt hp))

theorem Ended.leave (h : b.Ended s top edge) (htop : top < b.current) (hpending : b.endTagOpen = none)
    (hdecl : b.declaration = none) :
    b.leave.Steady s top edge ∧ parentAt b.nodes b.current = some b.leave.current := by
  obtain ⟨hp, hleft⟩ := leave_spec h.nested htop h.isSealed
  exact ⟨⟨hleft, h.around _ hp, hpending, hdecl⟩, hp⟩

theorem Steady.close (h : b.Steady s top edge) (htop : top < b.current)
    (hf : ∀ n, b.nodes[b.current]? = some n → Grows stop n (f n)) (hstop : ∀ n, stop ≤ (f n).span.stop)
    (hle : edge ≤ stop) (hsize : stop ≤ size s) :
    (b.modify b.current f).leave.Steady s top stop ∧
      parentAt b.nodes b.current = some (b.modify b.current f).leave.current := by
  obtain ⟨hsteady, hp⟩ := (ended_modify h.nested (fun _ => h.around) hf hstop hle hsize).leave htop
    h.endTagOpen h.declaration
  have hlinks := relinks_modify fun n hn => (hf n hn).links
  exact ⟨hsteady, (hlinks.parentAt _).symm.trans hp⟩

/-! ## A node more -/

def withChild (id : Nat) (n : Node) : Node := { n with children := n.children.push id }

theorem adds_child {kind : Kind} {span : Span} {m : Node} (ha : Arena nodes)
    (hr : Rightmost nodes id) (hm : nodes[id]? = some m) (hk : kind.Bare) :
    Adds nodes id m (withChild nodes.size m) { span, parent := some id, kind } := by
  have howns : m.attributeIds ≠ #[] → m.ownsAttributes = true := ha.owner hm
  refine ⟨hm, hr, rfl, rfl, ?_, ?_, rfl, rfl, .rfl, rfl, ?_, ?_, howns⟩
  all_goals cases kind <;> simp_all [Kind.Bare, attributeIds, isAttribute, attribute?, withChild]

theorem append_nodes (b : Builder) (kind : Kind) (span : Span) :
    (b.append kind span).nodes =
      grow b.nodes b.current (withChild b.nodes.size) { span, parent := some b.current, kind } := rfl

theorem isAttribute_eq_false {n : Node} (h : n.kind.Bare) : n.isAttribute = false := by
  cases hk : n.kind <;> simp_all [Kind.Bare, isAttribute, attribute?]

theorem openNode_current (b : Builder) (kind : Kind) (span : Span) :
    (b.openNode kind span).current = b.nodes.size := by
  show (b.append kind span).nodes.size - 1 = _
  rw [append_nodes, size_grow]
  omega

theorem openNode_doctype (b : Builder) (kind : Kind) (span : Span) :
    (b.openNode kind span).doctype = b.doctype := rfl

theorem openNode_openAttribute (b : Builder) (kind : Kind) (span : Span) :
    (b.openNode kind span).openAttribute = b.openAttribute := rfl

theorem append_doctype (b : Builder) (kind : Kind) (span : Span) :
    (b.append kind span).doctype = b.doctype := rfl

theorem getElem?_openNode (b : Builder) (kind : Kind) (span : Span) :
    (b.openNode kind span).nodes[(b.openNode kind span).current]? =
      some { span, parent := some b.current, kind } := by
  rw [openNode_current]
  exact (getElem?_grow ..).trans (if_pos rfl)

theorem kindOf_openNode (b : Builder) (kind : Kind) (span : Span) :
    (b.openNode kind span).kindOf (b.openNode kind span).current = kind :=
  kindOf_eq (getElem?_openNode b kind span)

theorem parentAt_openNode (b : Builder) (kind : Kind) (span : Span) :
    parentAt (b.openNode kind span).nodes (b.openNode kind span).current = some b.current :=
  parentAt_eq_some.mpr ⟨_, getElem?_openNode b kind span, rfl⟩

section add
variable {k : Kind} {start : Nat}

theorem nested_append (h : Nested s top b.nodes b.current edge) (hk : k.Bare)
    (hfresh : Fresh b.nodes b.current start) (hlt : start < stop) (hle : edge ≤ stop)
    (hsize : stop ≤ size s) (hc : c = b.current ∨ c = b.nodes.size) :
    Nested s top (b.append k ⟨start, stop⟩).nodes c stop := by
  obtain ⟨m, hm, -⟩ := h.current_node
  exact h.add (adds_child h.arena h.rightmost hm hk) (.refl ..) hfresh hlt (Nat.le_refl _) hle hsize
    (hc.imp_right fun hc => ⟨hc, isAttribute_eq_false hk⟩)

theorem unclosed_append {span : Span} (h : Nested s top b.nodes b.current edge)
    (hu : Unclosed b.nodes b.current) (hk : k.Bare) :
    Unclosed (b.append k span).nodes b.current := by
  obtain ⟨m, hm, -⟩ := h.current_node
  exact hu.add (adds_child h.arena h.rightmost hm hk) rfl

theorem Steady.append (h : b.Steady s top edge) (hk : k.Bare) (hlt : edge < stop)
    (hsize : stop ≤ size s) : (b.append k ⟨edge, stop⟩).Steady s top stop where
  nested := nested_append h.nested hk (h.nested.fresh (Nat.le_refl _)) hlt (Nat.le_of_lt hlt) hsize
    (.inl rfl)
  unclosed := unclosed_append h.nested h.unclosed hk
  endTagOpen := h.endTagOpen
  declaration := h.declaration

theorem Steady.openNode (h : b.Steady s top edge) (hk : k.Bare)
    (hclosed : k.isClosedElement = false) (hlt : edge < stop) (hsize : stop ≤ size s) :
    (b.openNode k ⟨edge, stop⟩).Steady s top stop where
  nested := nested_append h.nested hk (h.nested.fresh (Nat.le_refl _)) hlt (Nat.le_of_lt hlt) hsize
    (.inr (openNode_current ..))
  unclosed := by
    obtain ⟨m, hm, -⟩ := h.nested.current_node
    rw [openNode_current]
    exact (unclosed_append h.nested h.unclosed hk).add_new
      (adds_child h.nested.arena h.nested.rightmost hm hk) hclosed
  endTagOpen := h.endTagOpen
  declaration := h.declaration

end add

/-! ## Attributes -/

/-- The open attribute, if there is one, belongs to the current node. -/
def OwnsAttribute (b : Builder) : Prop := ∀ a, b.openAttribute = some a → Attr b.nodes b.current a

theorem OwnsAttribute.of_none (h : b.openAttribute = none) : b.OwnsAttribute := by
  intro a ha
  rw [h] at ha
  cases ha

theorem OwnsAttribute.mayGrow {a : Nat} (h : b.OwnsAttribute) (ha : b.openAttribute = some a) :
    MayGrow b.nodes b.current a := .inr ⟨b.current, mem_chain_self .., h a ha⟩

theorem OwnsAttribute.of_relinks {b' : Builder} (h : b.OwnsAttribute)
    (hlinks : Relinks b.nodes b'.nodes) (hopen : b'.openAttribute = b.openAttribute)
    (hcurrent : b'.current = b.current) : b'.OwnsAttribute := by
  intro a ha
  rw [hcurrent, hlinks.attr]
  exact h a (hopen ▸ ha)

/-- The node with another kind, reaching at least `stop`. -/
def withKind (kind : Kind) (stop : Nat) (n : Node) : Node :=
  { n with kind, span := n.span.extendTo stop }

theorem adds_attribute {kind : Kind} {m : Node} {span : Span} {a : Attribute}
    (hr : Rightmost nodes id) (hm : nodes[id]? = some m)
    (hk : withAttribute nodes.size m.kind = some kind) :
    Adds nodes id m (withKind kind stop m) { span, parent := some id, kind := .attribute a } := by
  obtain ⟨_, _, _, k⟩ := m
  cases k with
  | element e =>
    obtain rfl := Option.some.inj hk
    exact ⟨hm, hr, rfl, rfl, rfl, nofun, rfl, rfl, by simp [withKind], rfl, rfl, rfl, fun _ => rfl⟩
  | instruction i =>
    simp only [withAttribute] at hk
    split at hk
    · rename_i hprolog
      obtain rfl := Option.some.inj hk
      exact ⟨hm, hr, rfl, rfl, rfl, nofun, rfl, rfl, by simp [withKind], rfl, rfl, rfl, fun _ => hprolog⟩
    · cases hk
  | _ => cases hk

theorem isClosedElement_withAttribute {k kind : Kind} (h : withAttribute id k = some kind) :
    kind.isClosedElement = k.isClosedElement := by
  cases k with
  | element e =>
    obtain rfl := Option.some.inj h
    rfl
  | instruction i =>
    simp only [withAttribute] at h
    split at h
    · obtain rfl := Option.some.inj h
      rfl
    · cases h
  | _ => cases h

theorem Steady.attributeName {t : Token} (h : b.Steady s top t.start) (ha : b.OwnsAttribute)
    (hlt : t.start < t.stop) (hsize : t.stop ≤ size s) :
    (attributeName s b t).Steady s top t.stop ∧ (attributeName s b t).OwnsAttribute := by
  unfold Builder.attributeName
  dsimp only
  split
  · rename_i kind hkind
    obtain ⟨m, hm, -⟩ := h.nested.current_node
    rw [kindOf_eq hm] at hkind
    have hadds : Adds b.nodes b.current m (withKind kind t.stop m)
        { span := t.span, parent := some b.current,
          kind := .attribute { name := Text.slice s t.start t.stop, nameSpan := t.span } } :=
      adds_attribute h.nested.rightmost hm hkind
    refine ⟨⟨?_, ?_, h.endTagOpen, h.declaration⟩, ?_⟩
    · exact h.nested.add hadds (stretches_extendTo _ (Nat.le_refl _))
        (h.nested.fresh (Nat.le_refl _)) hlt (Nat.le_refl _) (Nat.le_of_lt hlt) hsize (.inl rfl)
    · exact h.unclosed.add hadds (isClosedElement_withAttribute hkind)
    · intro a ha
      obtain rfl := Option.some.inj ha
      exact hadds.attr.mpr (.inr ⟨rfl, rfl, rfl⟩)
  · exact ⟨h.mono (Nat.le_of_lt hlt) hsize, ha⟩

theorem Steady.assign {t : Token} (h : b.Steady s top t.start) (ha : b.OwnsAttribute)
    (hle : t.start ≤ t.stop) (hsize : t.stop ≤ size s) :
    (assign b t).Steady s top t.stop ∧ (assign b t).OwnsAttribute := by
  have hmark : ∀ b' : Builder, b'.Steady s top t.start ∧ b'.OwnsAttribute →
      (b'.extend b'.current t.stop).Steady s top t.stop ∧
        (b'.extend b'.current t.stop).OwnsAttribute := fun b' hb' =>
    ⟨hb'.1.extend mayGrow_current hle hsize, hb'.2.of_relinks (relinks_extend _ _ _) rfl rfl⟩
  unfold Builder.assign
  apply hmark
  split
  · rename_i id hid
    split
    · rename_i a hkind
      have hgrows : ∀ n, b.nodes[id]? = some n →
          Grows t.start n { n with kind := .attribute { a with hasDelimiter := true } } := by
        intro n hn
        rw [kindOf_eq hn] at hkind
        refine ⟨Kind.Alike.sameLinks ?_ n.span, .refl ..⟩
        rw [hkind]
        trivial
      refine ⟨h.modify (ha.mayGrow hid) hgrows (fun n hn => ?_) (Nat.le_refl _) h.nested.edge_le, ?_⟩
      · rw [kindOf_eq hn] at hkind
        rw [hkind]
        rfl
      · exact ha.of_relinks (relinks_modify fun n hn => (hgrows n hn).links) rfl rfl
    · exact ⟨h, ha⟩
  · exact ⟨h, ha⟩

theorem Steady.attributeValue {t : Token} (h : b.Steady s top t.start) (ha : b.OwnsAttribute)
    (hle : t.start ≤ t.stop) (hsize : t.stop ≤ size s) :
    (attributeValue s b t).Steady s top t.stop ∧ (attributeValue s b t).OwnsAttribute := by
  unfold Builder.attributeValue
  dsimp only
  split
  · rename_i id hid
    have hgrow := ha.mayGrow hid
    have h' : { b with openAttribute := none }.Steady s top t.start := ⟨h.1, h.2, h.3, h.4⟩
    refine ⟨Steady.extend ?_ mayGrow_current (Nat.le_refl _) hsize, ?_⟩
    · split
      · rename_i a hkind
        refine h'.update hgrow ?_ ?_ hle hsize
        all_goals rw [hkind]
        · trivial
        · rfl
      · exact h'.extend hgrow hle hsize
    · intro a ha
      split at ha <;> cases ha
  · exact ⟨h.extend mayGrow_current hle hsize, ha.of_relinks (relinks_extend _ _ _) rfl rfl⟩

/-! ## Many nodes grow -/

/-- The nodes with those numbers, reaching at least `stop`. -/
def reach (nodes : Array Node) (ids : List Nat) (stop : Nat) : Array Node :=
  ids.foldl (fun nodes id => nodes.modify id fun n => { n with span := n.span.extendTo stop }) nodes

theorem foldl_extend (b : Builder) (ids : List Nat) (stop : Nat) :
    ids.foldl (fun b id => b.extend id stop) b = { b with nodes := reach b.nodes ids stop } := by
  induction ids generalizing b with
  | nil => rfl
  | cons id ids ih => exact ih (b.extend id stop)

theorem getElem?_reach (nodes : Array Node) (ids : List Nat) (stop j : Nat) :
    (reach nodes ids stop)[j]? =
      nodes[j]?.map fun n => if j ∈ ids then { n with span := n.span.extendTo stop } else n := by
  induction ids generalizing nodes with
  | nil => simp [reach]
  | cons id ids ih =>
    rw [reach, List.foldl_cons]
    refine (ih _).trans ?_
    rw [Array.getElem?_modify]
    by_cases hj : id = j
    · subst hj
      cases nodes[id]? <;> simp [Span.extendTo]
    · simp [hj, Ne.symm hj]

theorem relinks_reach (nodes : Array Node) (ids : List Nat) (stop : Nat) :
    Relinks nodes (reach nodes ids stop) := by
  intro j
  rw [getElem?_reach]
  cases hj : nodes[j]? with
  | none => exact .inl ⟨rfl, rfl⟩
  | some n =>
    refine .inr ⟨n, _, rfl, rfl, ?_⟩
    split
    · exact (Kind.Alike.refl n.kind).sameLinks _
    · exact .refl n

theorem nested_reach {current : Nat} {ids : List Nat} (h : Nested s top nodes current edge)
    (hids : ∀ id ∈ ids, id ∈ chain nodes current) (hle : edge ≤ stop) (hsize : stop ≤ size s) :
    Nested s top (reach nodes ids stop) current stop := by
  induction ids generalizing nodes edge with
  | nil => exact h.mono hle hsize
  | cons id ids ih =>
    have hnext := h.touch (.inl (hids id List.mem_cons_self))
      (fun n _ => grows_extend n (Nat.le_refl stop)) hle hsize
    refine ih hnext (fun j hj => ?_) (Nat.le_refl _)
    rw [(relinks_modify fun n _ => (Kind.Alike.refl n.kind).sameLinks _).chain]
    exact hids j (List.mem_cons_of_mem _ hj)

theorem unclosed_reach {ids : List Nat} (h : Unclosed nodes id) :
    Unclosed (reach nodes ids stop) id := by
  intro d hd m hm
  rw [(relinks_reach _ _ _).chain] at hd
  rw [getElem?_reach] at hm
  obtain ⟨n, hn, rfl⟩ := Option.map_eq_some_iff.mp hm
  have := h d hd n hn
  split <;> exact this

theorem sealed_reach {current : Nat} {ids : List Nat}
    (h : Nested s top (reach nodes ids stop) current stop) (hid : id ∈ ids) (htop : top ≤ id) :
    Sealed (reach nodes ids stop) id := by
  intro j n m hm hn
  refine h.sealed_of_edge_le hm htop ?_ hm hn
  rw [getElem?_reach] at hm
  obtain ⟨k, -, rfl⟩ := Option.map_eq_some_iff.mp hm
  rw [if_pos hid]
  exact Nat.le_max_right ..

/-! ## A tag without a name -/

/-- A `</` has been read at `start`, and nothing is known yet about its name. -/
structure Pending (s : String) (top start edge : Nat) (b : Builder) : Prop where
  nested : Nested s top b.nodes b.current edge
  unclosed : Unclosed b.nodes b.current
  endTagOpen : b.endTagOpen = some start
  declaration : b.declaration = none
  fresh : Fresh b.nodes b.current start

/-- The current element has an end tag that lacks its `>`. -/
structure Closing (s : String) (top edge : Nat) (b : Builder) : Prop extends Ended s top edge b where
  kind : ∃ e, b.kindOf b.current = .element e ∧ e.closed = true ∧ e.endOpen.isSome = true
  endTagOpen : b.endTagOpen = none
  declaration : b.declaration = none

theorem Pending.mono {start edge' : Nat} (h : b.Pending s top start edge) (hle : edge ≤ edge')
    (hsize : edge' ≤ size s) : b.Pending s top start edge' :=
  { h with nested := h.nested.mono hle hsize }

theorem Closing.mono {edge' : Nat} (h : b.Closing s top edge) (hle : edge ≤ edge')
    (hsize : edge' ≤ size s) : b.Closing s top edge' :=
  { h with nested := h.nested.mono hle hsize }

theorem Pending.flush {start : Nat} (h : b.Pending s top start edge) (hlt : start < stop)
    (hle : edge ≤ stop) (hsize : stop ≤ size s) (close : Option Nat) :
    (b.flushEndTag stop close).Steady s top stop := by
  rw [flushEndTag, h.endTagOpen]
  exact ⟨nested_append (b := { b with endTagOpen := none }) h.nested rfl h.fresh hlt hle hsize
      (.inl rfl),
    unclosed_append (b := { b with endTagOpen := none }) h.nested h.unclosed rfl, rfl, h.declaration⟩

theorem Pending.extend {start : Nat} (h : b.Pending s top start edge) (hle : edge ≤ stop)
    (hsize : stop ≤ size s) : (b.extend b.current stop).Pending s top start stop where
  nested := h.nested.touch mayGrow_current (fun n _ => grows_extend n (Nat.le_refl _)) hle hsize
  unclosed := h.unclosed.modify (relinks_extend b b.current stop) fun _ _ _ => rfl
  endTagOpen := h.endTagOpen
  declaration := h.declaration
  fresh := h.fresh.touch h.nested.arena fun n _ => grows_extend n (Nat.le_refl stop)

theorem Closing.top_lt (h : b.Closing s top edge) : top < b.current := by
  obtain ⟨e, he, -⟩ := h.kind
  exact top_lt_of_element h.nested he

theorem Closing.leave (h : b.Closing s top edge) : b.leave.Steady s top edge :=
  (h.toEnded.leave h.top_lt h.endTagOpen h.declaration).1

theorem Closing.close {e e' : Element} (h : b.Closing s top edge)
    (hkind : b.kindOf b.current = .element e) (hattr : e'.attributes = e.attributes)
    (hle : edge ≤ stop) (hsize : stop ≤ size s) :
    (b.update b.current (.element e') stop).leave.Steady s top stop :=
  ((ended_modify h.nested h.around (grows_update (by rw [hkind]; exact hattr))
    (fun _ => Nat.le_max_right ..) hle hsize).leave h.top_lt h.endTagOpen h.declaration).1

/-! ## The name of an end tag -/

/-- The element that an end tag closes. -/
def isOpenAs (b : Builder) (name : String) (id : Nat) : Bool :=
  match b.kindOf id with
  | .element e => !e.closed && e.tag == some name
  | _ => false

/-- The end tag ends the nodes `inner` at its start, and closes the element `id` around them. -/
def closeAt (b : Builder) (inner : List Nat) (id start : Nat) (t : Token) : Builder :=
  let b := inner.foldl (fun b i => b.extend i start) b
  match b.kindOf id with
  | .element e =>
    { b.update id
        (.element { e with closed := true, endOpen := some start, endTagSpan := some t.span }) t.stop
      with current := id }
  | _ => b

/-- An element of its own for an end tag that closes no other. -/
def strayElement (name : String) (start : Nat) (t : Token) : Element :=
  { tag := some name, endOpen := some start, endTagSpan := some t.span, closed := true }

theorem endTag_eq {start : Nat} {t : Token} (h : b.endTagOpen = some start) :
    endTag s b t =
      let name := Text.slice s t.start t.stop
      let b := { b with endTagOpen := none }
      match (chain b.nodes b.current).find? (b.isOpenAs name) with
      | some id =>
        b.closeAt ((chain b.nodes b.current).takeWhile (!b.isOpenAs name ·)) id start t
      | none => b.openNode (.element (strayElement name start t)) ⟨start, t.stop⟩ := by
  unfold endTag
  rw [h]
  rfl

theorem takeWhile_of_find? {p : Nat → Bool} {current : Nat}
    (h : (chain nodes current).find? p = some id) :
    (chain nodes current).takeWhile (!p ·) = (chain nodes current).takeWhile (id < ·) := by
  obtain ⟨hp, inner, outer, hsplit, hinner⟩ := List.find?_eq_some_iff_append.mp h
  have hsorted := chain_pairwise nodes current
  rw [hsplit] at hsorted ⊢
  have hlt : ∀ c ∈ inner, id < c := fun c hc =>
    (List.pairwise_append.mp hsorted).2.2 c hc id List.mem_cons_self
  rw [List.takeWhile_append_of_pos (by simpa using hinner),
    List.takeWhile_append_of_pos (by simpa using hlt)]
  simp [hp]

theorem kindOf_reach (b : Builder) (ids : List Nat) (stop id : Nat) :
    { b with nodes := reach b.nodes ids stop }.kindOf id = b.kindOf id := by
  simp only [kindOf, getElem?_reach, Option.map_map]
  congr 1
  cases b.nodes[id]? with
  | none => rfl
  | some n =>
    simp only [Option.map_some, Function.comp_apply]
    split <;> rfl

theorem mem_takeWhile_of_lt {current d : Nat} (hd : d ∈ chain nodes current) (hlt : id < d) :
    d ∈ (chain nodes current).takeWhile (id < ·) := by
  have hsorted := chain_pairwise nodes current
  generalize chain nodes current = l at hd hsorted
  induction l with
  | nil => cases hd
  | cons a l ih =>
    obtain ⟨hal, hl⟩ := List.pairwise_cons.mp hsorted
    rcases List.mem_cons.mp hd with rfl | hd
    · simp [hlt]
    · have := hal d hd
      rw [List.takeWhile_cons_of_pos (by simpa using (by omega : id < a))]
      exact List.mem_cons_of_mem _ (ih hd hl)

theorem Steady.closing {e e' : Element} (h : b.Steady s top edge)
    (hkind : b.kindOf b.current = .element e) (hattr : e'.attributes = e.attributes)
    (hclosed : e'.closed = true) (hend : e'.endOpen.isSome = true) (hle : edge ≤ stop)
    (hsize : stop ≤ size s) : (b.update b.current (.element e') stop).Closing s top stop where
  toEnded := ended_modify h.nested (fun _ => h.around) (grows_update (by rw [hkind]; exact hattr))
    (fun _ => Nat.le_max_right ..) hle hsize
  kind := by
    obtain ⟨n, hn, -⟩ := h.nested.current_node
    refine ⟨e', kindOf_eq (n := { n with kind := _, span := n.span.extendTo stop }) ?_, hclosed, hend⟩
    show (b.nodes.modify b.current _)[b.current]? = _
    rw [Array.getElem?_modify, if_pos rfl, hn]
    rfl
  endTagOpen := h.endTagOpen
  declaration := h.declaration

theorem closing_openNode {e : Element} {start : Nat} (h : Nested s top b.nodes b.current edge)
    (hu : Unclosed b.nodes b.current) (hfresh : Fresh b.nodes b.current start)
    (hpending : b.endTagOpen = none) (hdecl : b.declaration = none) (hattr : e.attributes = #[])
    (hclosed : e.closed = true) (hend : e.endOpen.isSome = true) (hlt : start < stop)
    (hle : edge ≤ stop) (hsize : stop ≤ size s) :
    (b.openNode (.element e) ⟨start, stop⟩).Closing s top stop := by
  have hnested : Nested s top (b.openNode (.element e) ⟨start, stop⟩).nodes
      (b.openNode (.element e) ⟨start, stop⟩).current stop :=
    nested_append h hattr hfresh hlt hle hsize (.inr (openNode_current ..))
  refine ⟨⟨hnested, fun p hp => ?_, ?_⟩, ⟨e, kindOf_openNode .., hclosed, hend⟩, hpending, hdecl⟩
  · rw [parentAt_openNode] at hp
    obtain rfl := Option.some.inj hp
    exact unclosed_append h hu hattr
  · exact hnested.sealed_of_edge_le (getElem?_openNode ..) hnested.top_le (Nat.le_refl _)

theorem Pending.backTo {start : Nat} {e : Element} (h : b.Pending s top start start)
    (hid : id ∈ chain b.nodes b.current) (hkind : b.kindOf id = .element e) :
    { b with
      nodes := reach b.nodes ((chain b.nodes b.current).takeWhile (id < ·)) start
      current := id
      endTagOpen := none }.Steady s top start := by
  generalize hinner : (chain b.nodes b.current).takeWhile (id < ·) = inner
  have hlinks := relinks_reach b.nodes inner start
  have hreach : Nested s top (reach b.nodes inner start) b.current start :=
    nested_reach h.nested (fun d hd => (List.takeWhile_subset _ (hinner ▸ hd))) (Nat.le_refl _)
      h.nested.edge_le
  have hid' : id ∈ chain (reach b.nodes inner start) b.current := by rwa [hlinks.chain]
  have htop := top_lt_of_element h.nested hkind
  refine ⟨?_, (unclosed_reach h.unclosed).of_mem_chain hid', rfl, h.declaration⟩
  refine hreach.rise hid' (Nat.le_of_lt htop) fun d hd (hidd : id < d) => ?_
  rw [hlinks.chain] at hd
  exact sealed_reach hreach (hinner ▸ mem_takeWhile_of_lt hd hidd) (by omega)

theorem Pending.closeAt {start : Nat} {t : Token} {e : Element} (h : b.Pending s top start start)
    (hid : id ∈ chain b.nodes b.current) (hkind : b.kindOf id = .element e)
    (hlt : start < t.stop) (hsize : t.stop ≤ size s) :
    ({ b with endTagOpen := none }.closeAt ((chain b.nodes b.current).takeWhile (id < ·)) id start
      t).Closing s top t.stop := by
  have hback := h.backTo hid hkind
  have hkind' : kindOf { b with endTagOpen := none } id = .element e := hkind
  rw [Builder.closeAt, foldl_extend, kindOf_reach, hkind']
  refine hback.closing (e := e) ?_ rfl rfl rfl (Nat.le_of_lt hlt) hsize
  exact (kindOf_reach ..).trans hkind

theorem Pending.endTag {start : Nat} {t : Token} (h : b.Pending s top start start)
    (hlt : start < t.stop) (hsize : t.stop ≤ size s) : (endTag s b t).Closing s top t.stop := by
  rw [endTag_eq h.endTagOpen]
  dsimp only
  split
  · rename_i id hid
    have hopen := List.find?_some hid
    rw [takeWhile_of_find? hid]
    unfold isOpenAs at hopen
    split at hopen
    · rename_i e he
      exact h.closeAt (List.mem_of_find?_eq_some hid) he hlt hsize
    · cases hopen
  · exact closing_openNode (b := { b with endTagOpen := none }) h.nested h.unclosed h.fresh rfl
      h.declaration rfl rfl rfl hlt (Nat.le_of_lt hlt) hsize

end Builder

end XmlAssist
