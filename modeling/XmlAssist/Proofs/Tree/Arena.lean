import XmlAssist.Proofs.Tree.Chain

/-!
# Nodes that form a tree

`Arena` says that an array of nodes is a tree numbered in the order of the text: links go both ways,
a parent has a smaller number than what it holds, and a subtree ends before the next sibling
starts. Two changes keep it. A node may change in all that does not link it (`SameLinks`); and a
node may be added at the end of the array, as a child or an attribute of a node that lies on the
rightmost path (`Rightmost`), which is how the numbers stay in the order of the text.
-/

namespace XmlAssist

namespace Node

def isAttribute (n : Node) : Bool := n.attribute?.isSome

/-- Attributes may belong to the node: it is an element or the XML declaration. -/
def ownsAttributes (n : Node) : Bool :=
  match n.kind with
  | .element _ => true
  | .instruction i => i.isProlog
  | _ => false

/-- The node `c` is a child of `p`. -/
def Child (nodes : Array Node) (p c : Nat) : Prop :=
  ∃ n, nodes[c]? = some n ∧ n.parent = some p ∧ n.isAttribute = false

/-- The node `a` is an attribute of `p`. -/
def Attr (nodes : Array Node) (p a : Nat) : Prop :=
  ∃ n, nodes[a]? = some n ∧ n.parent = some p ∧ n.isAttribute = true

/-- The nodes are linked to the same others. -/
structure SameLinks (n m : Node) : Prop where
  parent : m.parent = n.parent
  children : m.children = n.children
  attributeIds : m.attributeIds = n.attributeIds
  isAttribute : m.isAttribute = n.isAttribute
  document : m.kind = .document ↔ n.kind = .document
  isDoctype : m.isDoctype = n.isDoctype
  owner : n.attributeIds ≠ #[] → n.ownsAttributes = true → m.ownsAttributes = true

theorem SameLinks.refl (n : Node) : SameLinks n n := ⟨rfl, rfl, rfl, rfl, .rfl, rfl, fun _ h => h⟩

/-- A node of the first kind may become one of the second: the kinds differ in details only. -/
def Kind.Alike : Kind → Kind → Prop
  | .document, .document | .text, .text => True
  | .element e, .element e' => e'.attributes = e.attributes
  | .instruction i, .instruction i' =>
    i'.attributes = i.attributes ∧ (i.isProlog = true → i'.isProlog = true)
  | .attribute _, .attribute _ | .comment _, .comment _ | .cdata _, .cdata _
  | .doctype _, .doctype _ | .declaration _, .declaration _ => True
  | _, _ => False

theorem Kind.Alike.refl (k : Kind) : k.Alike k := by cases k <;> simp [Alike]

theorem Kind.Alike.sameLinks {n : Node} {k : Kind} (h : n.kind.Alike k) (span : Span) :
    SameLinks n { n with kind := k, span } := by
  obtain ⟨_, parent, children, kind⟩ := n
  cases kind <;> cases k <;> simp only [Alike] at h
  case element.element =>
    exact ⟨rfl, rfl, h, rfl, by simp, rfl, fun _ _ => rfl⟩
  case instruction.instruction =>
    exact ⟨rfl, rfl, h.1, rfl, by simp, rfl, fun _ => h.2⟩
  all_goals exact ⟨rfl, rfl, rfl, rfl, by simp, rfl, fun hne => absurd rfl hne⟩

end Node

open Node

/-- The nodes form a tree, numbered in the order of the text. -/
structure Arena (nodes : Array Node) : Prop where
  root : ∃ n, nodes[0]? = some n ∧ n.kind = .document ∧ n.parent = none
  inner : ∀ {id : Nat} {n : Node}, nodes[id]? = some n → 0 < id →
    n.kind ≠ .document ∧ ∃ p, n.parent = some p ∧ p < id
  child : ∀ {p c : Nat} {n : Node}, nodes[p]? = some n → (c ∈ n.children ↔ Child nodes p c)
  attr : ∀ {p a : Nat} {n : Node}, nodes[p]? = some n → (a ∈ n.attributeIds ↔ Attr nodes p a)
  children_lt : ∀ {p : Nat} {n : Node}, nodes[p]? = some n → n.children.toList.Pairwise (· < ·)
  attributes_lt : ∀ {p : Nat} {n : Node}, nodes[p]? = some n → n.attributeIds.toList.Pairwise (· < ·)
  owner : ∀ {p : Nat} {n : Node}, nodes[p]? = some n → n.attributeIds ≠ #[] → n.ownsAttributes = true
  leaf : ∀ {a : Nat} {n : Node}, nodes[a]? = some n → n.isAttribute = true → n.children = #[]
  preorder : ∀ {p c c' j}, Child nodes p c → Child nodes p c' → c < c' → c ∈ chain nodes j → j < c'

/-- The node is open to more: neither it nor a node around it has a sibling behind it. -/
structure Rightmost (nodes : Array Node) (id : Nat) : Prop where
  node : ∃ n, nodes[id]? = some n ∧ n.isAttribute = false
  last : ∀ {c p c'}, c ∈ chain nodes id → parentAt nodes c = some p → Child nodes p c' → c' ≤ c

variable {nodes nodes' : Array Node}

theorem Arena.parentAt_lt (h : Arena nodes) {id p : Nat} (hp : parentAt nodes id = some p) :
    p < id := by
  obtain ⟨n, hn, hnp⟩ := parentAt_eq_some.mp hp
  rcases Nat.eq_zero_or_pos id with rfl | hpos
  · obtain ⟨m, hm, -, hnone⟩ := h.root
    rw [hn] at hm
    rw [Option.some.inj hm, hnone] at hnp
    cases hnp
  · obtain ⟨-, q, hq, hlt⟩ := h.inner hn hpos
    rw [hnp] at hq
    rwa [Option.some.inj hq]

theorem Node.Child.parentAt {p c : Nat} (h : Child nodes p c) : parentAt nodes c = some p := by
  obtain ⟨n, hn, hp, -⟩ := h
  exact parentAt_eq_some.mpr ⟨n, hn, hp⟩

theorem Node.Child.lt_size {p c : Nat} (h : Child nodes p c) : c < nodes.size := by
  obtain ⟨n, hn, -⟩ := h
  exact lt_size_of_getElem? hn

theorem Node.Attr.lt_size {p a : Nat} (h : Attr nodes p a) : a < nodes.size := by
  obtain ⟨n, hn, -⟩ := h
  exact lt_size_of_getElem? hn

theorem Arena.child_lt (h : Arena nodes) {p c : Nat} (hc : Child nodes p c) : p < c :=
  h.parentAt_lt hc.parentAt

/-! ## Changes that keep the links -/

/-- The same nodes up to what does not link them. -/
def Relinks (nodes nodes' : Array Node) : Prop :=
  ∀ id : Nat, (nodes[id]? = none ∧ nodes'[id]? = none) ∨
    ∃ n m, nodes[id]? = some n ∧ nodes'[id]? = some m ∧ SameLinks n m

theorem Relinks.get (h : Relinks nodes nodes') {id : Nat} {m : Node} (hm : nodes'[id]? = some m) :
    ∃ n, nodes[id]? = some n ∧ SameLinks n m := by
  rcases h id with ⟨-, hnone⟩ | ⟨n, m', hn, hm', hs⟩
  · rw [hm] at hnone
    cases hnone
  · rw [hm] at hm'
    exact ⟨n, hn, Option.some.inj hm' ▸ hs⟩

theorem Relinks.parentAt (h : Relinks nodes nodes') (id : Nat) :
    parentAt nodes' id = parentAt nodes id := by
  rcases h id with ⟨hn, hm⟩ | ⟨n, m, hn, hm, hs⟩
  · simp [Node.parentAt, hn, hm]
  · simp [Node.parentAt, hn, hm, hs.parent]

theorem Relinks.chain (h : Relinks nodes nodes') (id : Nat) : chain nodes' id = chain nodes id :=
  chain_congr fun j _ => h.parentAt j

theorem Relinks.child (h : Relinks nodes nodes') {p c : Nat} :
    Child nodes' p c ↔ Child nodes p c := by
  unfold Child
  rcases h c with ⟨hn, hm⟩ | ⟨n, m, hn, hm, hs⟩
  · simp [hn, hm]
  · simp [hn, hm, hs.parent, hs.isAttribute]

theorem Relinks.attr (h : Relinks nodes nodes') {p a : Nat} : Attr nodes' p a ↔ Attr nodes p a := by
  unfold Attr
  rcases h a with ⟨hn, hm⟩ | ⟨n, m, hn, hm, hs⟩
  · simp [hn, hm]
  · simp [hn, hm, hs.parent, hs.isAttribute]

theorem Arena.of_relinks (ha : Arena nodes) (h : Relinks nodes nodes') : Arena nodes' where
  root := by
    obtain ⟨n, hn, hkind, hparent⟩ := ha.root
    rcases h 0 with ⟨hnone, -⟩ | ⟨n', m, hn', hm, hs⟩
    · rw [hn] at hnone
      cases hnone
    · obtain rfl := Option.some.inj (hn.symm.trans hn')
      exact ⟨m, hm, hs.document.mpr hkind, hs.parent.trans hparent⟩
  inner hm hpos := by
    obtain ⟨n, hn, hs⟩ := h.get hm
    obtain ⟨hkind, p, hp, hlt⟩ := ha.inner hn hpos
    exact ⟨fun hd => hkind (hs.document.mp hd), p, hs.parent.trans hp, hlt⟩
  child hm := by
    obtain ⟨n, hn, hs⟩ := h.get hm
    rw [hs.children, ha.child hn, h.child]
  attr hm := by
    obtain ⟨n, hn, hs⟩ := h.get hm
    rw [hs.attributeIds, ha.attr hn, h.attr]
  children_lt hm := by
    obtain ⟨n, hn, hs⟩ := h.get hm
    rw [hs.children]
    exact ha.children_lt hn
  attributes_lt hm := by
    obtain ⟨n, hn, hs⟩ := h.get hm
    rw [hs.attributeIds]
    exact ha.attributes_lt hn
  owner hm hne := by
    obtain ⟨n, hn, hs⟩ := h.get hm
    rw [hs.attributeIds] at hne
    exact hs.owner hne (ha.owner hn hne)
  leaf hm hattr := by
    obtain ⟨n, hn, hs⟩ := h.get hm
    rw [hs.isAttribute] at hattr
    rw [hs.children]
    exact ha.leaf hn hattr
  preorder hc hc' hlt hj := by
    rw [h.chain] at hj
    exact ha.preorder (h.child.mp hc) (h.child.mp hc') hlt hj

theorem Rightmost.of_relinks {id : Nat} (hr : Rightmost nodes id) (h : Relinks nodes nodes') :
    Rightmost nodes' id where
  node := by
    obtain ⟨n, hn, hattr⟩ := hr.node
    rcases h id with ⟨hnone, -⟩ | ⟨n', m, hn', hm, hs⟩
    · rw [hn] at hnone
      cases hnone
    · obtain rfl := Option.some.inj (hn.symm.trans hn')
      exact ⟨m, hm, hs.isAttribute.trans hattr⟩
  last hc hp hc' := by
    rw [h.chain] at hc
    rw [h.parentAt] at hp
    exact hr.last hc hp (h.child.mp hc')

theorem relinks_modify {id : Nat} {f : Node → Node}
    (hf : ∀ n, nodes[id]? = some n → SameLinks n (f n)) : Relinks nodes (nodes.modify id f) := by
  intro j
  rw [Array.getElem?_modify]
  cases hj : nodes[j]? with
  | none => simp
  | some n =>
    by_cases h : id = j
    · exact .inr ⟨n, f n, rfl, by simp [h], hf n (h ▸ hj)⟩
    · exact .inr ⟨n, n, rfl, by simp [h], SameLinks.refl n⟩

/-! ## A node more -/

/-- The node `p` changed by `f`, and a new node behind all others. -/
def grow (nodes : Array Node) (p : Nat) (f : Node → Node) (n : Node) : Array Node :=
  (nodes.modify p f).push n

theorem size_grow (nodes : Array Node) (p : Nat) (f : Node → Node) (n : Node) :
    (grow nodes p f n).size = nodes.size + 1 := by
  simp [grow]

theorem getElem?_grow (nodes : Array Node) (p : Nat) (f : Node → Node) (n : Node) (j : Nat) :
    (grow nodes p f n)[j]? =
      if j = nodes.size then some n else if p = j then nodes[j]?.map f else nodes[j]? := by
  simp only [grow, Array.getElem?_push, Array.size_modify, Array.getElem?_modify]

/-- The node `n` becomes a part of the node `m` number `p`, which is then `m'`. -/
structure Adds (nodes : Array Node) (p : Nat) (m m' n : Node) : Prop where
  owner : nodes[p]? = some m
  open_ : Rightmost nodes p
  parent : n.parent = some p
  children : n.children = #[]
  attributeIds : n.attributeIds = #[]
  kind : n.kind ≠ .document
  parent' : m'.parent = m.parent
  isAttribute : m'.isAttribute = m.isAttribute
  document : m'.kind = .document ↔ m.kind = .document
  isDoctype : m'.isDoctype = m.isDoctype
  children' : m'.children = if n.isAttribute then m.children else m.children.push nodes.size
  attributeIds' : m'.attributeIds = if n.isAttribute then m.attributeIds.push nodes.size else m.attributeIds
  owns : m'.attributeIds ≠ #[] → m'.ownsAttributes = true

section grow
variable {p : Nat} {f : Node → Node} {m n : Node}

theorem Adds.getElem? (h : Adds nodes p m (f m) n) (j : Nat) :
    (grow nodes p f n)[j]? =
      if j = nodes.size then some n else if j = p then some (f m) else nodes[j]? := by
  rw [getElem?_grow]
  by_cases hj : j = nodes.size
  · simp [hj]
  · by_cases hp : j = p
    · subst hp
      simp [hj, h.owner]
    · simp [hj, hp, Ne.symm hp]

theorem Adds.lt_size (h : Adds nodes p m (f m) n) : p < nodes.size := lt_size_of_getElem? h.owner

theorem Adds.get (h : Adds nodes p m (f m) n) {j : Nat} {k : Node}
    (hk : (grow nodes p f n)[j]? = some k) :
    (j = nodes.size ∧ k = n) ∨ (j = p ∧ j < nodes.size ∧ k = f m) ∨
      (j ≠ p ∧ j < nodes.size ∧ nodes[j]? = some k) := by
  rw [h.getElem?] at hk
  split at hk
  · exact .inl ⟨‹_›, (Option.some.inj hk).symm⟩
  split at hk
  · rename_i hj
    exact .inr (.inl ⟨hj, hj ▸ h.lt_size, (Option.some.inj hk).symm⟩)
  · exact .inr (.inr ⟨‹_›, lt_size_of_getElem? hk, hk⟩)

theorem Adds.parentAt_size (h : Adds nodes p m (f m) n) :
    parentAt (grow nodes p f n) nodes.size = some p := by
  simp [parentAt, h.getElem?, h.parent]

theorem Adds.parentAt_of_ne (h : Adds nodes p m (f m) n) {j : Nat} (hj : j ≠ nodes.size) :
    parentAt (grow nodes p f n) j = parentAt nodes j := by
  by_cases hp : j = p
  · simp [parentAt, h.getElem?, hp, Nat.ne_of_lt h.lt_size, h.owner, h.parent']
  · simp [parentAt, h.getElem?, hj, hp]

theorem Adds.chain_size (h : Adds nodes p m (f m) n) :
    chain (grow nodes p f n) nodes.size = nodes.size :: chain nodes p := by
  rw [chain_of_parentAt h.parentAt_size h.lt_size]
  congr 1
  exact chain_congr fun j hj => h.parentAt_of_ne (by have := h.lt_size; omega)

theorem Adds.chain_of_ne (h : Adds nodes p m (f m) n) {j : Nat} (hj : j ≠ nodes.size) :
    chain (grow nodes p f n) j = chain nodes j := by
  rcases Nat.lt_or_gt_of_ne hj with hlt | hgt
  · exact chain_congr fun k hk => h.parentAt_of_ne (by omega)
  · have hnone : nodes[j]? = none := Array.getElem?_eq_none (by omega)
    have hp : parentAt nodes j = none := by simp [parentAt, hnone]
    rw [chain_of_parentAt_eq_none hp, chain_of_parentAt_eq_none (h.parentAt_of_ne hj ▸ hp)]

theorem Adds.child (h : Adds nodes p m (f m) n) {q c : Nat} :
    Child (grow nodes p f n) q c ↔
      Child nodes q c ∨ (c = nodes.size ∧ q = p ∧ n.isAttribute = false) := by
  have hsize : ∀ q, ¬ Child nodes q nodes.size := by
    rintro q ⟨n, hn, -⟩
    simp at hn
  by_cases hc : c = nodes.size
  · subst hc
    rw [or_iff_right (hsize q)]
    simp [Child, h.getElem?, h.parent, @eq_comm _ p q]
  · by_cases hp : c = p
    · subst hp
      simp [Child, h.getElem?, hc, h.owner, h.parent', h.isAttribute]
    · simp [Child, h.getElem?, hc, hp]

theorem Adds.attr (h : Adds nodes p m (f m) n) {q a : Nat} :
    Attr (grow nodes p f n) q a ↔
      Attr nodes q a ∨ (a = nodes.size ∧ q = p ∧ n.isAttribute = true) := by
  have hsize : ∀ q, ¬ Attr nodes q nodes.size := by
    rintro q ⟨n, hn, -⟩
    simp at hn
  by_cases ha : a = nodes.size
  · subst ha
    rw [or_iff_right (hsize q)]
    simp [Attr, h.getElem?, h.parent, @eq_comm _ p q]
  · by_cases hp : a = p
    · subst hp
      simp [Attr, h.getElem?, ha, h.owner, h.parent', h.isAttribute]
    · simp [Attr, h.getElem?, ha, hp]

theorem Adds.not_mem_chain (h : Adds nodes p m (f m) n) {q c c' : Nat}
    (hc : Child nodes q c) (hc' : Child nodes q c') (hlt : c < c') : c ∉ chain nodes p := by
  intro hmem
  have := h.open_.last hmem hc.parentAt hc'
  omega

/-- What is inside a child has a smaller number than the children behind it, the new node included. -/
theorem Adds.preorder (ha : Arena nodes) (h : Adds nodes p m (f m) n) {q c c' j : Nat}
    (hc : Child (grow nodes p f n) q c) (hc' : Child (grow nodes p f n) q c') (hlt : c < c')
    (hj : c ∈ chain (grow nodes p f n) j) : j < c' := by
  rw [h.child] at hc hc'
  -- the new node has the greatest number, so it is no child with another behind it
  have hcold : Child nodes q c := by
    rcases hc with hc | ⟨rfl, -, -⟩
    · exact hc
    · rcases hc' with hc' | ⟨rfl, -, -⟩
      · exact absurd hc'.lt_size (by omega)
      · exact absurd hlt (Nat.lt_irrefl _)
  have hne : c ≠ nodes.size := Nat.ne_of_lt hcold.lt_size
  by_cases hsize : j = nodes.size
  · rw [hsize, h.chain_size, List.mem_cons] at hj
    have hmem := hj.resolve_left hne
    rcases hc' with hc' | ⟨-, rfl, -⟩
    · exact absurd hmem (h.not_mem_chain hcold hc' hlt)
    · exact absurd (le_of_mem_chain hmem) (Nat.not_le_of_lt (ha.child_lt hcold))
  · rw [h.chain_of_ne hsize] at hj
    rcases hc' with hc' | ⟨rfl, -, -⟩
    · exact ha.preorder hcold hc' hlt hj
    · by_cases hcj : c = j
      · exact hcj ▸ hlt
      · exact lt_size_of_mem_chain_of_ne hj hcj

theorem pairwise_push {ids : Array Nat} {id : Nat} (h : ids.toList.Pairwise (· < ·))
    (hid : ∀ c ∈ ids, c < id) : (ids.push id).toList.Pairwise (· < ·) := by
  rw [Array.toList_push, List.pairwise_append]
  refine ⟨h, List.pairwise_singleton .., fun c hc _ hd => ?_⟩
  obtain rfl := List.mem_singleton.mp hd
  exact hid c (Array.mem_toList_iff.mp hc)

theorem Arena.grow (ha : Arena nodes) (h : Adds nodes p m (f m) n) :
    Arena (XmlAssist.grow nodes p f n) where
  root := by
    obtain ⟨r, hr, hkind, hparent⟩ := ha.root
    have hpos : 0 < nodes.size := lt_size_of_getElem? hr
    rw [h.getElem?, if_neg (Nat.ne_of_lt hpos)]
    split
    · rename_i hp
      obtain rfl := Option.some.inj (hr.symm.trans (hp ▸ h.owner))
      exact ⟨_, rfl, h.document.mpr hkind, h.parent'.trans hparent⟩
    · exact ⟨r, hr, hkind, hparent⟩
  inner := by
    intro id k hk hpos
    rcases h.get hk with ⟨rfl, rfl⟩ | ⟨rfl, -, rfl⟩ | ⟨-, -, hk⟩
    · exact ⟨h.kind, p, h.parent, h.lt_size⟩
    · obtain ⟨hkind, q, hq, hlt⟩ := ha.inner h.owner hpos
      exact ⟨fun hd => hkind (h.document.mp hd), q, h.parent'.trans hq, hlt⟩
    · exact ha.inner hk hpos
  child := by
    intro q c k hk
    rw [h.child]
    rcases h.get hk with ⟨rfl, rfl⟩ | ⟨rfl, -, rfl⟩ | ⟨hq, -, hk⟩
    · have hp := Nat.ne_of_gt h.lt_size
      have hnone : ¬ Child nodes nodes.size c := fun hc => by
        have := ha.child_lt hc
        have := hc.lt_size
        omega
      simp [h.children, hnone, hp]
    · rw [h.children', ← ha.child h.owner]
      cases n.isAttribute <;> simp
    · simp [ha.child hk, hq]
  attr := by
    intro q c k hk
    rw [h.attr]
    rcases h.get hk with ⟨rfl, rfl⟩ | ⟨rfl, -, rfl⟩ | ⟨hq, -, hk⟩
    · have hp := Nat.ne_of_gt h.lt_size
      have hnone : ¬ Attr nodes nodes.size c := fun hc => by
        obtain ⟨k, hk, hparent, -⟩ := hc
        have := ha.parentAt_lt (parentAt_eq_some.mpr ⟨k, hk, hparent⟩)
        have := lt_size_of_getElem? hk
        omega
      simp [h.attributeIds, hnone, hp]
    · rw [h.attributeIds', ← ha.attr h.owner]
      cases n.isAttribute <;> simp
    · simp [ha.attr hk, hq]
  children_lt := by
    intro q k hk
    rcases h.get hk with ⟨-, rfl⟩ | ⟨-, -, rfl⟩ | ⟨-, -, hk⟩
    · simp [h.children]
    · rw [h.children']
      split
      · exact ha.children_lt h.owner
      · exact pairwise_push (ha.children_lt h.owner) fun c hc => ((ha.child h.owner).mp hc).lt_size
    · exact ha.children_lt hk
  attributes_lt := by
    intro q k hk
    rcases h.get hk with ⟨-, rfl⟩ | ⟨-, -, rfl⟩ | ⟨-, -, hk⟩
    · simp [h.attributeIds]
    · rw [h.attributeIds']
      split
      · exact pairwise_push (ha.attributes_lt h.owner) fun a ha' => ((ha.attr h.owner).mp ha').lt_size
      · exact ha.attributes_lt h.owner
    · exact ha.attributes_lt hk
  owner := by
    intro q k hk hne
    rcases h.get hk with ⟨-, rfl⟩ | ⟨-, -, rfl⟩ | ⟨-, -, hk⟩
    · exact absurd h.attributeIds hne
    · exact h.owns hne
    · exact ha.owner hk hne
  leaf := by
    intro a k hk hattr
    rcases h.get hk with ⟨-, rfl⟩ | ⟨-, -, rfl⟩ | ⟨-, -, hk⟩
    · exact h.children
    · obtain ⟨k, hk, hfalse⟩ := h.open_.node
      obtain rfl := Option.some.inj (h.owner.symm.trans hk)
      rw [h.isAttribute, hfalse] at hattr
      cases hattr
    · exact ha.leaf hk hattr
  preorder := by
    intro q c c' j hc hc' hlt hj
    exact h.preorder ha hc hc' hlt hj

theorem Adds.le_of_mem_chain (ha : Arena nodes) (h : Adds nodes p m (f m) n) {c q c' : Nat}
    (hc : c ∈ chain nodes p) (hq : parentAt (XmlAssist.grow nodes p f n) c = some q)
    (hc' : Child (XmlAssist.grow nodes p f n) q c') : c' ≤ c := by
  have hlt : c < nodes.size := lt_size_of_mem_chain h.lt_size hc
  rw [h.parentAt_of_ne (Nat.ne_of_lt hlt)] at hq
  rcases h.child.mp hc' with hc' | ⟨rfl, rfl, -⟩
  · exact h.open_.last hc hq hc'
  · have := ha.parentAt_lt hq
    have := Node.le_of_mem_chain hc
    omega

theorem Adds.rightmost_owner (ha : Arena nodes) (h : Adds nodes p m (f m) n) :
    Rightmost (XmlAssist.grow nodes p f n) p where
  node := by
    obtain ⟨k, hk, hattr⟩ := h.open_.node
    obtain rfl := Option.some.inj (h.owner.symm.trans hk)
    refine ⟨f m, ?_, h.isAttribute.trans hattr⟩
    rw [h.getElem?, if_neg (Nat.ne_of_lt h.lt_size), if_pos rfl]
  last hc hq hc' := by
    rw [h.chain_of_ne (Nat.ne_of_lt h.lt_size)] at hc
    exact h.le_of_mem_chain ha hc hq hc'

theorem Adds.rightmost_new (ha : Arena nodes) (h : Adds nodes p m (f m) n)
    (hn : n.isAttribute = false) : Rightmost (XmlAssist.grow nodes p f n) nodes.size where
  node := ⟨n, by rw [h.getElem?, if_pos rfl], hn⟩
  last hc hq hc' := by
    rw [h.chain_size, List.mem_cons] at hc
    rcases hc with rfl | hc
    · have := hc'.lt_size
      rw [size_grow] at this
      omega
    · exact h.le_of_mem_chain ha hc hq hc'

end grow

/-! ## Nodes around an open one -/

theorem Arena.isAttribute_of_parentAt (ha : Arena nodes) {id p : Nat}
    (hp : parentAt nodes id = some p) : ∃ n, nodes[p]? = some n ∧ n.isAttribute = false := by
  obtain ⟨k, hk, hparent⟩ := parentAt_eq_some.mp hp
  have hlt : p < nodes.size := Nat.lt_trans (ha.parentAt_lt hp) (lt_size_of_getElem? hk)
  obtain ⟨n, hn⟩ : ∃ n, nodes[p]? = some n := ⟨_, Array.getElem?_eq_getElem hlt⟩
  refine ⟨n, hn, Bool.eq_false_iff.mpr fun hattr => ?_⟩
  cases hk' : k.isAttribute with
  | false =>
    have hmem := (ha.child hn).mpr ⟨k, hk, hparent, hk'⟩
    rw [ha.leaf hn hattr] at hmem
    simp at hmem
  | true =>
    have hmem := (ha.attr hn).mpr ⟨k, hk, hparent, hk'⟩
    have hnone : n.attributeIds = #[] := by
      cases hkind : n.kind <;> simp_all [isAttribute, attribute?, attributeIds]
    rw [hnone] at hmem
    simp at hmem

theorem Arena.isAttribute_of_mem_chain (ha : Arena nodes) {id c : Nat}
    (hid : ∃ n, nodes[id]? = some n ∧ n.isAttribute = false) (hc : c ∈ chain nodes id) :
    ∃ n, nodes[c]? = some n ∧ n.isAttribute = false := by
  induction id using Nat.strongRecOn with
  | ind id ih =>
    rcases chain_cases nodes id with h | ⟨p, hp, hlt, h⟩
    · rw [h, List.mem_singleton] at hc
      rwa [hc]
    · rw [h, List.mem_cons] at hc
      rcases hc with rfl | hc
      · exact hid
      · exact ih p hlt (ha.isAttribute_of_parentAt hp) hc

theorem Rightmost.of_mem_chain (ha : Arena nodes) {id c : Nat} (h : Rightmost nodes id)
    (hc : c ∈ chain nodes id) : Rightmost nodes c where
  node := ha.isAttribute_of_mem_chain h.node hc
  last hd hp hc' := h.last (mem_chain_trans hc hd) hp hc'

end XmlAssist
