import XmlAssist.Proofs.Tree.Pass
import XmlAssist.Tree.Document

/-!
# The shape of a document

Whatever the text, the nodes of the document read from it form a tree, numbered in the order of the
text, and their spans lie inside each other as the nodes do.
-/

namespace XmlAssist

open Node

namespace Document

variable {d : Document} {id c j : Nat}

/-- The nodes form a tree: the document is its root, every other node is listed once where it
belongs, and going through the tree visits the nodes in the order of their numbers. -/
structure Tree (d : Document) : Prop where
  root : ∃ n, d.node? 0 = some n ∧ n.kind = .document ∧ n.parent = none
  parent : ∀ id n, d.node? id = some n → 0 < id → ∃ p, n.parent = some p ∧ p < id
  children : ∀ id n, d.node? id = some n → 0 < id → n.isAttribute = false → ∀ p m, d.node? p = some m →
    m.children.toList.count id = if n.parent = some p then 1 else 0
  attributes : ∀ id n, d.node? id = some n → n.isAttribute = true →
    (∀ p m, d.node? p = some m → id ∉ m.children ∧
      m.attributeIds.toList.count id = if n.parent = some p then 1 else 0) ∧
    ∃ p m, n.parent = some p ∧ d.node? p = some m ∧ m.ownsAttributes = true
  listed : ∀ p m, d.node? p = some m →
    (∀ c ∈ m.children, ∃ n, d.node? c = some n ∧ n.parent = some p ∧ n.isAttribute = false) ∧
    ∀ a ∈ m.attributeIds, ∃ n, d.node? a = some n ∧ n.parent = some p ∧ n.isAttribute = true
  sorted : (d.descendants 0).Pairwise (· < ·)
  visited : ∀ id, id ∈ d.descendants 0 ↔ ∃ n, d.node? id = some n ∧ n.isAttribute = false

/-! ## Going through the tree -/

theorem children_eq {n : Node} (h : d.nodes[id]? = some n) : d.children id = n.children.toList := by
  simp [children, node, Array.getD_eq_getD_getElem?, h]

theorem mem_children (ha : Arena d.nodes) (h : id < d.nodes.size) :
    c ∈ d.children id ↔ Child d.nodes id c := by
  obtain ⟨n, hn⟩ : ∃ n, d.nodes[id]? = some n := ⟨_, Array.getElem?_eq_getElem h⟩
  rw [children_eq hn, Array.mem_toList_iff, ha.child hn]

theorem exists_child_of_mem_chain (ha : Arena d.nodes)
    (hj : ∃ n, d.nodes[j]? = some n ∧ n.isAttribute = false) (h : id ∈ chain d.nodes j) (hne : id ≠ j) :
    ∃ c, Child d.nodes id c ∧ c ∈ chain d.nodes j := by
  induction j using Nat.strongRecOn with
  | ind j ih =>
    rcases chain_cases d.nodes j with hc | ⟨p, hp, hlt, hc⟩
    · rw [hc, List.mem_singleton] at h
      exact absurd h hne
    · rw [hc, List.mem_cons] at h
      have hmem := h.resolve_left hne
      by_cases hid : id = p
      · obtain ⟨n, hn, hparent⟩ := parentAt_eq_some.mp hp
        obtain ⟨n', hn', hattr⟩ := hj
        obtain rfl := Option.some.inj (hn.symm.trans hn')
        exact ⟨j, ⟨n, hn, hid ▸ hparent, hattr⟩, mem_chain_self ..⟩
      · obtain ⟨c, hchild, hcp⟩ := ih p hlt (ha.isAttribute_of_parentAt hp) hmem hid
        exact ⟨c, hchild, by rw [hc]; exact List.mem_cons_of_mem _ hcp⟩

theorem descendants_eq (ha : Arena d.nodes) (hid : id < d.nodes.size) :
    d.descendants id = id :: (d.children id).flatMap d.descendants := by
  rw [descendants, List.flatMap_def, List.flatMap_def]
  congr 2
  refine List.map_congr_left fun c hc => if_pos ?_
  have hchild := (mem_children ha hid).mp hc
  exact ⟨ha.child_lt hchild, hchild.lt_size⟩

theorem mem_descendants (ha : Arena d.nodes) (id : Nat)
    (hid : ∃ n, d.nodes[id]? = some n ∧ n.isAttribute = false) :
    j ∈ d.descendants id ↔
      (∃ n, d.nodes[j]? = some n ∧ n.isAttribute = false) ∧ id ∈ chain d.nodes j := by
  have hlt : id < d.nodes.size := lt_size_of_getElem? hid.choose_spec.1
  rw [descendants_eq ha hlt, List.mem_cons, List.mem_flatMap]
  constructor
  · rintro (rfl | ⟨c, hc, hj⟩)
    · exact ⟨hid, mem_chain_self ..⟩
    · have hchild := (mem_children ha hlt).mp hc
      have hidc := ha.child_lt hchild
      have hcsize := hchild.lt_size
      obtain ⟨n, hn, -, hattr⟩ := hchild
      obtain ⟨hnode, hmem⟩ := (mem_descendants ha c ⟨n, hn, hattr⟩).mp hj
      have hchild := (mem_children ha hlt).mp hc
      exact ⟨hnode, mem_chain_trans hmem (parentAt_mem_chain hchild.parentAt hidc)⟩
  · rintro ⟨hnode, hmem⟩
    by_cases hj : id = j
    · exact .inl hj.symm
    · obtain ⟨c, hchild, hc⟩ := exists_child_of_mem_chain ha hnode hmem hj
      have hidc := ha.child_lt hchild
      have hcsize := hchild.lt_size
      refine .inr ⟨c, (mem_children ha hlt).mpr hchild, ?_⟩
      obtain ⟨n, hn, -, hattr⟩ := hchild
      exact (mem_descendants ha c ⟨n, hn, hattr⟩).mpr ⟨hnode, hc⟩
termination_by d.nodes.size - id
decreasing_by all_goals omega

theorem descendants_sorted (ha : Arena d.nodes) (id : Nat)
    (hid : ∃ n, d.nodes[id]? = some n ∧ n.isAttribute = false) :
    (d.descendants id).Pairwise (· < ·) := by
  have hlt : id < d.nodes.size := lt_size_of_getElem? hid.choose_spec.1
  have hnode {c : Nat} (hc : Child d.nodes id c) :
      ∃ n, d.nodes[c]? = some n ∧ n.isAttribute = false := by
    obtain ⟨n, hn, -, hattr⟩ := hc
    exact ⟨n, hn, hattr⟩
  rw [descendants_eq ha hlt, List.pairwise_cons, List.pairwise_flatMap]
  refine ⟨fun j hj => ?_, fun c hc => ?_, ?_⟩
  · obtain ⟨c, hc, hj⟩ := List.mem_flatMap.mp hj
    have hchild := (mem_children ha hlt).mp hc
    have := ha.child_lt hchild
    have := le_of_mem_chain ((mem_descendants ha c (hnode hchild)).mp hj).2
    omega
  · have hchild := (mem_children ha hlt).mp hc
    have hidc := ha.child_lt hchild
    have hcsize := hchild.lt_size
    exact descendants_sorted ha c (hnode hchild)
  · -- all that is inside a child comes before the next child
    obtain ⟨n, hn, -⟩ := hid
    rw [children_eq hn]
    refine (ha.children_lt hn).imp_of_mem fun {c c'} hc hc' hcc x hx y hy => ?_
    rw [Array.mem_toList_iff, ha.child hn] at hc hc'
    obtain ⟨-, hx⟩ := (mem_descendants ha c (hnode hc)).mp hx
    obtain ⟨-, hy⟩ := (mem_descendants ha c' (hnode hc')).mp hy
    exact Nat.lt_of_lt_of_le (ha.preorder hc hc' hcc hx) (le_of_mem_chain hy)
termination_by d.nodes.size - id
decreasing_by omega

/-! ## The tree of a text -/

theorem count_eq_ite {l : List Nat} (hl : l.Pairwise (· < ·)) (c : Nat) (p : Prop) [Decidable p]
    (h : c ∈ l ↔ p) : l.count c = if p then 1 else 0 := by
  have hnodup : l.Nodup := hl.imp fun hlt => Nat.ne_of_lt hlt
  rw [hnodup.count]
  simp only [h]

theorem child_iff {p : Nat} {n : Node} (hn : d.nodes[id]? = some n) (hattr : n.isAttribute = false) :
    Child d.nodes p id ↔ n.parent = some p := by
  simp [Child, hn, hattr]

theorem attr_iff {p : Nat} {n : Node} (hn : d.nodes[id]? = some n) (hattr : n.isAttribute = true) :
    Attr d.nodes p id ↔ n.parent = some p := by
  simp [Attr, hn, hattr]

theorem zero_mem_chain (ha : Arena d.nodes) (h : id < d.nodes.size) : 0 ∈ chain d.nodes id := by
  induction id using Nat.strongRecOn with
  | ind id ih =>
    rcases Nat.eq_zero_or_pos id with rfl | hpos
    · exact mem_chain_self ..
    · obtain ⟨n, hn⟩ : ∃ n, d.nodes[id]? = some n := ⟨_, Array.getElem?_eq_getElem h⟩
      obtain ⟨-, p, hp, hlt⟩ := ha.inner hn hpos
      rw [chain_of_parentAt (parentAt_eq_some.mpr ⟨n, hn, hp⟩) hlt]
      exact List.mem_cons_of_mem _ (ih p hlt (by omega))

theorem mem_ancestors {a : Nat} : a ∈ d.ancestors id ↔ a ∈ chain d.nodes id ∧ a < id := by
  obtain ⟨outer, hcons, hlt⟩ := exists_chain_eq_cons d.nodes id
  rw [ancestors, hcons, List.drop_one, List.tail_cons, List.mem_cons]
  constructor
  · exact fun h => ⟨.inr h, hlt a h⟩
  · exact fun ⟨h, hne⟩ => h.resolve_left (Nat.ne_of_lt hne)

theorem tree_of_arena (ha : Arena d.nodes) : d.Tree := by
  obtain ⟨r, hr, hkind, hparent⟩ := ha.root
  have hroot : ∃ n, d.nodes[0]? = some n ∧ n.isAttribute = false :=
    ⟨r, hr, by simp [isAttribute, Node.attribute?, hkind]⟩
  refine ⟨⟨r, hr, hkind, hparent⟩, fun id n hn hpos => (ha.inner hn hpos).2, ?_, ?_, ?_,
    descendants_sorted ha 0 hroot, fun id => ?_⟩
  · intro id n hn hpos hattr p m hm
    refine count_eq_ite (ha.children_lt hm) id _ ?_
    rw [Array.mem_toList_iff, ha.child hm]
    exact child_iff hn hattr
  · intro id n hn hattr
    have hmem {p : Nat} {m : Node} (hm : d.nodes[p]? = some m) :
        id ∈ m.attributeIds ↔ n.parent = some p := by
      rw [ha.attr hm]
      exact attr_iff hn hattr
    refine ⟨fun p m hm => ⟨fun hc => ?_, ?_⟩, ?_⟩
    · obtain ⟨k, hk, -, hfalse⟩ := (ha.child hm).mp hc
      obtain rfl := Option.some.inj (hn.symm.trans hk)
      rw [hattr] at hfalse
      cases hfalse
    · exact count_eq_ite (ha.attributes_lt hm) id _ (by rw [Array.mem_toList_iff, hmem hm])
    · have hpos : 0 < id := by
        refine Nat.pos_of_ne_zero fun hid => ?_
        subst hid
        obtain rfl := Option.some.inj (hr.symm.trans hn)
        simp [isAttribute, Node.attribute?, hkind] at hattr
      obtain ⟨-, p, hp, hlt⟩ := ha.inner hn hpos
      obtain ⟨m, hm, -⟩ := ha.isAttribute_of_parentAt (parentAt_eq_some.mpr ⟨n, hn, hp⟩)
      refine ⟨p, m, hp, hm, ha.owner hm fun hnil => ?_⟩
      have := (hmem hm).mpr hp
      simp [hnil] at this
  · intro p m hm
    exact ⟨fun c hc => (ha.child hm).mp hc, fun a hc => (ha.attr hm).mp hc⟩
  · rw [mem_descendants ha 0 hroot]
    exact ⟨And.left, fun h => ⟨h, zero_mem_chain ha (lt_size_of_getElem? h.choose_spec.1)⟩⟩

/-- **The nodes of every text form a tree**, whatever the text and the address. -/
theorem parse_tree (text uri : String) : (parse text uri).Tree := by
  obtain ⟨⟨_, h⟩, -⟩ := Builder.build_spec text (isDtdUri uri)
  exact tree_of_arena h.arena

/-! ## The spans -/

/-- The spans of the nodes: none is empty unless the text is, every part of a node lies inside it,
and a child ends before the next one starts. -/
structure SpansNest (d : Document) : Prop where
  bounds : ∀ id n, d.node? id = some n → n.span.start ≤ n.span.stop ∧ n.span.stop ≤ d.size
  nonempty : ∀ id n, d.node? id = some n → n.span.start < n.span.stop ∨
    (d.text = "" ∧ (n.kind = .document ∨ ∃ t, n.kind = .doctype t ∧ t.synthetic = true))
  child : ∀ id, ∀ c ∈ d.children id,
    (d.span id).start ≤ (d.span c).start ∧ (d.span c).stop ≤ (d.span id).stop
  attributes : ∀ id, ∀ a ∈ (d.node id).attributeIds,
    (d.span id).start ≤ (d.span a).start ∧ (d.span a).stop ≤ (d.span id).stop
  disjoint : ∀ id, (d.children id).Pairwise fun c c' => (d.span c).stop ≤ (d.span c').start

theorem span_eq {n : Node} (h : d.nodes[id]? = some n) : d.span id = n.span := by
  simp [span, node, Array.getD_eq_getD_getElem?, h]

theorem node_eq {n : Node} (h : d.nodes[id]? = some n) : d.node id = n := by
  simp [node, Array.getD_eq_getD_getElem?, h]

theorem node_eq_default (h : d.nodes[id]? = none) : d.node id = default := by
  simp [node, Array.getD_eq_getD_getElem?, h]

theorem children_eq_nil (h : d.nodes[id]? = none) : d.children id = [] := by
  rw [children, node_eq_default h]
  rfl

theorem attributeIds_eq_empty (h : d.nodes[id]? = none) : (d.node id).attributeIds = #[] := by
  rw [node_eq_default h]
  rfl

theorem kind_of_empty {dtdFile : Bool} {n : Node} (h : (Builder.build "" dtdFile)[id]? = some n) :
    n.kind = .document ∨ ∃ t, n.kind = .doctype t ∧ t.synthetic = true := by
  have hstart : ∀ m ∈ (Builder.start "" dtdFile).nodes,
      m.kind = .document ∨ ∃ t, m.kind = .doctype t ∧ t.synthetic = true := by
    cases dtdFile with
    | false =>
      rw [show (Builder.start "" false).nodes = #[{ span := ⟨0, 0⟩ }] from rfl]
      simp
    | true =>
      rw [show (Builder.start "" true).nodes =
        #[{ span := ⟨0, 0⟩, children := #[1] },
          { span := ⟨0, 0⟩, parent := some 0, kind := .doctype { synthetic := true } }] from rfl]
      simp
  have hnodes : Builder.build "" dtdFile = Builder.finish "" (Builder.start "" dtdFile) := by
    have htokens (x : Lexer) : x.tokens "" = [] := Lexer.tokens_at_end (Nat.zero_le _)
    rw [Builder.build, htokens]
    rfl
  have hflush : (Builder.start "" dtdFile).flushEndTag 0 none = Builder.start "" dtdFile :=
    Builder.flushEndTag_eq (by cases dtdFile <;> rfl)
  rw [hnodes, Builder.finish, show Text.size "" = 0 from rfl, hflush, Builder.foldl_extend, Builder.getElem?_reach] at h
  obtain ⟨m, hm, rfl⟩ := Option.map_eq_some_iff.mp h
  have := hstart m (Array.mem_of_getElem? hm)
  split <;> exact this

theorem bounds_parse (text uri : String) (id : Nat) (n : Node) (hn : (parse text uri).node? id = some n) :
    n.span.start ≤ n.span.stop ∧ n.span.stop ≤ (parse text uri).size := by
  obtain ⟨⟨_, h⟩, -⟩ := Builder.build_spec text (isDtdUri uri)
  rcases Nat.lt_or_ge (isDtdUri uri).toNat id with hid | hid
  · obtain ⟨hlt, hstop⟩ := h.inner hn hid
    exact ⟨Nat.le_of_lt hlt, hstop⟩
  · rw [(h.outer hn hid).1]
    exact ⟨Nat.zero_le _, Nat.le_refl _⟩

theorem disjoint_parse (text uri : String) (id : Nat) : ((parse text uri).children id).Pairwise fun c c' =>
    ((parse text uri).span c).stop ≤ ((parse text uri).span c').start := by
  obtain ⟨⟨_, h⟩, -⟩ := Builder.build_spec text (isDtdUri uri)
  cases hm : (parse text uri).nodes[id]? with
  | none => simp [children_eq_nil hm]
  | some m =>
    rw [children_eq hm]
    refine (h.arena.children_lt hm).imp_of_mem fun {c c'} hc hc' hcc => ?_
    rw [Array.mem_toList_iff, h.arena.child hm] at hc hc'
    have hn := Array.getElem?_eq_getElem hc.lt_size
    have hn' := Array.getElem?_eq_getElem hc'.lt_size
    rw [span_eq hn, span_eq hn']
    exact h.disjoint hc hc' hcc hn hn'

/-- **The spans of every text nest**, whatever the text and the address. -/
theorem parse_spans (text uri : String) : (parse text uri).SpansNest := by
  obtain ⟨⟨_, h⟩, hsealed⟩ := Builder.build_spec text (isDtdUri uri)
  have hpart {id p : Nat} {n m : Node} (hm : (parse text uri).nodes[p]? = some m)
      (hn : (parse text uri).nodes[id]? = some n) (hp : n.parent = some p) :
      m.span.start ≤ n.span.start ∧ n.span.stop ≤ m.span.stop :=
    ⟨h.start_le hn hp hm, hsealed p hm hn hp⟩
  refine ⟨bounds_parse text uri, fun id n hn => ?_, fun id c hc => ?_, fun id a ha => ?_, disjoint_parse text uri⟩
  · rcases Nat.lt_or_ge (isDtdUri uri).toNat id with hid | hid
    · exact .inl (h.inner hn hid).1
    · by_cases hempty : text = ""
      · subst hempty
        exact .inr ⟨rfl, kind_of_empty hn⟩
      · rw [(h.outer hn hid).1]
        exact .inl (Nat.pos_of_ne_zero fun hzero => hempty (String.utf8ByteSize_eq_zero_iff.mp hzero))
  · cases hm : (parse text uri).nodes[id]? with
    | none => simp [children_eq_nil hm] at hc
    | some m =>
      obtain ⟨n, hn, hp, -⟩ := (mem_children h.arena (lt_size_of_getElem? hm)).mp hc
      rw [span_eq hm, span_eq hn]
      exact hpart hm hn hp
  · cases hm : (parse text uri).nodes[id]? with
    | none => simp [attributeIds_eq_empty hm] at ha
    | some m =>
      rw [node_eq hm, h.arena.attr hm] at ha
      obtain ⟨n, hn, hp, -⟩ := ha
      rw [span_eq hm, span_eq hn]
      exact hpart hm hn hp

end Document

end XmlAssist
