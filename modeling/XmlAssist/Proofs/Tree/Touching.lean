import XmlAssist.Proofs.Tree.Attributes
import XmlAssist.Proofs.Tree.InOrder
import XmlAssist.Proofs.Tree.Inside

/-!
# The attribute at an offset

An attribute may end where the cursor is, but the node that is looked up has to go on there. The node is the owner of
the attribute, or a child of the owner that starts where the attribute ends; so to look in the node and in the one
around it finds the attribute. It does not if the owner ends there as well, as it does before the end tag of a node
around it (`Document.EndsWithOwner`): then the node that goes on may be anywhere around.
-/

namespace XmlAssist.Document

open Node

variable {d : Document} {text uri : String} {id a p c offset : Nat} {A : Attribute}

/-- The cursor at `offset` is in the attribute, or right behind it. -/
structure Touches (d : Document) (offset id : Nat) (A : Attribute) : Prop where
  found : (d.node id).attribute? = some A
  span : (d.span id).touches offset = true

/-- The attribute ends inside the text at `offset`, and so does the node that it belongs to. -/
def EndsWithOwner (d : Document) (offset id : Nat) : Prop :=
  offset < d.size ∧ (d.span id).stop = offset ∧ ∃ p, (d.node id).parent = some p ∧ (d.span p).stop = offset

/-- What is found at `offset` is an attribute there, and one is found if there is one that is not `hidden`. -/
structure FindsAttributes (d : Document) (offset : Nat) (hidden : Nat → Prop) : Prop where
  sound : ∀ id A, d.attributeAt? offset = some (id, A) → d.Touches offset id A
  isSome_iff : (d.attributeAt? offset).isSome = true ↔ ∃ id A, d.Touches offset id A ∧ ¬ hidden id

theorem touches_iff {sp : Span} : sp.touches offset = true ↔ sp.start ≤ offset ∧ offset ≤ sp.stop := by
  simp [Span.touches]

theorem start_lt_child (hp : parentAt (parse text uri).nodes c = some p) (hpos : 0 < ((parse text uri).span p).start) :
    ((parse text uri).span p).start < ((parse text uri).span c).start := by
  obtain ⟨⟨_, h⟩, -⟩ := Builder.build_spec text (isDtdUri uri)
  obtain ⟨n, hn, hparent⟩ := parentAt_eq_some.mp hp
  obtain ⟨m, hm, -⟩ := h.arena.isAttribute_of_parentAt hp
  rw [span_eq hm] at hpos
  rw [span_eq hn, span_eq hm]
  exact h.start_lt hn hparent hm hpos

theorem attribute_start_lt_stop (hA : ((parse text uri).node a).attribute? = some A) :
    ((parse text uri).span a).start < ((parse text uri).span a).stop := by
  obtain ⟨⟨_, h⟩, -⟩ := Builder.build_spec text (isDtdUri uri)
  obtain ⟨n, hn, hk⟩ := exists_node_of_attribute? hA
  rw [span_eq hn]
  exact (h.inner hn (h.top_lt hn (by rw [hk]; rintro ⟨⟩) (by rw [isDoctype, Node.doctype?, hk]; rfl))).1

theorem Complete.mem_attributes_iff (h : Complete d) (hp : p < d.nodes.size) :
    (a, A) ∈ d.attributes p ↔ parentAt d.nodes a = some p ∧ (d.node a).attribute? = some A := by
  have hn := Array.getElem?_eq_getElem hp
  have hmem : (a, A) ∈ d.attributes p ↔ a ∈ (d.node p).attributeIds ∧ (d.node a).attribute? = some A := by
    simp only [attributes, List.mem_filterMap, Array.mem_toList_iff, Option.map_eq_some_iff, Prod.mk.injEq]
    constructor
    · rintro ⟨c, hc, A', hA', rfl, rfl⟩
      exact ⟨hc, hA'⟩
    · rintro ⟨ha, hA⟩
      exact ⟨a, ha, A, hA, rfl, rfl⟩
  rw [hmem, node_eq hn, h.arena.attr hn]
  refine and_congr_left fun hA => ?_
  constructor
  · rintro ⟨m, hm, hparent, -⟩
    exact parentAt_eq_some.mpr ⟨m, hm, hparent⟩
  · intro hparent
    obtain ⟨m, hm, hparent⟩ := parentAt_eq_some.mp hparent
    refine ⟨m, hm, hparent, ?_⟩
    rw [node_eq hm] at hA
    simp [isAttribute, hA]

theorem Complete.exists_owner (h : Complete d) (hA : (d.node a).attribute? = some A) :
    ∃ p, parentAt d.nodes a = some p ∧ Attr d.nodes p a := by
  obtain ⟨n, hn, hk⟩ := exists_node_of_attribute? hA
  have hattr : n.isAttribute = true := by simp [isAttribute, Node.attribute?, hk]
  have hpos : 0 < a := by
    refine Nat.pos_of_ne_zero ?_
    rintro rfl
    obtain ⟨r, hr, hroot, -⟩ := h.arena.root
    obtain rfl := Option.some.inj (hn.symm.trans hr)
    cases hk.symm.trans hroot
  obtain ⟨-, p, hp, -⟩ := h.arena.inner hn hpos
  exact ⟨p, parentAt_eq_some.mpr ⟨n, hn, hp⟩, n, hn, hp, hattr⟩

theorem parent_node (d : Document) (id : Nat) : (d.node id).parent = parentAt d.nodes id := by
  rw [node, Array.getD_eq_getD_getElem?, parentAt]
  cases d.nodes[id]? <;> rfl

theorem attributeAt?_eq (d : Document) (offset : Nat) : d.attributeAt? offset =
    (d.attributeOn? (d.nodeAt offset) offset).or
      ((parentAt d.nodes (d.nodeAt offset)).bind fun p => d.attributeOn? p offset) := by
  rw [attributeAt?, ← parent_node]
  cases d.attributeOn? (d.nodeAt offset) offset <;> rfl

theorem attributeOn?_isSome (h : Complete d) (hp : parentAt d.nodes a = some p) (hA : d.Touches offset a A) :
    (d.attributeOn? p offset).isSome = true := by
  obtain ⟨m, hm, -⟩ := h.arena.isAttribute_of_parentAt hp
  rw [attributeOn?, List.find?_isSome]
  exact ⟨(a, A), (h.mem_attributes_iff (lt_size_of_getElem? hm)).mpr ⟨hp, hA.found⟩, hA.span⟩

theorem Complete.nodeAt_node (h : Complete d) (offset : Nat) :
    ∃ n, d.nodes[d.nodeAt offset]? = some n ∧ n.isAttribute = false :=
  (h.mem_chain_of_descends (h.descends 0 (lt_size_of_getElem? h.exists_root.choose_spec.1)) h.exists_root).1

/-- What is found is an attribute of a node, which belongs to the innermost node there or to the one around it. -/
theorem Complete.of_attributeAt? (h : Complete d) (hfound : d.attributeAt? offset = some (a, A)) :
    d.Touches offset a A ∧ ∃ p, parentAt d.nodes a = some p ∧
      (p = d.nodeAt offset ∨ parentAt d.nodes (d.nodeAt offset) = some p) := by
  have hon {p : Nat} (hp : p < d.nodes.size) (hfind : d.attributeOn? p offset = some (a, A)) :
      d.Touches offset a A ∧ parentAt d.nodes a = some p := by
    obtain ⟨hparent, hA⟩ := (h.mem_attributes_iff hp).mp (List.mem_of_find?_eq_some hfind)
    have htouches : (d.span a).touches offset = true := List.find?_some (a := (a, A)) hfind
    exact ⟨⟨hA, htouches⟩, hparent⟩
  rw [attributeAt?_eq, Option.or_eq_some_iff] at hfound
  rcases hfound with hfound | ⟨-, hfound⟩
  · obtain ⟨htouches, hp⟩ := hon (lt_size_of_getElem? (h.nodeAt_node offset).choose_spec.1) hfound
    exact ⟨htouches, _, hp, .inl rfl⟩
  · obtain ⟨p, hp, hfound⟩ := Option.bind_eq_some_iff.mp hfound
    obtain ⟨m, hm, -⟩ := h.arena.isAttribute_of_parentAt hp
    obtain ⟨htouches, hparent⟩ := hon (lt_size_of_getElem? hm) hfound
    exact ⟨htouches, p, hparent, .inr hp⟩

/-- At an attribute the innermost node is the owner or a child of the owner, unless both end there. -/
theorem nodeAt_attribute (hA : (parse text uri).Touches offset a A) (hattr : Attr (parse text uri).nodes p a)
    (hends : ¬ (offset < (parse text uri).size ∧ ((parse text uri).span a).stop = offset ∧
      ((parse text uri).span p).stop = offset)) :
    (parse text uri).nodeAt offset = p ∨
      parentAt (parse text uri).nodes ((parse text uri).nodeAt offset) = some p := by
  have h := complete_parse text uri
  have hbeside {c : Nat} (hc : Child (parse text uri).nodes p c) := attribute_beside_child hattr hc
  obtain ⟨n, hn, hparent, -⟩ := hattr
  have hat := parentAt_eq_some.mpr ⟨n, hn, hparent⟩
  have hsize := lt_size_of_getElem? hn
  have howner := h.arena.isAttribute_of_parentAt hat
  obtain ⟨hstart, hstop⟩ := touches_iff.mp hA.span
  obtain ⟨hinside, hreach⟩ := h.inside hat
  have hwhole := h.stop_le (lt_size_of_getElem? howner.choose_spec.1)
  have hlt := attribute_start_lt_stop hA.found
  rcases Nat.lt_or_ge offset ((parse text uri).span p).stop with hin | hout
  · by_cases hchild : ∃ c, Child (parse text uri).nodes p c ∧ ((parse text uri).span c).start ≤ offset ∧
      offset < ((parse text uri).span c).stop
    · -- a child around the offset starts where the attribute ends, so its own children start farther on
      obtain ⟨c, hc, hcstart, hcstop⟩ := hchild
      obtain ⟨k, hk, hkp, hkattr⟩ := hc
      right
      have hside := hbeside ⟨k, hk, hkp, hkattr⟩
      have hfound : (parse text uri).nodeAt offset = c := by
        refine h.nodeAt_eq ⟨k, hk, hkattr⟩ hcstart hcstop fun e he => .inr ?_
        have := start_lt_child he.parentAt (by omega)
        omega
      rw [hfound]
      exact parentAt_eq_some.mpr ⟨k, hk, hkp⟩
    · left
      refine h.nodeAt_eq howner (by omega) hin fun c hc => ?_
      rcases Nat.lt_or_ge offset ((parse text uri).span c).start with hbehind | hbefore
      · exact .inr hbehind
      · exact .inl (Nat.le_of_not_lt fun hcstop => hchild ⟨c, hc, hbefore, hcstop⟩)
  · -- the attribute and its owner end with the text, where the owner has no room for a child
    left
    have hend : offset = (parse text uri).size := by omega
    have hmem : p ∈ chain (parse text uri).nodes ((parse text uri).nodeAt offset) :=
      h.mem_chain_nodeAt howner (by omega) (.inr ⟨by omega, hend, by omega⟩)
    refine Decidable.byContradiction fun hne => ?_
    obtain ⟨c, hc, hmember⟩ := exists_child_of_mem_chain h.arena (h.nodeAt_node offset) hmem fun heq => hne heq.symm
    have hside := hbeside hc
    obtain ⟨-, hfound⟩ := h.span_nodeAt (Nat.le_of_eq hend)
    have := (h.span_of_mem_chain hmember).2
    have := h.stop_le hc.lt_size
    have := h.nonempty hc.lt_size (by omega)
    omega

/-- **The attribute at an offset** of every text, whatever the text and the address: one is found wherever there is one,
unless it ends there with its owner inside the text. -/
theorem parse_attributeAt (text uri : String) (offset : Nat) :
    (parse text uri).FindsAttributes offset ((parse text uri).EndsWithOwner offset) := by
  have h := complete_parse text uri
  refine ⟨fun a A hfound => (h.of_attributeAt? hfound).1, fun hsome => ?_, fun ⟨a, A, hA, hends⟩ => ?_⟩
  · obtain ⟨⟨a, A⟩, hfound⟩ := Option.isSome_iff_exists.mp hsome
    obtain ⟨htouches, p, hp, hnode⟩ := h.of_attributeAt? hfound
    refine ⟨a, A, htouches, ?_⟩
    rintro ⟨hin, -, q, hq, hstop⟩
    rw [parent_node, hp, Option.some.injEq] at hq
    subst hq
    -- the node that is found goes on at the offset, and so does the one around it
    obtain ⟨-, hgoes | ⟨hend, -⟩⟩ := h.span_nodeAt (Nat.le_of_lt hin)
    · rcases hnode with rfl | hparent
      · omega
      · have := (h.inside hparent).2
        omega
    · omega
  · obtain ⟨p, hp, hattr⟩ := h.exists_owner hA.found
    have hnode := nodeAt_attribute hA hattr fun ⟨hin, hstop, hreach⟩ =>
      hends ⟨hin, hstop, p, (parent_node _ a).trans hp, hreach⟩
    rw [attributeAt?_eq, Option.isSome_or, Bool.or_eq_true]
    rcases hnode with rfl | hparent
    · exact .inl (attributeOn?_isSome h hp hA)
    · rw [hparent]
      exact .inr (attributeOn?_isSome h hp hA)

/-- Where the end tag of `a` ends `b` and its attribute, the attribute is right before the cursor and is not found. -/
theorem attribute_before_endTag : ¬ (parse "<a><b x=1</a>" "file:///t.xml").FindsAttributes 9 (fun _ => False) := by
  intro h
  have hnone : (parse "<a><b x=1</a>" "file:///t.xml").attributeAt? 9 = none := by decide +kernel
  have hattribute : ((parse "<a><b x=1</a>" "file:///t.xml").node 3).attribute?.isSome = true := by decide +kernel
  have htouches : ((parse "<a><b x=1</a>" "file:///t.xml").span 3).touches 9 = true := by decide +kernel
  obtain ⟨A, hA⟩ := Option.isSome_iff_exists.mp hattribute
  have hsome := h.isSome_iff.mpr ⟨3, A, ⟨hA, htouches⟩, not_false⟩
  rw [hnone] at hsome
  cases hsome

end XmlAssist.Document
