import XmlAssist.Proofs.Tree.Lookup

/-!
# The node that a cursor is behind

`nodeBefore` goes inwards to the last child that starts before the cursor. Siblings are sorted and disjoint,
so this is the child around the character before the cursor, and every node around that character is on the
way (`Complete.mem_chain_nodeBefore`).
-/

namespace XmlAssist.Document

open Node

variable {d : Document} {id c k offset : Nat}

/-- The last child that starts before `offset`. -/
def lastBefore? (d : Document) (offset id : Nat) : Option Nat :=
  ((d.children id).takeWhile fun c => (d.span c).start < offset).getLast?

/-- The node ends where its last child does. -/
def endsWithChild (d : Document) (id : Nat) : Bool :=
  (d.children id).getLast?.any fun last => (d.span last).stop == (d.span id).stop

theorem nodeBeforeFrom_eq (d : Document) (offset id : Nat) :
    d.nodeBeforeFrom offset id = match d.lastBefore? offset id with
      | none => id
      | some c =>
        if (d.span c).stop ≤ offset && !d.endsWithChild c then c
        else if id < c ∧ c < d.nodes.size then d.nodeBeforeFrom offset c
        else id := by
  rw [nodeBeforeFrom, lastBefore?]
  cases ((d.children id).takeWhile fun c => (d.span c).start < offset).getLast? with
  | none => rfl
  | some c =>
    dsimp only [endsWithChild]
    rcases Option.eq_none_or_eq_some (d.children c).getLast? with hlast | ⟨last, hlast⟩ <;>
      simp only [hlast, Option.any_none, Option.any_some]

/-- The child around the character before the cursor is the last one that starts before the cursor. -/
theorem Complete.lastBefore?_eq_some (h : Complete d) (hid : id < d.nodes.size) (hc : Child d.nodes id c)
    (hstart : (d.span c).start < offset) (hstop : offset ≤ (d.span c).stop) :
    d.lastBefore? offset id = some c := by
  obtain ⟨before, behind, hsplit⟩ := List.append_of_mem ((mem_children h.arena hid).mpr hc)
  have hpair := h.children_disjoint hid
  have hle {c' : Nat} (hc' : c' ∈ d.children id) : (d.span c').start ≤ (d.span c').stop := by
    have hlt := ((mem_children h.arena hid).mp hc').lt_size
    have hpos : 0 < d.size := by
      have := h.stop_le hc.lt_size
      omega
    exact Nat.le_of_lt (h.nonempty hlt hpos)
  rw [hsplit, List.pairwise_append] at hpair
  obtain ⟨-, hbehind, hbefore⟩ := hpair
  have htake : (d.children id).takeWhile (fun c => (d.span c).start < offset) = before ++ [c] := by
    rw [hsplit, List.takeWhile_append_of_pos fun a ha => ?_, List.takeWhile_cons_of_pos (by simpa using hstart)]
    · cases behind with
      | nil => rfl
      | cons b behind =>
        have hb := (List.pairwise_cons.mp hbehind).1 b List.mem_cons_self
        rw [List.takeWhile_cons_of_neg (by simp; omega)]
    · have hstop := hbefore a ha c List.mem_cons_self
      have hstart' := hle (hsplit ▸ List.mem_append_left _ ha)
      simp only [decide_eq_true_eq]
      omega
  rw [lastBefore?, htake, List.getLast?_concat]

theorem Complete.endsWithChild_of_mem_chain (h : Complete d)
    (hk : ∃ n, d.nodes[k]? = some n ∧ n.isAttribute = false)
    (hout : id ∈ chain d.nodes k) (hne : id ≠ k) (hstop : (d.span k).stop = (d.span id).stop)
    (hpos : 0 < d.size) : d.endsWithChild id = true := by
  obtain ⟨c, hc, hmem⟩ := exists_child_of_mem_chain h.arena hk hout hne
  have hid := lt_size_of_mem_chain (lt_size_of_getElem? hk.choose_spec.1) hout
  have hinside := h.span_of_mem_chain hmem
  have hparent := h.inside hc.parentAt
  have hmember := (mem_children h.arena hid).mpr hc
  obtain ⟨last, hlast⟩ : ∃ last, (d.children id).getLast? = some last :=
    Option.isSome_iff_exists.mp (List.getLast?_isSome.mpr (List.ne_nil_of_mem hmember))
  obtain ⟨before, hsplit⟩ := List.getLast?_eq_some_iff.mp hlast
  have hchild := (mem_children h.arena hid).mp (List.mem_of_getLast? hlast)
  have hin := h.inside hchild.parentAt
  have hsome := h.nonempty hchild.lt_size hpos
  have hpair := h.children_disjoint hid
  rw [hsplit, List.pairwise_append] at hpair
  rw [endsWithChild, hlast, Option.any_some, beq_iff_eq]
  rw [hsplit, List.mem_append, List.mem_singleton] at hmember
  rcases hmember with hbefore | rfl
  · have := hpair.2.2 c hbefore last (List.mem_singleton_self _)
    omega
  · omega

theorem Complete.child_of_lastBefore? (h : Complete d) (hid : id < d.nodes.size)
    (hc : d.lastBefore? offset id = some c) : Child d.nodes id c :=
  (mem_children h.arena hid).mp ((List.takeWhile_sublist _).subset (List.mem_of_getLast? hc))

theorem Complete.mem_chain_nodeBeforeFrom (h : Complete d) (id : Nat)
    (hid : ∃ n, d.nodes[id]? = some n ∧ n.isAttribute = false) :
    (∃ n, d.nodes[d.nodeBeforeFrom offset id]? = some n ∧ n.isAttribute = false) ∧
      id ∈ chain d.nodes (d.nodeBeforeFrom offset id) := by
  rw [nodeBeforeFrom_eq]
  cases hc : d.lastBefore? offset id with
  | none => exact ⟨hid, mem_chain_self ..⟩
  | some c =>
    have hchild := h.child_of_lastBefore? (lt_size_of_getElem? hid.choose_spec.1) hc
    have hlt := h.arena.child_lt hchild
    have hout := parentAt_mem_chain hchild.parentAt hlt
    have hnode : ∃ n, d.nodes[c]? = some n ∧ n.isAttribute = false := by
      obtain ⟨n, hn, -, hattr⟩ := hchild
      exact ⟨n, hn, hattr⟩
    have hsize := hchild.lt_size
    dsimp only
    split
    · exact ⟨hnode, hout⟩
    · rw [if_pos ⟨hlt, hsize⟩]
      obtain ⟨hfound, hmem⟩ := h.mem_chain_nodeBeforeFrom c hnode
      exact ⟨hfound, mem_chain_trans hmem hout⟩
termination_by d.nodes.size - id

theorem Complete.exists_nodeBefore (h : Complete d) (offset : Nat) :
    ∃ n, d.nodes[d.nodeBefore offset]? = some n ∧ n.isAttribute = false := by
  obtain ⟨root, hroot, hkind, -⟩ := h.arena.root
  exact (h.mem_chain_nodeBeforeFrom 0 ⟨root, hroot, by simp [isAttribute, Node.attribute?, hkind]⟩).1

theorem Complete.mem_chain_nodeBeforeFrom_of_around (h : Complete d)
    (hk : ∃ n, d.nodes[k]? = some n ∧ n.isAttribute = false) (hstart : (d.span k).start < offset)
    (hstop : offset ≤ (d.span k).stop) (id : Nat) (hout : id ∈ chain d.nodes k) :
    k ∈ chain d.nodes (d.nodeBeforeFrom offset id) := by
  have hlt := lt_size_of_getElem? hk.choose_spec.1
  have hid := lt_size_of_mem_chain hlt hout
  by_cases hne : id = k
  · subst hne
    exact (h.mem_chain_nodeBeforeFrom id hk).2
  · obtain ⟨c, hc, hmem⟩ := exists_child_of_mem_chain h.arena hk hout hne
    have hinside := h.span_of_mem_chain hmem
    have hcid := h.arena.child_lt hc
    rw [nodeBeforeFrom_eq, h.lastBefore?_eq_some hid hc (by omega) (by omega)]
    dsimp only
    split
    · rename_i hends
      rw [Bool.and_eq_true, decide_eq_true_eq, Bool.not_eq_true'] at hends
      by_cases hck : c = k
      · exact hck ▸ mem_chain_self ..
      · have hpos : 0 < d.size := by
          have := h.stop_le hlt
          omega
        cases hends.2.symm.trans (h.endsWithChild_of_mem_chain hk hmem hck (by omega) hpos)
    · rw [if_pos ⟨hcid, hc.lt_size⟩]
      exact h.mem_chain_nodeBeforeFrom_of_around hk hstart hstop c hmem
termination_by d.nodes.size - id

/-- **Every node around the character before the cursor** is the node that the cursor is behind, or around
it. -/
theorem Complete.mem_chain_nodeBefore (h : Complete d) (hk : ∃ n, d.nodes[k]? = some n ∧ n.isAttribute = false)
    (hstart : (d.span k).start < offset) (hstop : offset ≤ (d.span k).stop) :
    k ∈ chain d.nodes (d.nodeBefore offset) :=
  h.mem_chain_nodeBeforeFrom_of_around hk hstart hstop 0
    (zero_mem_chain h.arena (lt_size_of_getElem? hk.choose_spec.1))

/-! ## The way to the node before the cursor -/

/-- The way leads from each node to the last child that starts before the cursor, and goes on from a child that
ends there only if that ends with a child of its own. -/
theorem Complete.lastBefore?_of_mem_chain (h : Complete d) (id : Nat)
    (hid : ∃ n, d.nodes[id]? = some n ∧ n.isAttribute = false)
    (hk : k ∈ chain d.nodes (d.nodeBeforeFrom offset id)) (hlt : id < k) :
    ∃ a, Child d.nodes a k ∧ d.lastBefore? offset a = some k ∧
      (a ≠ id → (d.span a).stop ≤ offset → d.endsWithChild a = true) := by
  rw [nodeBeforeFrom_eq] at hk
  cases hc : d.lastBefore? offset id with
  | none =>
    rw [hc] at hk
    exact absurd (le_of_mem_chain hk) (Nat.not_le_of_lt hlt)
  | some c =>
    have hchild := h.child_of_lastBefore? (lt_size_of_getElem? hid.choose_spec.1) hc
    have hcid := h.arena.child_lt hchild
    -- what is not outside of the child is the child itself or inside of it
    have hout (hmem : k ∈ chain d.nodes c) : k = c := by
      refine Decidable.byContradiction fun hne => ?_
      exact absurd (le_of_mem_chain (mem_chain_of_ne hchild.parentAt hcid hmem hne)) (Nat.not_le_of_lt hlt)
    rw [hc] at hk
    dsimp only at hk
    split at hk
    · obtain rfl := hout hk
      exact ⟨id, hchild, hc, fun hne => absurd rfl hne⟩
    · rename_i hends
      rw [if_pos ⟨hcid, hchild.lt_size⟩] at hk
      have hnode : ∃ n, d.nodes[c]? = some n ∧ n.isAttribute = false := by
        obtain ⟨n, hn, -, hattr⟩ := hchild
        exact ⟨n, hn, hattr⟩
      have hsize := hchild.lt_size
      have hmem : c ∈ chain d.nodes (d.nodeBeforeFrom offset c) := (h.mem_chain_nodeBeforeFrom c hnode).2
      rcases Nat.lt_or_ge c k with hck | hkc
      · obtain ⟨a, ha, hlast, hend⟩ := h.lastBefore?_of_mem_chain c hnode hk hck
        refine ⟨a, ha, hlast, fun _ hstop => ?_⟩
        by_cases hac : a = c
        · subst hac
          simpa [hstop] using hends
        · exact hend hac hstop
      · obtain rfl := hout (mem_chain_of_le hk hmem hkc)
        exact ⟨id, hchild, hc, fun hne => absurd rfl hne⟩
termination_by d.nodes.size - id

theorem start_lt_of_lastBefore? (h : d.lastBefore? offset id = some c) : (d.span c).start < offset := by
  have hmem := List.mem_takeWhile_imp (List.mem_of_getLast? h)
  simpa using hmem

theorem Complete.start_lt_of_mem_chain_nodeBefore (h : Complete d) (hk : k ∈ chain d.nodes (d.nodeBefore offset))
    (hpos : 0 < k) : (d.span k).start < offset := by
  obtain ⟨a, -, hlast, -⟩ := h.lastBefore?_of_mem_chain 0 h.exists_root hk hpos
  exact start_lt_of_lastBefore? hlast

/-- On from a node that ends before the cursor the way leads to a child that ends there as well. -/
theorem Complete.stop_eq_of_mem_chain_nodeBefore (h : Complete d) (hc : c ∈ chain d.nodes (d.nodeBefore offset))
    (hchild : Child d.nodes id c) (hid : 0 < id) (hstop : (d.span id).stop ≤ offset) :
    (d.span c).stop = (d.span id).stop := by
  have hlt := h.arena.child_lt hchild
  obtain ⟨a, ha, hlast, hend⟩ := h.lastBefore?_of_mem_chain 0 h.exists_root hc (Nat.lt_trans hid hlt)
  obtain rfl := Option.some.inj (hchild.parentAt.symm.trans ha.parentAt)
  have hends := hend (Nat.ne_of_gt hid) hstop
  rw [endsWithChild, Option.any_eq_true] at hends
  obtain ⟨last, hlast', hsame⟩ := hends
  rw [beq_iff_eq] at hsame
  -- the last child starts before the cursor, and so do all in front of it
  have hsize := lt_size_of_mem_chain hchild.lt_size (parentAt_mem_chain hchild.parentAt hlt)
  have hlastChild := (mem_children h.arena hsize).mp (List.mem_of_getLast? hlast')
  rcases Nat.eq_zero_or_pos d.size with hzero | hpos
  · have := h.stop_le hsize
    have := h.stop_le hchild.lt_size
    omega
  have hall : (d.children id).takeWhile (fun c => (d.span c).start < offset) = d.children id := by
    rw [List.takeWhile_eq_self_iff]
    intro x hx
    obtain ⟨before, hsplit⟩ := List.getLast?_eq_some_iff.mp hlast'
    have hpair := h.children_disjoint hsize
    have hnonempty := h.nonempty hlastChild.lt_size hpos
    have hx' := (mem_children h.arena hsize).mp hx
    have hxempty := h.nonempty hx'.lt_size hpos
    rw [hsplit, List.mem_append, List.mem_singleton] at hx
    rw [hsplit, List.pairwise_append] at hpair
    rw [decide_eq_true_eq]
    rcases hx with hx | rfl
    · have := hpair.2.2 x hx last (List.mem_singleton_self _)
      omega
    · omega
  rw [lastBefore?, hall, hlast', Option.some_inj] at hlast
  rw [← hlast, hsame]

end XmlAssist.Document
