import Mathlib.Data.List.TakeWhile
import XmlAssist.Proofs.Tree.Shape

/-!
# The node at an offset

`nodeAt` goes from the document inwards. Inside the text each step goes to the one child around the
offset, as siblings are sorted and disjoint; so it ends at the innermost node around the offset, and
all nodes around the offset are on its way. Behind the text each step goes to the last child, as
long as that child reaches the end of the text.
-/

namespace XmlAssist.Document

open Node

variable {d : Document} {id c j offset : Nat}

/-! ## Documents that were read to the end -/

/-- The spans of the nodes lie inside each other as the nodes do. -/
structure Complete (d : Document) : Prop where
  arena : Arena d.nodes
  whole : d.span 0 = ⟨0, d.size⟩
  stop_le : ∀ {id}, id < d.nodes.size → (d.span id).stop ≤ d.size
  start_le : ∀ {id}, id < d.nodes.size → (d.span id).start ≤ d.size
  nonempty : ∀ {id}, id < d.nodes.size → 0 < d.size → (d.span id).start < (d.span id).stop
  inside : ∀ {p id}, parentAt d.nodes id = some p →
    (d.span p).start ≤ (d.span id).start ∧ (d.span id).stop ≤ (d.span p).stop
  disjoint : ∀ {p c c'}, Child d.nodes p c → Child d.nodes p c' → c < c' →
    (d.span c).stop ≤ (d.span c').start

theorem complete_parse (text uri : String) : (parse text uri).Complete := by
  obtain ⟨⟨_, h⟩, hsealed⟩ := Builder.build_spec text (isDtdUri uri)
  have hget {id : Nat} (hid : id < (parse text uri).nodes.size) :=
    Array.getElem?_eq_getElem hid
  refine ⟨h.arena, ?_, fun hid => ?_, fun hid => ?_, fun hid hpos => ?_, fun hp => ?_,
    fun hc hc' hlt => ?_⟩
  · obtain ⟨n, hn, -⟩ := h.arena.root
    rw [span_eq hn]
    exact (h.outer hn (Nat.zero_le _)).1
  · rw [span_eq (hget hid)]
    exact (h.span_le (hget hid)).2
  · rw [span_eq (hget hid)]
    exact (h.span_le (hget hid)).1
  · rw [span_eq (hget hid)]
    rcases Nat.lt_or_ge (isDtdUri uri).toNat _ with hin | hout
    · exact (h.inner (hget hid) hin).1
    · rw [(h.outer (hget hid) hout).1]
      exact hpos
  · obtain ⟨n, hn, hparent⟩ := parentAt_eq_some.mp hp
    obtain ⟨m, hm, -⟩ := h.arena.isAttribute_of_parentAt hp
    rw [span_eq hn, span_eq hm]
    exact ⟨h.start_le hn hparent hm, hsealed _ hm hn hparent⟩
  · rw [span_eq (hget hc.lt_size), span_eq (hget hc'.lt_size)]
    exact h.disjoint hc hc' hlt (hget hc.lt_size) (hget hc'.lt_size)

theorem Complete.start_le_stop (h : Complete d) (hid : id < d.nodes.size) : (d.span id).start ≤ (d.span id).stop := by
  rcases Nat.eq_zero_or_pos d.size with hzero | hpos
  · have := h.start_le hid
    omega
  · exact Nat.le_of_lt (h.nonempty hid hpos)

theorem Complete.span_of_mem_chain (h : Complete d) (hc : c ∈ chain d.nodes id) :
    (d.span c).start ≤ (d.span id).start ∧ (d.span id).stop ≤ (d.span c).stop := by
  induction id using Nat.strongRecOn with
  | ind id ih =>
    by_cases hid : c = id
    · simp [hid]
    · rcases chain_cases d.nodes id with hone | ⟨p, hp, hlt, -⟩
      · rw [hone, List.mem_singleton] at hc
        exact absurd hc hid
      · have hout := ih p hlt (mem_chain_of_ne hp hlt hc hid)
        have hin := h.inside hp
        omega

theorem Complete.contains_of_mem_chain (h : Complete d) (hc : c ∈ chain d.nodes id)
    (hin : (d.span id).contains offset = true) : (d.span c).contains offset = true := by
  have hspan := h.span_of_mem_chain hc
  simp only [Span.contains, Bool.and_eq_true, decide_eq_true_eq] at hin ⊢
  omega

theorem Complete.children_disjoint (h : Complete d) (hid : id < d.nodes.size) :
    (d.children id).Pairwise fun c c' => (d.span c).stop ≤ (d.span c').start := by
  have hn := Array.getElem?_eq_getElem hid
  rw [children_eq hn]
  refine (h.arena.children_lt hn).imp_of_mem fun {c c'} hc hc' hlt => ?_
  rw [Array.mem_toList_iff, h.arena.child hn] at hc hc'
  exact h.disjoint hc hc' hlt

theorem Complete.child_inside (h : Complete d) (hid : id < d.nodes.size) (hc : c ∈ d.children id) :
    (d.span id).start ≤ (d.span c).start ∧ (d.span c).stop ≤ (d.span id).stop := by
  obtain ⟨n, hn, hparent, -⟩ := (mem_children h.arena hid).mp hc
  exact h.inside (parentAt_eq_some.mpr ⟨n, hn, hparent⟩)

/-! ## The steps -/

/-- The first child that does not end before `offset`, if it contains `offset`. -/
def childAround? (d : Document) (offset id : Nat) : Option Nat :=
  ((d.children id).find? fun c => offset < (d.span c).stop).filter fun c => (d.span c).start ≤ offset

/-- The last child, if it ends where the text does. -/
def endingChild? (d : Document) (id : Nat) : Option Nat :=
  (d.children id).getLast?.filter fun c => (d.span c).stop == d.size

/-- The child that the way to `offset` goes on to. -/
def inward? (d : Document) (offset id : Nat) : Option Nat :=
  (d.childAround? offset id).or <|
    if d.size ≤ offset then (d.endingChild? id).filter fun c => (d.span c).start < offset else none

/-- Going on with `next` as long as there is a next node leads from the one node to the other. -/
inductive Descends (next : Nat → Option Nat) : Nat → Nat → Prop where
  | stop {id : Nat} (h : next id = none) : Descends next id id
  | step {id c j : Nat} (h : next id = some c) (rest : Descends next c j) : Descends next id j

theorem nodeAtFrom_eq (d : Document) (offset id : Nat) :
    d.nodeAtFrom offset id = match d.inward? offset id with
      | some c => if id < c ∧ c < d.nodes.size then d.nodeAtFrom offset c else id
      | none => id := by
  -- to skip the children that end before `offset` is to look for the first one that does not
  have hhead : ((d.children id).dropWhile fun c => (d.span c).stop ≤ offset).head? =
      (d.children id).find? fun c => offset < (d.span c).stop := by
    rw [← List.find?_not_eq_head?_dropWhile]
    congr 1
    funext c
    simp [← decide_not]
  have hending : ((d.children id).getLast?.filter fun c =>
      (d.span c).stop == d.size && (d.span c).start < offset) =
      (d.endingChild? id).filter fun c => (d.span c).start < offset := by
    rw [endingChild?, Option.filter_filter]
  rw [nodeAtFrom, inward?, childAround?, ← hhead, ← hending]
  cases (d.children id).dropWhile fun c => (d.span c).stop ≤ offset with
  | nil => rfl
  | cons c rest =>
    by_cases h : (d.span c).start ≤ offset
    · simp [h, Option.filter_some]
    · simp only [h, if_false, List.head?_cons, Option.filter_some, decide_false]
      rfl

theorem mem_children_of_inward? (h : d.inward? offset id = some c) : c ∈ d.children id := by
  rcases Option.or_eq_some_iff.mp h with h | ⟨-, h⟩
  · exact List.mem_of_find?_eq_some (Option.filter_eq_some_iff.mp h).1
  · split at h
    · have hend := (Option.filter_eq_some_iff.mp h).1
      exact List.mem_of_getLast? (Option.filter_eq_some_iff.mp hend).1
    · cases h

theorem Complete.child_of_inward? (h : Complete d) (hid : id < d.nodes.size)
    (hnext : d.inward? offset id = some c) : Child d.nodes id c :=
  (mem_children h.arena hid).mp (mem_children_of_inward? hnext)

theorem Complete.descends (h : Complete d) (id : Nat) (hid : id < d.nodes.size) :
    Descends (d.inward? offset) id (d.nodeAtFrom offset id) := by
  rw [nodeAtFrom_eq]
  cases hnext : d.inward? offset id with
  | none => exact .stop hnext
  | some c =>
    have hc := h.child_of_inward? hid hnext
    have hlt := h.arena.child_lt hc
    have hsize := hc.lt_size
    simp only [if_pos (And.intro hlt hsize)]
    exact .step hnext (h.descends c hsize)
termination_by d.nodes.size - id
decreasing_by omega

theorem Complete.mem_chain_of_descends (h : Complete d) (hdesc : Descends (d.inward? offset) id j)
    (hid : ∃ n, d.nodes[id]? = some n ∧ n.isAttribute = false) :
    (∃ n, d.nodes[j]? = some n ∧ n.isAttribute = false) ∧ id ∈ chain d.nodes j := by
  induction hdesc with
  | stop => exact ⟨hid, mem_chain_self ..⟩
  | step hnext _ ih =>
    have hc := h.child_of_inward? (lt_size_of_getElem? hid.choose_spec.1) hnext
    have hout := parentAt_mem_chain hc.parentAt (h.arena.child_lt hc)
    obtain ⟨n, hn, -, hattr⟩ := hc
    obtain ⟨hnode, hmem⟩ := ih ⟨n, hn, hattr⟩
    exact ⟨hnode, mem_chain_trans hmem hout⟩

theorem Complete.mem_chain_of_steps (h : Complete d) {k : Nat} (hdesc : Descends (d.inward? offset) id j)
    (hid : ∃ n, d.nodes[id]? = some n ∧ n.isAttribute = false) (hout : id ∈ chain d.nodes k)
    (hstep : ∀ {id}, id < d.nodes.size → id ∈ chain d.nodes k → id ≠ k →
      ∃ c, d.inward? offset id = some c ∧ c ∈ chain d.nodes k) : k ∈ chain d.nodes j := by
  induction hdesc with
  | @stop id hnone =>
    by_cases hne : id = k
    · exact hne ▸ mem_chain_self ..
    · obtain ⟨c, hnext, -⟩ := hstep (lt_size_of_getElem? hid.choose_spec.1) hout hne
      rw [hnone] at hnext
      cases hnext
  | @step id c j hnext hrest ih =>
    by_cases hne : id = k
    · exact hne ▸ (h.mem_chain_of_descends (.step hnext hrest) hid).2
    · have hlt := lt_size_of_getElem? hid.choose_spec.1
      obtain ⟨c', hnext', hmem⟩ := hstep hlt hout hne
      obtain rfl := Option.some.inj (hnext.symm.trans hnext')
      obtain ⟨n, hn, -, hattr⟩ := h.child_of_inward? hlt hnext
      exact ih ⟨n, hn, hattr⟩ hmem

/-! ## Inside the text -/

theorem Complete.inward?_eq_some_iff (h : Complete d) (hid : id < d.nodes.size)
    (hin : offset < d.size) :
    d.inward? offset id = some c ↔ Child d.nodes id c ∧ (d.span c).contains offset = true := by
  rw [inward?, if_neg (Nat.not_le_of_lt hin), Option.or_none, childAround?,
    Option.filter_eq_some_iff, ← mem_children h.arena hid]
  simp only [Span.contains, Bool.and_eq_true, decide_eq_true_eq]
  constructor
  · rintro ⟨hfind, hstart⟩
    have hstop := List.find?_some hfind
    exact ⟨List.mem_of_find?_eq_some hfind, hstart, of_decide_eq_true hstop⟩
  · rintro ⟨hmem, hstart, hstop⟩
    obtain ⟨before, behind, hsplit⟩ := List.append_of_mem hmem
    have hpair := h.children_disjoint hid
    rw [hsplit, List.pairwise_append] at hpair
    refine ⟨List.find?_eq_some_iff_append.mpr ⟨by simpa using hstop, before, behind, hsplit, ?_⟩, hstart⟩
    intro a ha
    have := hpair.2.2 a ha c List.mem_cons_self
    simp only [Bool.not_eq_true', decide_eq_false_iff_not]
    omega

theorem Complete.contains_of_descends (h : Complete d) (hin : offset < d.size)
    (hdesc : Descends (d.inward? offset) id j) (hid : id < d.nodes.size)
    (hcontains : (d.span id).contains offset = true) : (d.span j).contains offset = true := by
  induction hdesc with
  | stop => exact hcontains
  | step hnext _ ih =>
    obtain ⟨hc, hinside⟩ := (h.inward?_eq_some_iff hid hin).mp hnext
    exact ih hc.lt_size hinside

theorem Complete.mem_chain_of_contains (h : Complete d) (hin : offset < d.size)
    (hdesc : Descends (d.inward? offset) id j)
    (hid : ∃ n, d.nodes[id]? = some n ∧ n.isAttribute = false)
    {k : Nat} (hk : ∃ n, d.nodes[k]? = some n ∧ n.isAttribute = false)
    (hout : id ∈ chain d.nodes k) (hcontains : (d.span k).contains offset = true) :
    k ∈ chain d.nodes j := by
  refine h.mem_chain_of_steps hdesc hid hout fun {id} hid hout hne => ?_
  obtain ⟨c, hc, hmem⟩ := exists_child_of_mem_chain h.arena hk hout hne
  exact ⟨c, (h.inward?_eq_some_iff hid hin).mpr ⟨hc, h.contains_of_mem_chain hmem hcontains⟩, hmem⟩

/-! ## Behind the text -/

theorem Complete.inward?_behind (h : Complete d) (hid : id < d.nodes.size) (hle : d.size ≤ offset)
    (hpos : 0 < offset) : d.inward? offset id = d.endingChild? id := by
  have hstop {c : Nat} (hc : c ∈ d.children id) : (d.span c).stop ≤ offset :=
    Nat.le_trans (h.stop_le ((mem_children h.arena hid).mp hc).lt_size) hle
  have hnone : d.childAround? offset id = none := by
    rw [childAround?, Option.filter_eq_none_iff]
    intro c hc
    have hlt := List.find?_some hc
    have hle := hstop (List.mem_of_find?_eq_some hc)
    simp only [decide_eq_true_eq] at hlt
    omega
  rw [inward?, hnone, Option.none_or, if_pos hle]
  cases hend : d.endingChild? id with
  | none => rfl
  | some c =>
    obtain ⟨hlast, hstop⟩ := Option.filter_eq_some_iff.mp hend
    have hlt := ((mem_children h.arena hid).mp (List.mem_of_getLast? hlast)).lt_size
    have hstart : (d.span c).start < offset := by
      rcases Nat.eq_zero_or_pos d.size with hempty | hsize
      · have := h.start_le hlt
        omega
      · have := h.nonempty hlt hsize
        have := h.stop_le hlt
        omega
    simp [Option.filter_some, hstart]

theorem Complete.endingChild?_eq_some (h : Complete d) (hid : id < d.nodes.size) (hc : Child d.nodes id c)
    (hstop : (d.span c).stop = d.size) (hpos : 0 < d.size) : d.endingChild? id = some c := by
  have hmember := (mem_children h.arena hid).mpr hc
  obtain ⟨last, hlast⟩ : ∃ last, (d.children id).getLast? = some last :=
    Option.isSome_iff_exists.mp (List.getLast?_isSome.mpr (List.ne_nil_of_mem hmember))
  obtain ⟨before, hsplit⟩ := List.getLast?_eq_some_iff.mp hlast
  have hpair := h.children_disjoint hid
  rw [hsplit, List.pairwise_append] at hpair
  rw [hsplit, List.mem_append, List.mem_singleton] at hmember
  rcases hmember with hbefore | rfl
  · have hle := hpair.2.2 c hbefore last (List.mem_singleton_self _)
    have hchild := (mem_children h.arena hid).mp (List.mem_of_getLast? hlast)
    have hsome := h.nonempty hchild.lt_size hpos
    have hin := h.stop_le hchild.lt_size
    omega
  · rw [endingChild?, hlast, Option.filter_some, if_pos (by simpa using hstop)]

theorem Complete.mem_chain_of_ending (h : Complete d) (hle : d.size ≤ offset) (hpos : 0 < d.size)
    (hdesc : Descends (d.inward? offset) id j) (hid : ∃ n, d.nodes[id]? = some n ∧ n.isAttribute = false)
    {k : Nat} (hk : ∃ n, d.nodes[k]? = some n ∧ n.isAttribute = false) (hout : id ∈ chain d.nodes k)
    (hstop : (d.span k).stop = d.size) : k ∈ chain d.nodes j := by
  refine h.mem_chain_of_steps hdesc hid hout fun {id} hid hout hne => ?_
  obtain ⟨c, hc, hmem⟩ := exists_child_of_mem_chain h.arena hk hout hne
  have hreach : (d.span c).stop = d.size :=
    Nat.le_antisymm (h.stop_le hc.lt_size) (hstop ▸ (h.span_of_mem_chain hmem).2)
  rw [h.inward?_behind hid hle (Nat.lt_of_lt_of_le hpos hle)]
  exact ⟨c, h.endingChild?_eq_some hid hc hreach hpos, hmem⟩

theorem Complete.stop_of_descends (h : Complete d) (hle : d.size ≤ offset) (hpos : 0 < d.size)
    (hdesc : Descends (d.inward? offset) id j) (hid : id < d.nodes.size) (hstop : (d.span id).stop = d.size) :
    (d.span j).stop = d.size := by
  induction hdesc with
  | stop => exact hstop
  | step hnext _ ih =>
    refine ih (h.child_of_inward? hid hnext).lt_size ?_
    rw [h.inward?_behind hid hle (Nat.lt_of_lt_of_le hpos hle)] at hnext
    exact of_decide_eq_true (Option.filter_eq_some_iff.mp hnext).2

theorem Descends.congr {next next' : Nat → Option Nat} (h : Descends next id j)
    (hid : id < d.nodes.size)
    (hchild : ∀ {id c}, id < d.nodes.size → next id = some c → c < d.nodes.size)
    (hnext : ∀ {id}, id < d.nodes.size → next id = next' id) : Descends next' id j := by
  induction h with
  | stop hnone => exact .stop (hnext hid ▸ hnone)
  | step hstep _ ih => exact .step (hnext hid ▸ hstep) (ih (hchild hid hstep))

/-! ## What is found -/

theorem chain_eq_cons (d : Document) (id : Nat) : chain d.nodes id = id :: d.ancestors id := by
  rw [ancestors]
  rcases chain_cases d.nodes id with h | ⟨p, -, -, h⟩ <;> simp [h]

theorem length_ancestors_lt (h : c ∈ d.ancestors id) :
    (d.ancestors c).length < (d.ancestors id).length := by
  induction id using Nat.strongRecOn with
  | ind id ih =>
    rcases chain_cases d.nodes id with hone | ⟨p, -, hlt, hcons⟩
    · rw [ancestors, hone] at h
      cases h
    · have hancestors : d.ancestors id = p :: d.ancestors p := by
        rw [ancestors, hcons, List.drop_one, List.tail_cons, chain_eq_cons]
      rw [hancestors, List.length_cons]
      rw [hancestors, List.mem_cons] at h
      rcases h with rfl | h
      · omega
      · have := ih p hlt h
        omega

theorem Complete.inward?_empty (h : Complete d) (hid : id < d.nodes.size) (hempty : d.size = 0) :
    d.inward? 0 id = none := by
  rw [Option.eq_none_iff_forall_ne_some]
  intro c hnext
  have hstop := h.stop_le (h.child_of_inward? hid hnext).lt_size
  rcases Option.or_eq_some_iff.mp hnext with hnext | ⟨-, hnext⟩
  · have hlt := List.find?_some (Option.filter_eq_some_iff.mp hnext).1
    simp only [decide_eq_true_eq] at hlt
    omega
  · rw [if_pos (Nat.le_of_eq hempty)] at hnext
    simpa using (Option.filter_eq_some_iff.mp hnext).2

theorem Complete.exists_root (h : Complete d) : ∃ n, d.nodes[0]? = some n ∧ n.isAttribute = false := by
  obtain ⟨root, hroot, hkind, -⟩ := h.arena.root
  exact ⟨root, hroot, by simp [isAttribute, Node.attribute?, hkind]⟩

theorem Complete.span_nodeAt (h : Complete d) (hle : offset ≤ d.size) :
    (d.span (d.nodeAt offset)).start ≤ offset ∧
      (offset < (d.span (d.nodeAt offset)).stop ∨
        (offset = d.size ∧ (d.span (d.nodeAt offset)).stop = d.size)) := by
  have hzero := lt_size_of_getElem? h.exists_root.choose_spec.1
  have hdesc : Descends (d.inward? offset) 0 (d.nodeAt offset) := h.descends 0 hzero
  have hnode := lt_size_of_getElem? (h.mem_chain_of_descends hdesc h.exists_root).1.choose_spec.1
  rcases Nat.lt_or_ge offset d.size with hin | hout
  · have hcontains := h.contains_of_descends hin hdesc hzero (by simp [h.whole, Span.contains, hin])
    simp only [Span.contains, Bool.and_eq_true, decide_eq_true_eq] at hcontains
    exact ⟨hcontains.1, .inl hcontains.2⟩
  · have heq := Nat.le_antisymm hle hout
    refine ⟨Nat.le_trans (h.start_le hnode) hout, .inr ⟨heq, ?_⟩⟩
    rcases Nat.eq_zero_or_pos d.size with hempty | hpos
    · exact Nat.le_antisymm (h.stop_le hnode) (hempty ▸ Nat.zero_le _)
    · exact h.stop_of_descends hout hpos hdesc hzero (by rw [h.whole])

theorem Complete.mem_chain_nodeAt (h : Complete d) {k : Nat}
    (hk : ∃ n, d.nodes[k]? = some n ∧ n.isAttribute = false)
    (hstart : (d.span k).start ≤ offset)
    (hstop : offset < (d.span k).stop ∨ (offset = (d.span k).stop ∧ offset = d.size ∧ 0 < offset)) :
    k ∈ chain d.nodes (d.nodeAt offset) := by
  have hlt := lt_size_of_getElem? hk.choose_spec.1
  have hdesc : Descends (d.inward? offset) 0 (d.nodeAt offset) :=
    h.descends 0 (lt_size_of_getElem? h.exists_root.choose_spec.1)
  have hout := zero_mem_chain h.arena hlt
  rcases hstop with hstop | ⟨hstop, hend, hpos⟩
  · have hin := Nat.lt_of_lt_of_le hstop (h.stop_le hlt)
    exact h.mem_chain_of_contains hin hdesc h.exists_root hk hout (by simp [Span.contains, hstart, hstop])
  · exact h.mem_chain_of_ending (Nat.le_of_eq hend.symm) (hend ▸ hpos) hdesc h.exists_root hk hout
      (hstop.symm.trans hend)

/-- What `nodeAt` finds: inside the text, the innermost node around the offset; behind the text, the
node at the end of the way along the last children that end with the text. Nothing of an empty text
stands before its start, so that the document itself is found there. -/
structure Finds (d : Document) (offset : Nat) : Prop where
  node : ∃ n, d.node? (d.nodeAt offset) = some n ∧ n.isAttribute = false
  around : offset < d.size → ∀ id n, d.node? id = some n → n.isAttribute = false →
    (n.span.contains offset = true ↔ id = d.nodeAt offset ∨ id ∈ d.ancestors (d.nodeAt offset))
  innermost : offset < d.size → ∀ id n, d.node? id = some n → n.isAttribute = false →
    n.span.contains offset = true → id ≠ d.nodeAt offset →
    (d.ancestors id).length < (d.ancestors (d.nodeAt offset)).length
  behind : d.size ≤ offset → 0 < offset → Descends d.endingChild? 0 (d.nodeAt offset)
  empty : d.size = 0 → d.nodeAt 0 = 0
  descent : Descends (d.inward? offset) 0 (d.nodeAt offset)

/-- **The node at an offset** of every text, whatever the text and the address. -/
theorem parse_nodeAt (text uri : String) (offset : Nat) : (parse text uri).Finds offset := by
  have h := complete_parse text uri
  have hnode := h.exists_root
  have hzero := lt_size_of_getElem? hnode.choose_spec.1
  have hdesc : Descends ((parse text uri).inward? offset) 0 ((parse text uri).nodeAt offset) :=
    h.descends 0 hzero
  have hfound := (h.mem_chain_of_descends hdesc hnode).1
  have haround (hin : offset < (parse text uri).size) (id : Nat) (n : Node)
      (hn : (parse text uri).node? id = some n) (hattr : n.isAttribute = false) :
      n.span.contains offset = true ↔
        id = (parse text uri).nodeAt offset ∨
          id ∈ (parse text uri).ancestors ((parse text uri).nodeAt offset) := by
    rw [← span_eq hn, ← List.mem_cons, ← chain_eq_cons]
    constructor
    · exact h.mem_chain_of_contains hin hdesc hnode ⟨n, hn, hattr⟩
        (zero_mem_chain h.arena (lt_size_of_getElem? hn))
    · intro hmem
      refine h.contains_of_mem_chain hmem (h.contains_of_descends hin hdesc hzero ?_)
      simp [h.whole, Span.contains, hin]
  refine ⟨hfound, haround, ?_, fun hle hpos => ?_, fun hempty => ?_, hdesc⟩
  · intro hin id n hn hattr hcontains hne
    exact length_ancestors_lt (((haround hin id n hn hattr).mp hcontains).resolve_left hne)
  · exact hdesc.congr hzero (fun hid hnext => (h.child_of_inward? hid hnext).lt_size)
      fun hid => h.inward?_behind hid hle hpos
  · rw [nodeAt, nodeAtFrom_eq, h.inward?_empty hzero hempty]

/-- In an empty file of declarations the way along the children that end with the text goes on to
the document type, but what is found at its start is the document. -/
theorem nodeAt_empty_declarations :
    (parse "" "file:///t.dtd").size = 0 ∧
      ¬ Descends (parse "" "file:///t.dtd").endingChild? 0 ((parse "" "file:///t.dtd").nodeAt 0) := by
  have hnode : (parse "" "file:///t.dtd").nodeAt 0 = 0 := by decide +kernel
  have hchild : (parse "" "file:///t.dtd").endingChild? 0 = some 1 := by decide +kernel
  have hleaf : (parse "" "file:///t.dtd").endingChild? 1 = none := by decide +kernel
  refine ⟨rfl, fun h => ?_⟩
  rw [hnode] at h
  cases h with
  | stop hnone => simp [hchild] at hnone
  | step hstep hrest =>
    obtain rfl := Option.some.inj (hchild.symm.trans hstep)
    cases hrest with
    | step hstep _ => simp [hleaf] at hstep

end XmlAssist.Document
