import XmlAssist.Proofs.Tree.Arena

/-!
# Nodes that lie inside each other

`Nested` adds the spans to `Arena`: what the nodes are while the text has been read up to an offset.
A node that is no longer open reaches at least as far as its parts (`Sealed`); one that is open may
not, as it gets its end only when it is left. The operations of the builder are a few changes that
keep this: a node on the way to the document grows (`Nested.touch`), a node is added at the edge of
what was read (`Nested.add`), and nodes that are sealed are left (`Nested.rise`).
-/

namespace XmlAssist

open Node
open Text (size)

/-- Nothing that belongs to the node reaches farther than the node. -/
def Sealed (nodes : Array Node) (p : Nat) : Prop :=
  ∀ ⦃id : Nat⦄ ⦃n m : Node⦄, nodes[p]? = some m → nodes[id]? = some n → n.parent = some p →
    n.span.stop ≤ m.span.stop

/-- The nodes of a text that has been read up to `edge`, where `current` is the innermost open one.
Those up to `top`, the document and the document type that stands for a file of declarations, span
the whole text. -/
structure Nested (s : String) (top : Nat) (nodes : Array Node) (current edge : Nat) : Prop where
  arena : Arena nodes
  rightmost : Rightmost nodes current
  edge_le : edge ≤ size s
  top_mem : top ∈ chain nodes current
  outer : ∀ {id : Nat} {n : Node}, nodes[id]? = some n → id ≤ top →
    n.span = ⟨0, size s⟩ ∧ (n.kind = .document ∨ n.isDoctype = true)
  inner : ∀ {id : Nat} {n : Node}, nodes[id]? = some n → top < id →
    n.span.start < n.span.stop ∧ n.span.stop ≤ edge
  start_le : ∀ {id p : Nat} {n m : Node}, nodes[id]? = some n → n.parent = some p →
    nodes[p]? = some m → m.span.start ≤ n.span.start
  start_lt : ∀ {id p : Nat} {n m : Node}, nodes[id]? = some n → n.parent = some p →
    nodes[p]? = some m → 0 < m.span.start → m.span.start < n.span.start
  disjoint : ∀ {p c c' : Nat} {n n' : Node}, Child nodes p c → Child nodes p c' → c < c' →
    nodes[c]? = some n → nodes[c']? = some n' → n.span.stop ≤ n'.span.start
  sealed_ : ∀ {p : Nat}, p ∉ chain nodes current → Sealed nodes p

variable {s : String} {top current edge edge' : Nat} {nodes : Array Node}

theorem Nested.mono (h : Nested s top nodes current edge) (hle : edge ≤ edge')
    (hsize : edge' ≤ size s) : Nested s top nodes current edge' :=
  { h with
    edge_le := hsize
    inner := fun hn hid => ⟨(h.inner hn hid).1, Nat.le_trans (h.inner hn hid).2 hle⟩ }

theorem Nested.current_node (h : Nested s top nodes current edge) :
    ∃ n, nodes[current]? = some n ∧ n.isAttribute = false := h.rightmost.node

theorem Nested.top_le (h : Nested s top nodes current edge) : top ≤ current :=
  le_of_mem_chain h.top_mem

theorem Nested.span_le (h : Nested s top nodes current edge) {id : Nat} {n : Node}
    (hn : nodes[id]? = some n) : n.span.start ≤ edge ∧ n.span.stop ≤ size s := by
  rcases Nat.lt_or_ge top id with hid | hid
  · have := h.inner hn hid
    have := h.edge_le
    omega
  · rw [(h.outer hn hid).1]
    exact ⟨Nat.zero_le _, Nat.le_refl _⟩

theorem Nested.start_le_stop (h : Nested s top nodes current edge) {id : Nat} {n : Node}
    (hn : nodes[id]? = some n) : n.span.start ≤ n.span.stop := by
  rcases Nat.lt_or_ge top id with hid | hid
  · exact Nat.le_of_lt (h.inner hn hid).1
  · rw [(h.outer hn hid).1]
    exact Nat.zero_le _

theorem Nested.top_lt (h : Nested s top nodes current edge) {id : Nat} {n : Node}
    (hn : nodes[id]? = some n) (hd : n.kind ≠ .document) (ht : n.isDoctype = false) : top < id := by
  refine Nat.lt_of_not_le fun hle => ?_
  rcases (h.outer hn hle).2 with hk | hk
  · exact hd hk
  · rw [ht] at hk
    cases hk

theorem getElem?_modify_eq_some {id j : Nat} {f : Node → Node} {m : Node}
    (h : (nodes.modify id f)[j]? = some m) :
    ∃ n, nodes[j]? = some n ∧ ((id = j ∧ m = f n) ∨ (id ≠ j ∧ m = n)) := by
  rw [Array.getElem?_modify] at h
  split at h
  · obtain ⟨n, hn, hm⟩ := Option.map_eq_some_iff.mp h
    exact ⟨n, hn, .inl ⟨‹_›, hm.symm⟩⟩
  · exact ⟨m, h, .inr ⟨‹_›, rfl⟩⟩

/-! ## A node grows -/

/-- The second span is the first one, reaching farther but not behind `edge`. -/
structure Stretches (edge : Nat) (a b : Span) : Prop where
  start : b.start = a.start
  stop_le : a.stop ≤ b.stop
  stop_le_max : b.stop ≤ max a.stop edge

theorem Stretches.refl (edge : Nat) (a : Span) : Stretches edge a a :=
  ⟨rfl, Nat.le_refl _, Nat.le_max_left ..⟩

theorem stretches_extendTo (a : Span) {stop : Nat} (h : stop ≤ edge) :
    Stretches edge a (a.extendTo stop) :=
  ⟨rfl, Nat.le_max_left .., by simp only [Span.extendTo]; omega⟩

theorem Stretches.eq_of_whole {a b : Span} {n : Nat} (h : Stretches edge a b) (ha : a = ⟨0, n⟩)
    (hedge : edge ≤ n) : b = ⟨0, n⟩ := by
  have hstart := h.start
  have hstop := h.stop_le
  have hmax := h.stop_le_max
  cases b
  simp only [ha, Span.mk.injEq] at hstart hstop hmax ⊢
  omega

/-- The second node is the first one, reaching farther but not behind `edge`. -/
structure Grows (edge : Nat) (n m : Node) : Prop where
  links : SameLinks n m
  span : Stretches edge n.span m.span

theorem Grows.refl (edge : Nat) (n : Node) : Grows edge n n := ⟨.refl n, .refl edge n.span⟩

theorem Node.Kind.Alike.grows {n : Node} {k : Kind} {stop : Nat} (h : n.kind.Alike k)
    (hle : stop ≤ edge) : Grows edge n { n with kind := k, span := n.span.extendTo stop } :=
  ⟨h.sameLinks _, stretches_extendTo _ hle⟩

theorem grows_extend (n : Node) {stop : Nat} (hle : stop ≤ edge) :
    Grows edge n { n with span := n.span.extendTo stop } := (Kind.Alike.refl n.kind).grows hle

/-- The node may grow: it is open, or it is an attribute of an open node. -/
def MayGrow (nodes : Array Node) (current id : Nat) : Prop :=
  id ∈ chain nodes current ∨ ∃ p ∈ chain nodes current, Attr nodes p id

theorem mayGrow_current : MayGrow nodes current current := .inl (mem_chain_self nodes current)

theorem Nested.touch (h : Nested s top nodes current edge) {id : Nat} {f : Node → Node}
    (hid : MayGrow nodes current id) (hf : ∀ n, nodes[id]? = some n → Grows edge' n (f n))
    (hle : edge ≤ edge') (hsize : edge' ≤ size s) :
    Nested s top (nodes.modify id f) current edge' := by
  have hlinks := relinks_modify fun n hn => (hf n hn).links
  -- every node keeps its start and reaches as far as before, or farther if it is `id`
  have hget {j : Nat} {m : Node} (hm : (nodes.modify id f)[j]? = some m) :
      ∃ n, nodes[j]? = some n ∧ Grows edge' n m ∧ (id ≠ j → m = n) := by
    obtain ⟨n, hn, ⟨rfl, rfl⟩ | ⟨hne, rfl⟩⟩ := getElem?_modify_eq_some hm
    · exact ⟨n, hn, hf n hn, fun hne => absurd rfl hne⟩
    · exact ⟨m, hn, .refl .., fun _ => rfl⟩
  refine ⟨h.arena.of_relinks hlinks, h.rightmost.of_relinks hlinks, hsize, ?_, ?_, ?_, ?_, ?_, ?_, ?_⟩
  · rw [hlinks.chain]
    exact h.top_mem
  · intro j m hm hj
    obtain ⟨n, hn, hg, -⟩ := hget hm
    obtain ⟨hspan, hkind⟩ := h.outer hn hj
    exact ⟨hg.span.eq_of_whole hspan hsize,
      hkind.imp hg.links.document.mpr fun hk => hg.links.isDoctype.trans hk⟩
  · intro j m hm hj
    obtain ⟨n, hn, hg, -⟩ := hget hm
    obtain ⟨hlt, hstop⟩ := h.inner hn hj
    have := hg.span.start
    have := hg.span.stop_le
    have := hg.span.stop_le_max
    omega
  · intro j p m k hm hp hk
    obtain ⟨n, hn, hg, -⟩ := hget hm
    obtain ⟨n', hn', hg', -⟩ := hget hk
    rw [hg.span.start, hg'.span.start]
    exact h.start_le hn (hg.links.parent ▸ hp) hn'
  · intro j p m k hm hp hk hpos
    obtain ⟨n, hn, hg, -⟩ := hget hm
    obtain ⟨n', hn', hg', -⟩ := hget hk
    rw [hg'.span.start] at hpos
    rw [hg.span.start, hg'.span.start]
    exact h.start_lt hn (hg.links.parent ▸ hp) hn' hpos
  · intro p c c' m m' hc hc' hlt hm hm'
    rw [hlinks.child] at hc hc'
    obtain ⟨n, hn, -, heq⟩ := hget hm
    obtain ⟨n', hn', hg', -⟩ := hget hm'
    -- a child with a sibling behind it is not open
    have hne : id ≠ c := by
      rintro rfl
      rcases hid with hid | ⟨q, -, k, hk, -, hattr⟩
      · have := h.rightmost.last hid hc.parentAt hc'
        omega
      · obtain ⟨k', hk', -, hfalse⟩ := hc
        obtain rfl := Option.some.inj (hk.symm.trans hk')
        rw [hattr] at hfalse
        cases hfalse
    rw [heq hne, hg'.span.start]
    exact h.disjoint hc hc' hlt hn hn'
  · intro p hp j m k hk hm hparent
    rw [hlinks.chain] at hp
    obtain ⟨n, hn, hg, heq⟩ := hget hm
    obtain ⟨n', hn', hg', -⟩ := hget hk
    have hparent' : n.parent = some p := hg.links.parent ▸ hparent
    -- what belongs to a node that is not open is not open either
    have hne : id ≠ j := by
      rintro rfl
      rcases hid with hid | ⟨q, hq, k, hk, hkq, -⟩
      · have hat := parentAt_eq_some.mpr ⟨n, hn, hparent'⟩
        exact hp (mem_chain_trans hid (parentAt_mem_chain hat (h.arena.parentAt_lt hat)))
      · obtain rfl := Option.some.inj (hk.symm.trans hn)
        obtain rfl := Option.some.inj (hkq.symm.trans hparent')
        exact hp hq
    rw [heq hne]
    exact Nat.le_trans (h.sealed_ hp hn' hn hparent') hg'.span.stop_le

/-! ## A node more -/

/-- A part of `p` can start at `start`: there `p` has started and its children have ended. -/
structure Fresh (nodes : Array Node) (p start : Nat) : Prop where
  start_le : ∀ {m : Node}, nodes[p]? = some m → m.span.start ≤ start
  start_lt : ∀ {m : Node}, nodes[p]? = some m → 0 < m.span.start → m.span.start < start
  stop_le : ∀ {c : Nat} {k : Node}, Child nodes p c → nodes[c]? = some k → k.span.stop ≤ start

theorem Nested.fresh (h : Nested s top nodes current edge) {start : Nat} (hle : edge ≤ start) :
    Fresh nodes current start where
  start_le hm := Nat.le_trans (h.span_le hm).1 hle
  start_lt hm hpos := by
    rcases Nat.lt_or_ge top current with hin | hout
    · have := h.inner hm hin
      omega
    · rw [(h.outer hm hout).1] at hpos
      exact absurd hpos (Nat.lt_irrefl 0)
  stop_le hc hk := by
    have := h.top_le
    have := h.arena.child_lt hc
    exact Nat.le_trans (h.inner hk (by omega)).2 hle

theorem Fresh.touch {p start : Nat} {f : Node → Node} (h : Fresh nodes p start)
    (ha : Arena nodes) (hf : ∀ n, nodes[p]? = some n → Grows edge' n (f n)) :
    Fresh (nodes.modify p f) p start where
  start_le hm := by
    obtain ⟨n, hn, ⟨-, rfl⟩ | ⟨hne, rfl⟩⟩ := getElem?_modify_eq_some hm
    · rw [(hf n hn).span.start]
      exact h.start_le hn
    · exact absurd rfl hne
  start_lt hm hpos := by
    obtain ⟨n, hn, ⟨-, rfl⟩ | ⟨hne, rfl⟩⟩ := getElem?_modify_eq_some hm
    · rw [(hf n hn).span.start] at hpos ⊢
      exact h.start_lt hn hpos
    · exact absurd rfl hne
  stop_le hc hk := by
    rw [(relinks_modify fun n hn => (hf n hn).links).child] at hc
    obtain ⟨n, hn, ⟨rfl, -⟩ | ⟨-, rfl⟩⟩ := getElem?_modify_eq_some hk
    · exact absurd (ha.child_lt hc) (Nat.lt_irrefl _)
    · exact h.stop_le hc hn

section add
variable {f : Node → Node} {m n : Node}

theorem Adds.mem_chain (h : Adds nodes current m (f m) n) {c d : Nat}
    (hc : c = current ∨ c = nodes.size) (hd : d ∈ chain nodes current) :
    d ∈ chain (grow nodes current f n) c := by
  rcases hc with rfl | rfl
  · rwa [h.chain_of_ne (Nat.ne_of_lt h.lt_size)]
  · rw [h.chain_size]
    exact List.mem_cons_of_mem _ hd

theorem Adds.old (h : Adds nodes current m (f m) n) (hm : Stretches edge' m.span (f m).span)
    {j : Nat} {k : Node} (hk : (grow nodes current f n)[j]? = some k) (hj : j ≠ nodes.size) :
    ∃ k', nodes[j]? = some k' ∧ k.parent = k'.parent ∧ Stretches edge' k'.span k.span ∧
      (k.kind = .document ↔ k'.kind = .document) ∧ k.isDoctype = k'.isDoctype ∧
      (j ≠ current → k = k') := by
  rcases h.get hk with ⟨hj', -⟩ | ⟨rfl, -, rfl⟩ | ⟨-, -, hk'⟩
  · exact absurd hj' hj
  · exact ⟨m, h.owner, h.parent', hm, h.document, h.isDoctype, fun hne => absurd rfl hne⟩
  · exact ⟨k, hk', rfl, .refl .., .rfl, rfl, fun _ => rfl⟩

theorem Adds.new (h : Adds nodes current m (f m) n) {k : Node}
    (hk : (grow nodes current f n)[nodes.size]? = some k) : k = n := by
  rcases h.get hk with ⟨-, hk⟩ | ⟨-, hj, -⟩ | ⟨-, hj, -⟩
  · exact hk
  · exact absurd hj (Nat.lt_irrefl _)
  · exact absurd hj (Nat.lt_irrefl _)

theorem Nested.disjoint_add (h : Nested s top nodes current edge) (ha : Adds nodes current m (f m) n)
    (hm : Stretches edge' m.span (f m).span) (hfresh : Fresh nodes current n.span.start)
    {p c c' : Nat} {k k' : Node} (hc : Child (grow nodes current f n) p c)
    (hc' : Child (grow nodes current f n) p c') (hlt : c < c')
    (hk : (grow nodes current f n)[c]? = some k) (hk' : (grow nodes current f n)[c']? = some k') :
    k.span.stop ≤ k'.span.start := by
  rw [ha.child] at hc hc'
  rcases hc with hc | ⟨rfl, rfl, -⟩
  · have hsize := hc.lt_size
    obtain ⟨k₀, hk₀, -, hspan, -, -, heq⟩ := ha.old hm hk (by omega)
    rcases hc' with hc' | ⟨rfl, rfl, -⟩
    · obtain ⟨k₀', hk₀', -, hspan', -⟩ := ha.old hm hk' (Nat.ne_of_lt hc'.lt_size)
      -- the node that grows is the last of its siblings
      have hne : c ≠ current := by
        rintro rfl
        have := h.rightmost.last (mem_chain_self nodes c) hc.parentAt hc'
        omega
      rw [heq hne, hspan'.start]
      exact h.disjoint hc hc' hlt hk₀ hk₀'
    · have := h.arena.child_lt hc
      rw [ha.new hk', heq (by omega)]
      exact hfresh.stop_le hc hk₀
  · rcases hc' with hc' | ⟨rfl, -, -⟩
    · have := hc'.lt_size
      omega
    · omega

/-- The node that grew or the new child, if there is one, is the innermost open node. -/
theorem Nested.add (h : Nested s top nodes current edge) (ha : Adds nodes current m (f m) n)
    (hm : Stretches edge' m.span (f m).span) (hfresh : Fresh nodes current n.span.start)
    (hlt : n.span.start < n.span.stop) (hstop : n.span.stop ≤ edge') (hle : edge ≤ edge')
    (hsize : edge' ≤ size s) {c : Nat} (hc : c = current ∨ (c = nodes.size ∧ n.isAttribute = false)) :
    Nested s top (grow nodes current f n) c edge' := by
  have hchain {d : Nat} (hd : d ∈ chain nodes current) : d ∈ chain (grow nodes current f n) c :=
    ha.mem_chain (hc.imp_right And.left) hd
  have hlast := lt_size_of_getElem? ha.owner
  refine ⟨h.arena.grow ha, ?_, hsize, hchain h.top_mem, ?_, ?_, ?_, ?_, h.disjoint_add ha hm hfresh, ?_⟩
  · rcases hc with rfl | ⟨rfl, hn⟩
    · exact ha.rightmost_owner h.arena
    · exact ha.rightmost_new h.arena hn
  · intro j k hk hj
    have := h.top_le
    obtain ⟨k', hk', -, hspan, hdoc, htype, -⟩ := ha.old hm hk (by omega)
    obtain ⟨hwhole, hkind⟩ := h.outer hk' hj
    exact ⟨hspan.eq_of_whole hwhole hsize, hkind.imp hdoc.mpr fun hk => htype.trans hk⟩
  · intro j k hk hj
    by_cases hj' : j = nodes.size
    · obtain rfl := ha.new (hj' ▸ hk)
      exact ⟨hlt, hstop⟩
    · obtain ⟨k', hk', -, hspan, -⟩ := ha.old hm hk hj'
      have := h.inner hk' hj
      have := hspan.start
      have := hspan.stop_le
      have := hspan.stop_le_max
      omega
  · intro j p k q hk hp hq
    by_cases hj : j = nodes.size
    · obtain rfl := ha.new (hj ▸ hk)
      rw [ha.parent] at hp
      obtain rfl := Option.some.inj hp
      obtain ⟨q', hq', -, hspan, -⟩ := ha.old hm hq (by omega)
      rw [hspan.start]
      exact hfresh.start_le hq'
    · obtain ⟨k', hk', hparent, hspan, -⟩ := ha.old hm hk hj
      rw [hparent] at hp
      have := h.arena.parentAt_lt (parentAt_eq_some.mpr ⟨k', hk', hp⟩)
      have := lt_size_of_getElem? hk'
      obtain ⟨q', hq', -, hspan', -⟩ := ha.old hm hq (by omega)
      rw [hspan.start, hspan'.start]
      exact h.start_le hk' hp hq'
  · intro j p k q hk hp hq hpos
    by_cases hj : j = nodes.size
    · obtain rfl := ha.new (hj ▸ hk)
      rw [ha.parent] at hp
      obtain rfl := Option.some.inj hp
      obtain ⟨q', hq', -, hspan, -⟩ := ha.old hm hq (by omega)
      rw [hspan.start] at hpos ⊢
      exact hfresh.start_lt hq' hpos
    · obtain ⟨k', hk', hparent, hspan, -⟩ := ha.old hm hk hj
      rw [hparent] at hp
      have := h.arena.parentAt_lt (parentAt_eq_some.mpr ⟨k', hk', hp⟩)
      have := lt_size_of_getElem? hk'
      obtain ⟨q', hq', -, hspan', -⟩ := ha.old hm hq (by omega)
      rw [hspan'.start] at hpos
      rw [hspan.start, hspan'.start]
      exact h.start_lt hk' hp hq' hpos
  · intro p hp j k q hq hk hparent
    by_cases hj : j = nodes.size
    · obtain rfl := ha.new (hj ▸ hk)
      rw [ha.parent] at hparent
      obtain rfl := Option.some.inj hparent
      exact absurd (hchain (mem_chain_self nodes _)) hp
    · obtain ⟨k', hk', hparent', hspan, -, -, heq⟩ := ha.old hm hk hj
      rw [hparent'] at hparent
      have hat := parentAt_eq_some.mpr ⟨k', hk', hparent⟩
      have hpj := h.arena.parentAt_lt hat
      have := lt_size_of_getElem? hk'
      obtain ⟨q', hq', -, hspan', -⟩ := ha.old hm hq (by omega)
      have hne : j ≠ current := by
        rintro rfl
        exact hp (hchain (parentAt_mem_chain hat hpj))
      rw [heq hne]
      exact Nat.le_trans (h.sealed_ (fun hmem => hp (hchain hmem)) hq' hk' hparent) hspan'.stop_le

end add

/-! ## Back to a node around -/

theorem Nested.sealed_of_edge_le (h : Nested s top nodes current edge) {p : Nat} {m : Node}
    (hm : nodes[p]? = some m) (hp : top ≤ p) (hle : edge ≤ m.span.stop) : Sealed nodes p := by
  intro id n m' hm' hn hparent
  obtain rfl := Option.some.inj (hm.symm.trans hm')
  have hlt := h.arena.parentAt_lt (parentAt_eq_some.mpr ⟨n, hn, hparent⟩)
  exact Nat.le_trans (h.inner hn (by omega)).2 hle

/-- The nodes inside `c` are left. -/
theorem Nested.rise (h : Nested s top nodes current edge) {c : Nat} (hc : c ∈ chain nodes current)
    (htop : top ≤ c) (hsealed : ∀ d ∈ chain nodes current, c < d → Sealed nodes d) :
    Nested s top nodes c edge :=
  { h with
    rightmost := h.rightmost.of_mem_chain h.arena hc
    top_mem := mem_chain_of_le h.top_mem hc htop
    sealed_ := fun {p} hp => by
      by_cases hmem : p ∈ chain nodes current
      · exact hsealed p hmem (Nat.lt_of_not_le fun hle => hp (mem_chain_of_le hmem hc hle))
      · exact h.sealed_ hmem }

theorem Nested.leave (h : Nested s top nodes current edge) (htop : top < current)
    (hsealed : Sealed nodes current) :
    ∃ p, parentAt nodes current = some p ∧ p < current ∧ Nested s top nodes p edge := by
  obtain ⟨n, hn, -⟩ := h.current_node
  obtain ⟨-, p, hp, hlt⟩ := h.arena.inner hn (by omega)
  have hat := parentAt_eq_some.mpr ⟨n, hn, hp⟩
  refine ⟨p, hat, hlt, h.rise (parentAt_mem_chain hat hlt) ?_ fun d hd hpd => ?_⟩
  · exact le_of_mem_chain (mem_chain_of_ne hat hlt h.top_mem (by omega))
  · by_cases hdc : d = current
    · exact hdc ▸ hsealed
    · have := le_of_mem_chain (mem_chain_of_ne hat hlt hd hdc)
      omega

end XmlAssist
