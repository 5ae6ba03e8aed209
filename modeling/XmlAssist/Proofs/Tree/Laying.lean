import XmlAssist.Proofs.Lexer.TagEnd
import XmlAssist.Proofs.Tree.Keeping
import XmlAssist.Proofs.Tree.Quoting

/-!
# The parts of an element in order

What an element keeps of its start tag stands before its children, and these before what it keeps of its end tag
(`Element.Laid`). Most tokens leave all elements as they are and let nodes around grow (`Rests`); a node may grow
as long as no part of its element stands behind it (`Loose`). The others add one part behind all that the element
has: a name, an attribute, a bracket or a child.
-/

namespace XmlAssist

open Node
open Text (size)
open Lexer (Reads Falls)

def Node.spanAt (nodes : Array Node) (id : Nat) : Span := (nodes.getD id default).span

namespace Element

/-- The parts of the start tag: its `<`, its name, the attributes and its `>` or `/>`. -/
def opening (nodes : Array Node) (e : Element) : List Span :=
  (e.startOpen.map fun p => ⟨p, p + 1⟩).toList ++ e.tagSpan.toList ++ e.attributes.toList.map (spanAt nodes) ++
    (e.startClose.map fun p => ⟨p, if e.selfClosed then p + 2 else p + 1⟩).toList

/-- The parts of the end tag: its `</`, its name and its `>`. -/
def ending (e : Element) : List Span :=
  (e.endOpen.map fun p => ⟨p, p + 2⟩).toList ++ e.endTagSpan.toList ++
  (e.endClose.map fun p => ⟨p, p + 1⟩).toList

/-- The parts of the element `e`, which is the node `n`, and its children are in the order of the text, and none of
the parts stands behind `edge`. -/
structure Laid (nodes : Array Node) (edge : Nat) (n : Node) (e : Element) : Prop where
  start : ∀ p, e.startOpen = some p → n.span.start = p
  ordered : (e.opening nodes ++ e.ending).Pairwise fun a b => a.stop ≤ b.start
  stop_le : ∀ a ∈ e.opening nodes ++ e.ending, a.stop ≤ edge
  behind : ∀ a ∈ e.opening nodes, ∀ c ∈ n.children, a.stop ≤ (spanAt nodes c).start
  inside : ∀ c ∈ n.children, ∀ a ∈ e.ending, (spanAt nodes c).stop ≤ a.start
  selfClosed : e.selfClosed = true → ∃ p, e.startClose = some p ∧ n.span.stop = p + 2
  endClose : ∀ p, e.endClose = some p → n.span.stop = p + 1
  endless : e.endOpen = none → e.ending = []
  ended : e.endOpen.isSome = true → e.selfClosed = false

variable {nodes nodes' : Array Node} {edge edge' p c : Nat} {n m : Node} {e e' : Element} {sp : Span} {l : List Span}

theorem endOpen_of_ending (h : e.ending = []) : e.endOpen = none := by
  cases ho : e.endOpen with
  | none => rfl
  | some p => simp [ending, ho] at h

theorem endClose_of_ending (h : e.ending = []) : e.endClose = none := by
  cases ho : e.endClose with
  | none => rfl
  | some p => simp [ending, ho] at h

theorem opening_congr (h : ∀ a ∈ e.attributes, spanAt nodes' a = spanAt nodes a) :
    e.opening nodes' = e.opening nodes := by
  have hattr : e.attributes.toList.map (spanAt nodes') = e.attributes.toList.map (spanAt nodes) :=
    List.map_congr_left fun a ha => h a (Array.mem_toList_iff.mp ha)
  rw [opening, opening, hattr]

namespace Laid

/-- The element stays what it is; it and its last child may grow where nothing stands behind them. -/
theorem carry (h : e.Laid nodes edge n) (hedge : edge ≤ edge') (hstart : m.span.start = n.span.start)
    (hchildren : m.children = n.children)
    (hstop : m.span.stop = n.span.stop ∨ (e.selfClosed = false ∧ e.endClose = none))
    (hattr : ∀ a ∈ e.attributes, spanAt nodes' a = spanAt nodes a)
    (hkids : ∀ c ∈ n.children, (spanAt nodes' c).start = (spanAt nodes c).start ∧
      ((spanAt nodes' c).stop = (spanAt nodes c).stop ∨ e.ending = [])) : e.Laid nodes' edge' m := by
  have hopening := opening_congr (e := e) hattr
  refine ⟨fun p hp => hstart.trans (h.start p hp), hopening ▸ h.ordered, fun a ha => ?_, fun a ha c hc => ?_,
    fun c hc a ha => ?_, fun hself => ?_, fun p hp => ?_, h.endless, h.ended⟩
  · exact Nat.le_trans (h.stop_le a (hopening ▸ ha)) hedge
  · rw [hchildren] at hc
    exact (hkids c hc).1 ▸ h.behind a (hopening ▸ ha) c hc
  · rw [hchildren] at hc
    rcases (hkids c hc).2 with hsame | hnone
    · exact hsame ▸ h.inside c hc a ha
    · rw [hnone] at ha
      cases ha
  · rcases hstop with hsame | ⟨hfalse, -⟩
    · exact hsame ▸ h.selfClosed hself
    · cases hfalse.symm.trans hself
  · rcases hstop with hsame | ⟨-, hnone⟩
    · exact hsame ▸ h.endClose p hp
    · cases hnone.symm.trans hp

theorem start_grows (h : e.Laid nodes edge n) (hopening : e'.opening nodes' = l ++ [sp])
    (hold : l.Pairwise fun a b => a.stop ≤ b.start) (hle : ∀ a ∈ l, a.stop ≤ sp.start ∧ a.stop ≤ edge')
    (hstop : sp.stop ≤ edge') (hending : e'.ending = []) (hopen : e'.startOpen = e.startOpen)
    (hstart : m.span.start = n.span.start) (hchildren : m.children = #[])
    (hself : e'.selfClosed = true → ∃ p, e'.startClose = some p ∧ m.span.stop = p + 2) :
    e'.Laid nodes' edge' m := by
  have hnone := endOpen_of_ending hending
  refine ⟨fun p hp => hstart.trans (h.start p (hopen ▸ hp)), ?_, fun a ha => ?_, fun a _ c hc => ?_,
    fun c hc => ?_, hself, fun p hp => ?_, fun _ => hending, fun hend => ?_⟩
  · rw [hending, List.append_nil, hopening, List.pairwise_append]
    refine ⟨hold, List.pairwise_singleton .., fun a ha b hb => ?_⟩
    rw [List.mem_singleton.mp hb]
    exact (hle a ha).1
  · rw [hending, List.append_nil, hopening, List.mem_append, List.mem_singleton] at ha
    rcases ha with ha | rfl
    · exact (hle a ha).2
    · exact hstop
  · rw [hchildren] at hc
    simp at hc
  · rw [hchildren] at hc
    simp at hc
  · cases (endClose_of_ending hending).symm.trans hp
  · rw [hnone] at hend
    cases hend

theorem start_adds (h : e.Laid nodes edge n) (sp : Span) (hopening : e'.opening nodes' = e.opening nodes ++ [sp])
    (hle : edge ≤ sp.start) (hspan : sp.start ≤ sp.stop) (hstop : sp.stop ≤ edge') (hending : e'.ending = [])
    (hopen : e'.startOpen = e.startOpen) (hstart : m.span.start = n.span.start) (hchildren : m.children = #[])
    (hself : e'.selfClosed = true → ∃ p, e'.startClose = some p ∧ m.span.stop = p + 2) :
    e'.Laid nodes' edge' m := by
  refine h.start_grows hopening (List.pairwise_append.mp h.ordered).1 (fun a ha => ?_) hstop hending hopen hstart
    hchildren hself
  have := h.stop_le a (List.mem_append_left _ ha)
  omega

theorem end_adds (h : e.Laid nodes edge n) (hattr : ∀ a ∈ e.attributes, spanAt nodes' a = spanAt nodes a)
    (hopening : e'.opening nodes' = e.opening nodes') (hending : e'.ending = e.ending ++ l)
    (hl : l.Pairwise fun a b => a.stop ≤ b.start) (hle : ∀ a ∈ l, edge ≤ a.start ∧ a.stop ≤ edge')
    (hedge : edge ≤ edge') (hkids : ∀ c ∈ n.children, (spanAt nodes' c).start = (spanAt nodes c).start ∧
      ((spanAt nodes' c).stop = (spanAt nodes c).stop ∨ e.ending = []) ∧
        ∀ a ∈ l, (spanAt nodes' c).stop ≤ a.start)
    (hopen : e'.startOpen = e.startOpen) (hstart : m.span.start = n.span.start) (hchildren : m.children = n.children)
    (hself : e'.selfClosed = false) (hclose : ∀ p, e'.endClose = some p → m.span.stop = p + 1)
    (hend : e'.endOpen.isSome = true) : e'.Laid nodes' edge' m := by
  have hparts : e'.opening nodes' ++ e'.ending = (e.opening nodes ++ e.ending) ++ l := by
    rw [hopening, opening_congr hattr, hending, List.append_assoc]
  refine ⟨fun p hp => hstart.trans (h.start p (hopen ▸ hp)), ?_, fun a ha => ?_, fun a ha c hc => ?_,
    fun c hc a ha => ?_, fun htrue => ?_, hclose, fun hnone => ?_, fun _ => hself⟩
  · rw [hparts, List.pairwise_append]
    exact ⟨h.ordered, hl, fun a ha b hb => Nat.le_trans (h.stop_le a ha) (hle b hb).1⟩
  · rw [hparts, List.mem_append] at ha
    exact ha.elim (fun ha => Nat.le_trans (h.stop_le a ha) hedge) fun ha => (hle a ha).2
  · rw [hopening, opening_congr hattr] at ha
    rw [hchildren] at hc
    exact (hkids c hc).1 ▸ h.behind a ha c hc
  · rw [hchildren] at hc
    rw [hending, List.mem_append] at ha
    obtain ⟨-, hstop, hbehind⟩ := hkids c hc
    rcases ha with ha | ha
    · rcases hstop with hsame | hnil
      · exact hsame ▸ h.inside c hc a ha
      · rw [hnil] at ha
        cases ha
    · exact hbehind a ha
  · cases hself.symm.trans htrue
  · rw [hnone] at hend
    cases hend

theorem adopts (h : e.Laid nodes edge n) (hedge : edge ≤ edge') (hending : e.ending = []) (hspan : m.span = n.span)
    (hchildren : m.children = n.children.push c) (hattr : ∀ a ∈ e.attributes, spanAt nodes' a = spanAt nodes a)
    (hkids : ∀ c ∈ n.children, (spanAt nodes' c).start = (spanAt nodes c).start)
    (hnew : edge ≤ (spanAt nodes' c).start) : e.Laid nodes' edge' m := by
  have hopening := opening_congr (e := e) hattr
  refine ⟨fun p hp => hspan ▸ h.start p hp, hopening ▸ h.ordered, fun a ha => ?_, fun a ha i hi => ?_,
    fun _ _ a ha => ?_, fun hself => hspan ▸ h.selfClosed hself, fun p hp => hspan ▸ h.endClose p hp, h.endless,
    h.ended⟩
  · exact Nat.le_trans (h.stop_le a (hopening ▸ ha)) hedge
  · rw [hopening] at ha
    rw [hchildren, Array.mem_push] at hi
    rcases hi with hi | rfl
    · exact hkids i hi ▸ h.behind a ha i hi
    · exact Nat.le_trans (h.stop_le a (List.mem_append_left _ ha)) hnew
  · rw [hending] at ha
    cases ha

theorem of_ending (hopen : e.startOpen = none) (htag : e.tagSpan = none) (hattr : e.attributes = #[])
    (hclose : e.startClose = none) (hself : e.selfClosed = false) (hend : e.endOpen.isSome = true)
    (hordered : e.ending.Pairwise fun a b => a.stop ≤ b.start) (hstop : ∀ a ∈ e.ending, a.stop ≤ edge)
    (hchildren : n.children = #[]) (hendClose : ∀ p, e.endClose = some p → n.span.stop = p + 1) :
    e.Laid nodes edge n := by
  have hnone : e.opening nodes = [] := by simp [opening, hopen, htag, hattr, hclose]
  refine ⟨fun p hp => ?_, ?_, ?_, ?_, ?_, fun htrue => ?_, hendClose, fun ho => ?_, fun _ => hself⟩
  · cases hopen.symm.trans hp
  · rwa [hnone]
  · rwa [hnone]
  · rw [hnone]
    nofun
  · rw [hchildren]
    intro c hc
    simp at hc
  · cases hself.symm.trans htrue
  · rw [ho] at hend
    cases hend

theorem of_bracket (hspan : n.span.start = p) (hchildren : n.children = #[]) (hlt : p < edge) :
    ({ startOpen := some p } : Element).Laid nodes edge n := by
  refine ⟨fun q hq => hspan.trans (Option.some.inj hq), ?_, ?_, ?_, ?_, nofun, nofun, fun _ => rfl, nofun⟩
  · exact List.pairwise_singleton ..
  · simpa [opening, ending] using hlt
  · rw [hchildren]
    intro a _ c hc
    simp at hc
  · rw [hchildren]
    intro c hc
    simp at hc

end Laid

end Element

/-! ## Nodes that grow -/

/-- The parts of all elements are in order. -/
def LaidOut (nodes : Array Node) (edge : Nat) : Prop :=
  ∀ ⦃id : Nat⦄ ⦃n : Node⦄ ⦃e : Element⦄, nodes[id]? = some n → n.kind = .element e →
    e.Laid nodes edge n

/-- The node may grow: it is no attribute, and if it is an element or a child of one, then no part of that element
stands behind it. -/
structure Loose (nodes : Array Node) (id : Nat) : Prop where
  listed : ∀ (p : Nat) (n : Node), nodes[p]? = some n → id ∉ n.attributeIds
  element : ∀ (n : Node) (e : Element), nodes[id]? = some n → n.kind = .element e →
    e.selfClosed = false ∧ e.endClose = none
  around : ∀ (p : Nat) (n : Node) (e : Element), nodes[p]? = some n → id ∈ n.children → n.kind = .element e →
    e.ending = []

/-- No element changes, and only some nodes reach farther. -/
structure Rests (g : Nat → Prop) (nodes nodes' : Array Node) : Prop where
  size : nodes'.size = nodes.size
  node : ∀ (id : Nat) (m : Node), nodes'[id]? = some m → ∃ n, nodes[id]? = some n ∧ m.children = n.children ∧
    m.span.start = n.span.start ∧ (∀ e, m.kind = .element e → n.kind = .element e) ∧
    (m.span.stop = n.span.stop ∨ g id)

variable {g : Nat → Prop} {nodes nodes' nodes'' : Array Node} {id c edge edge' : Nat} {f : Node → Node} {n m : Node}
variable {e : Element} {k : Kind} {span : Span}

theorem span_eq_of_stop {a b : Span} {p : Prop} (h : b.start = a.start ∧ (b.stop = a.stop ∨ p)) (hp : ¬ p) :
    b = a := by
  obtain ⟨hstart, hstop⟩ := h
  rw [show b = ⟨b.start, b.stop⟩ from rfl, hstart, hstop.resolve_right hp]

theorem Node.spanAt_eq (h : nodes[id]? = some n) : spanAt nodes id = n.span := by
  simp [spanAt, Array.getD_eq_getD_getElem?, h]

theorem Node.spanAt_congr (h : nodes'[id]? = nodes[id]?) : spanAt nodes' id = spanAt nodes id := by
  simp [spanAt, Array.getD_eq_getD_getElem?, h]

theorem Node.spanAt_modify_of_ne (h : id ≠ c) : spanAt (nodes.modify id f) c = spanAt nodes c :=
  spanAt_congr (by rw [Array.getElem?_modify, if_neg h])

theorem Node.mem_attributeIds (h : n.kind = .element e) (hid : id ∈ e.attributes) : id ∈ n.attributeIds := by
  rwa [attributeIds, h]

theorem LaidOut.mono (h : LaidOut nodes edge) (hedge : edge ≤ edge') : LaidOut nodes edge' := fun _ _ _ hn hk =>
  (h hn hk).carry hedge rfl rfl (.inl rfl) (fun _ _ => rfl) fun _ _ => ⟨rfl, .inl rfl⟩

namespace Rests

theorem refl (g : Nat → Prop) (nodes : Array Node) : Rests g nodes nodes :=
  ⟨rfl, fun _ m hm => ⟨m, hm, rfl, rfl, fun _ he => he, .inl rfl⟩⟩

theorem of_eq (h : nodes' = nodes) : Rests g nodes nodes' := h ▸ refl ..

theorem trans (h : Rests g nodes nodes') (h' : Rests g nodes' nodes'') : Rests g nodes nodes'' := by
  refine ⟨h'.size.trans h.size, fun id k hk => ?_⟩
  obtain ⟨m, hm, hchildren', hstart', hkind', hstop'⟩ := h'.node id k hk
  obtain ⟨n, hn, hchildren, hstart, hkind, hstop⟩ := h.node id m hm
  refine ⟨n, hn, hchildren'.trans hchildren, hstart'.trans hstart, fun e he => hkind e (hkind' e he), ?_⟩
  rcases hstop' with hsame' | hgrows
  · exact hstop.imp_left hsame'.trans
  · exact .inr hgrows

theorem modify (f : Node → Node) (hf : ∀ n, (f n).children = n.children ∧ (f n).span.start = n.span.start ∧
    (∀ e, (f n).kind = .element e → n.kind = .element e) ∧ ((f n).span.stop = n.span.stop ∨ g id)) :
    Rests g nodes (nodes.modify id f) := by
  refine ⟨by simp, fun c m hm => ?_⟩
  obtain ⟨n, hn, ⟨rfl, rfl⟩ | ⟨-, rfl⟩⟩ := getElem?_modify_eq_some hm
  · exact ⟨n, hn, hf n⟩
  · exact ⟨m, hn, rfl, rfl, fun _ he => he, .inl rfl⟩

theorem reach {ids : List Nat} (h : ∀ id ∈ ids, g id) (stop : Nat) :
    Rests g nodes (Builder.reach nodes ids stop) := by
  refine ⟨Builder.size_reach .., fun id m hm => ?_⟩
  rw [Builder.getElem?_reach] at hm
  obtain ⟨n, hn, rfl⟩ := Option.map_eq_some_iff.mp hm
  split
  · exact ⟨n, hn, rfl, rfl, fun _ he => he, .inr (h id ‹_›)⟩
  · exact ⟨n, hn, rfl, rfl, fun _ he => he, .inl rfl⟩

theorem spanAt (h : Rests g nodes nodes') (id : Nat) : (spanAt nodes' id).start = (spanAt nodes id).start ∧
    ((spanAt nodes' id).stop = (spanAt nodes id).stop ∨ g id) := by
  cases hm : nodes'[id]? with
  | some m =>
    obtain ⟨n, hn, -, hstart, -, hstop⟩ := h.node id m hm
    rw [spanAt_eq hm, spanAt_eq hn]
    exact ⟨hstart, hstop⟩
  | none =>
    have hnone : nodes[id]? = none := by
      rw [Array.getElem?_eq_none_iff] at hm ⊢
      exact h.size ▸ hm
    rw [spanAt_congr (hm.trans hnone.symm)]
    exact ⟨rfl, .inl rfl⟩

end Rests

theorem Loose.of_same (h : Loose nodes id) (hsame : ∀ (p : Nat) (m : Node), nodes'[p]? = some m →
    ∃ n, nodes[p]? = some n ∧ m.attributeIds = n.attributeIds ∧ m.children = n.children ∧
      ∀ e, m.kind = .element e → n.kind = .element e) : Loose nodes' id := by
  refine ⟨fun p m hm => ?_, fun m e hm hkind => ?_, fun p m e hm hmem hkind => ?_⟩
  · obtain ⟨n, hn, hattr, -⟩ := hsame p m hm
    exact hattr ▸ h.listed p n hn
  · obtain ⟨n, hn, -, -, hk⟩ := hsame id m hm
    exact h.element n e hn (hk e hkind)
  · obtain ⟨n, hn, -, hchildren, hk⟩ := hsame p m hm
    exact h.around p n e hn (hchildren ▸ hmem) (hk e hkind)

theorem Loose.reach (h : Loose nodes id) (ids : List Nat) (stop : Nat) : Loose (Builder.reach nodes ids stop) id := by
  refine h.of_same fun p m hm => ?_
  rw [Builder.getElem?_reach] at hm
  obtain ⟨n, hn, rfl⟩ := Option.map_eq_some_iff.mp hm
  refine ⟨n, hn, ?_⟩
  split <;> exact ⟨rfl, rfl, fun _ he => he⟩

theorem LaidOut.rests (h : LaidOut nodes edge) (hr : Rests g nodes nodes') (hloose : ∀ id, g id → Loose nodes id)
    (hedge : edge ≤ edge') : LaidOut nodes' edge' := by
  intro id m e hm hkind
  obtain ⟨n, hn, hchildren, hstart, hsame, hstop⟩ := hr.node id m hm
  have he := hsame e hkind
  refine (h hn he).carry hedge hstart hchildren (hstop.imp_right fun hg => (hloose id hg).element n e hn he)
    (fun a ha => ?_) fun c hc => ?_
  · exact span_eq_of_stop (hr.spanAt a) fun hg => (hloose a hg).listed id n hn (mem_attributeIds he ha)
  · exact (hr.spanAt c).imp_right fun hstop => hstop.imp_right fun hg => (hloose c hg).around id n e hn hc he

/-! ## One node is written to -/

/-- What `f` does to the node leaves it where it is, or lets it reach farther if it may. -/
def KeepsPlace (nodes : Array Node) (id : Nat) (f : Node → Node) : Prop := ∀ n, nodes[id]? = some n →
  (f n).span.start = n.span.start ∧ ((f n).span.stop = n.span.stop ∨ Loose nodes id)

theorem Loose.keepsPlace (h : Loose nodes id) (hf : ∀ n, (f n).span.start = n.span.start) : KeepsPlace nodes id f :=
  fun n _ => ⟨hf n, .inr h⟩

theorem KeepsPlace.spanAt (hf : KeepsPlace nodes id f) (c : Nat) :
    (spanAt (nodes.modify id f) c).start = (spanAt nodes c).start ∧
      ((spanAt (nodes.modify id f) c).stop = (spanAt nodes c).stop ∨ Loose nodes c) := by
  by_cases hid : id = c
  · subst hid
    cases hn : nodes[id]? with
    | none =>
      have hsame : (nodes.modify id f)[id]? = nodes[id]? := by rw [Array.getElem?_modify, if_pos rfl, hn]; rfl
      rw [spanAt_congr hsame]
      exact ⟨rfl, .inl rfl⟩
    | some n =>
      have hm : (nodes.modify id f)[id]? = some (f n) := by rw [Array.getElem?_modify, if_pos rfl, hn]; rfl
      rw [spanAt_eq hn, spanAt_eq hm]
      exact hf n hn
  · rw [spanAt_modify_of_ne hid]
    exact ⟨rfl, .inl rfl⟩

theorem KeepsPlace.spanAt_listed (hf : KeepsPlace nodes id f) (hn : nodes[c]? = some n) {a : Nat}
    (ha : a ∈ n.attributeIds) : Node.spanAt (nodes.modify id f) a = Node.spanAt nodes a :=
  span_eq_of_stop (hf.spanAt a) fun hl => hl.listed c n hn ha

theorem spanAt_modify_of_same (f : Node → Node) (hf : ∀ n, (f n).span = n.span) (c : Nat) :
    spanAt (nodes.modify id f) c = spanAt nodes c := by
  have hsame : (nodes.modify id f)[c]?.map (·.span) = nodes[c]?.map (·.span) := by
    rw [Array.getElem?_modify]
    split
    · rw [Option.map_map, show (·.span) ∘ f = (·.span) from funext hf]
    · rfl
  cases hn : nodes[c]? <;> cases hm : (nodes.modify id f)[c]? <;>
    simp_all [spanAt, Array.getD_eq_getD_getElem?]

theorem LaidOut.write (h : LaidOut nodes edge) (hedge : edge ≤ edge') (hf : KeepsPlace nodes id f)
    (hown : ∀ n e, nodes[id]? = some n → (f n).kind = .element e → e.Laid (nodes.modify id f) edge' (f n)) :
    LaidOut (nodes.modify id f) edge' := by
  intro c m e hm hkind
  obtain ⟨n, hn, ⟨rfl, rfl⟩ | ⟨-, rfl⟩⟩ := getElem?_modify_eq_some hm
  · exact hown n e hn hkind
  · refine (h hn hkind).carry hedge rfl rfl (.inl rfl) (fun a ha => ?_) fun i hi => ?_
    · exact hf.spanAt_listed hn (mem_attributeIds hkind ha)
    · exact (hf.spanAt i).imp_right fun hstop => hstop.imp_right fun hl => hl.around c m e hn hi hkind

theorem LaidOut.ends (h : LaidOut nodes edge) (hloose : Loose nodes id) (ha : Arena nodes) (hn : nodes[id]? = some n)
    (hkind : n.kind = .element e) (e' : Element) {l : List Span} (hopening : ∀ g, e'.opening g = e.opening g)
    (hending : e'.ending = e.ending ++ l) (hl : l.Pairwise fun a b => a.stop ≤ b.start)
    (hle : ∀ a ∈ l, edge ≤ a.start ∧ a.stop ≤ edge') (hedge : edge ≤ edge')
    (hkids : ∀ c ∈ n.children, ∀ a ∈ l, (spanAt nodes c).stop ≤ a.start) (hopen : e'.startOpen = e.startOpen)
    (hself : e'.selfClosed = false) {stop : Nat} (hclose : ∀ p, e'.endClose = some p → max n.span.stop stop = p + 1)
    (hend : e'.endOpen.isSome = true) :
    LaidOut (nodes.modify id fun n => { n with kind := .element e', span := n.span.extendTo stop }) edge' := by
  have hplace : KeepsPlace nodes id fun n => { n with kind := .element e', span := n.span.extendTo stop } :=
    hloose.keepsPlace fun _ => rfl
  refine h.write hedge hplace fun m e₁ hm he₁ => ?_
  obtain rfl := Option.some.inj (hn.symm.trans hm)
  obtain rfl := Kind.element.inj he₁
  refine (h hn hkind).end_adds (fun a hmem => hplace.spanAt_listed hn (mem_attributeIds hkind hmem)) (hopening _)
    hending hl hle hedge (fun c hc => ?_) hopen rfl rfl hself hclose hend
  rw [spanAt_modify_of_ne (Nat.ne_of_lt (ha.child_lt ((ha.child hn).mp hc)))]
  exact ⟨rfl, .inl rfl, hkids c hc⟩

theorem Node.spanAt_grow_of_lt (h : c < nodes.size) : spanAt (grow nodes id f n) c = spanAt (nodes.modify id f) c :=
  spanAt_congr (by rw [grow, Array.getElem?_push, if_neg (by simpa using Nat.ne_of_lt h)])

theorem Node.spanAt_grow_size (nodes : Array Node) (id : Nat) (f : Node → Node) (n : Node) :
    spanAt (grow nodes id f n) nodes.size = n.span :=
  spanAt_eq (by rw [getElem?_grow, if_pos rfl])

theorem LaidOut.grow (h : LaidOut nodes edge) (ha : Arena nodes) (hedge : edge ≤ edge') (hf : KeepsPlace nodes id f)
    (hown : ∀ m e, nodes[id]? = some m → (f m).kind = .element e → e.Laid (grow nodes id f n) edge' (f m))
    (hnew : ∀ e, n.kind = .element e → e.Laid (grow nodes id f n) edge' n) : LaidOut (grow nodes id f n) edge' := by
  intro c k e hk hkind
  rw [getElem?_grow] at hk
  split at hk
  · obtain rfl := Option.some.inj hk
    exact hnew e hkind
  split at hk
  · rename_i hid
    subst hid
    obtain ⟨m, hm, rfl⟩ := Option.map_eq_some_iff.mp hk
    exact hown m e hm hkind
  · refine (h hk hkind).carry hedge rfl rfl (.inl rfl) (fun a hmem => ?_) fun i hi => ?_
    · have hlisted := mem_attributeIds hkind hmem
      rw [spanAt_grow_of_lt ((ha.attr hk).mp hlisted).lt_size]
      exact hf.spanAt_listed hk hlisted
    · rw [spanAt_grow_of_lt ((ha.child hk).mp hi).lt_size]
      exact (hf.spanAt i).imp_right fun hstop => hstop.imp_right fun hl => hl.around c k e hk hi hkind

/-- An attribute reaches farther; the parts of all elements but its own stay in order. -/
theorem LaidOut.stretch (h : LaidOut nodes edge) (ha : Arena nodes) (hedge : edge ≤ edge') {p a : Nat}
    (hattr : Attr nodes p a) (hf : ∀ n, nodes[a]? = some n → ∀ e, (f n).kind ≠ .element e)
    (hown : ∀ n e, nodes[p]? = some n → n.kind = .element e → e.Laid (nodes.modify a f) edge' n) :
    LaidOut (nodes.modify a f) edge' := by
  obtain ⟨k, hk, hparent, hattribute⟩ := hattr
  intro c m e hm hkind
  obtain ⟨n, hn, ⟨rfl, rfl⟩ | ⟨-, rfl⟩⟩ := getElem?_modify_eq_some hm
  · exact absurd hkind (hf n hn e)
  by_cases hc : c = p
  · subst hc
    exact hown m e hn hkind
  · refine (h hn hkind).carry hedge rfl rfl (.inl rfl) (fun i hi => spanAt_modify_of_ne ?_) fun i hi => ?_
    · rintro rfl
      obtain ⟨k', hk', hparent', -⟩ := (ha.attr hn).mp (mem_attributeIds hkind hi)
      obtain rfl := Option.some.inj (hk.symm.trans hk')
      exact hc (Option.some.inj (hparent'.symm.trans hparent))
    · rw [spanAt_modify_of_ne]
      · exact ⟨rfl, .inl rfl⟩
      · rintro rfl
        obtain ⟨k', hk', -, hfalse⟩ := (ha.child hn).mp hi
        obtain rfl := Option.some.inj (hk.symm.trans hk')
        cases hattribute.symm.trans hfalse

theorem exists_concat_of_max {l : List Nat} {a : Nat} (hl : l.Pairwise (· < ·)) (ha : a ∈ l)
    (hmax : ∀ c ∈ l, c ≤ a) :
    ∃ init, l = init ++ [a] ∧ ∀ c ∈ init, c < a := by
  obtain ⟨init, rest, rfl⟩ := List.append_of_mem ha
  obtain ⟨-, hrest, hinit⟩ := List.pairwise_append.mp hl
  cases rest with
  | nil => exact ⟨init, rfl, fun c hc => hinit c hc a (List.mem_singleton_self a)⟩
  | cons c rest =>
    have hle := hmax c (List.mem_append_right _ (List.mem_cons_of_mem _ List.mem_cons_self))
    exact absurd ((List.pairwise_cons.mp hrest).1 c List.mem_cons_self) (Nat.not_lt_of_le hle)

/-- The last attribute of an element whose start tag goes on reaches farther. -/
theorem Element.Laid.stretch (h : e.Laid nodes edge n) {a : Nat} {init : List Nat}
    (hlast : e.attributes.toList = init ++ [a]) (hinit : ∀ c ∈ init, c < a) (hclose : e.startClose = none)
    (hself : e.selfClosed = false) (hending : e.ending = []) (hchildren : n.children = #[])
    (hstart : (spanAt (nodes.modify a f) a).start = (spanAt nodes a).start)
    (hstop : (spanAt (nodes.modify a f) a).stop ≤ edge') (hedge : edge ≤ edge') :
    e.Laid (nodes.modify a f) edge' n := by
  have hparts (g : Array Node) : e.opening g = (e.startOpen.map fun p => ⟨p, p + 1⟩).toList ++ e.tagSpan.toList ++
      init.map (spanAt g) ++ [spanAt g a] := by
    simp [opening, hlast, hclose]
  have hsame : init.map (spanAt (nodes.modify a f)) = init.map (spanAt nodes) :=
    List.map_congr_left fun c hc => spanAt_modify_of_ne (Nat.ne_of_gt (hinit c hc))
  have hordered := (List.pairwise_append.mp h.ordered).1
  have hle := h.stop_le
  rw [hparts, List.pairwise_append] at hordered
  rw [hparts] at hle
  refine h.start_grows ((hparts _).trans (by rw [hsame])) hordered.1 (fun i hi => ⟨?_, ?_⟩) hstop hending rfl rfl
    hchildren fun htrue => ?_
  · exact hstart ▸ hordered.2.2 i hi _ (List.mem_singleton_self _)
  · exact Nat.le_trans (hle i (List.mem_append_left _ (List.mem_append_left _ hi))) hedge
  · cases hself.symm.trans htrue

end XmlAssist
