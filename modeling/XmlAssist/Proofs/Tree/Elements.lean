import Mathlib.Data.List.Basic
import XmlAssist.Proofs.Tree.Recording

/-!
# The open elements

How tags pair up depends on little of what a builder holds: the names and tags of its elements, which
of them are open, and where those end that are left without an end tag. Most of what the builder
does changes none of this (`Quiet`), also where it changes nodes, adds some or goes from one to
another. What it does otherwise leaves all elements but one alone (`Frame`).
-/

namespace XmlAssist

open Node
open Text (size isBoundary)

/-- The element up to its attributes and to where its tags end. -/
def Element.core (e : Element) : Element :=
  { e with startClose := none, endClose := none, attributes := #[] }

/-- The element of that kind up to its attributes and to where its tags end. -/
def Node.Kind.core : Kind → Option Element
  | .element e => some e.core
  | _ => none

theorem forall_core {k : Kind} {P : Element → Prop} (h : k.core = none) :
    ∀ e, k.core = some e → P e := by
  simp [h]

namespace Builder

variable {s : String} {top edge id c stop : Nat} {b b' b'' : Builder} {e : Element} {k k' : Kind}
variable {f : Node → Node} {changed : Option Nat}

/-- The element with a number, up to its attributes and to where its tags end. -/
def core (b : Builder) (id : Nat) : Option Element := (b.kindOf id).core

def stopOf (b : Builder) (id : Nat) : Nat := ((b.nodes[id]?).map (·.span.stop)).getD 0

/-- Those of the nodes that are elements whose end has not been seen. -/
def openAmong (b : Builder) (ids : List Nat) : List (Nat × Element) :=
  ids.filterMap fun id => ((b.core id).filter (!·.closed)).map (id, ·)

def opened (b : Builder) : List (Nat × Element) := b.openAmong (chain b.nodes b.current)

def IsOpen (b : Builder) (id : Nat) : Prop := ∃ e, (id, e) ∈ b.opened

theorem core_eq_some : b.core id = some e ↔ ∃ e', b.kindOf id = .element e' ∧ e'.core = e := by
  unfold core
  cases b.kindOf id <;> simp [Kind.core]

theorem core_of_kindOf {e' : Element} (h : b.kindOf id = .element e') : b.core id = some e'.core := by
  rw [core, h]
  rfl

theorem lt_size_of_core (h : b.core id = some e) : id < b.nodes.size := by
  obtain ⟨e', he', -⟩ := core_eq_some.mp h
  obtain ⟨n, hn, -⟩ := exists_node he' (by simp)
  exact lt_size_of_getElem? hn

theorem mem_openAmong {ids : List Nat} :
    (id, e) ∈ b.openAmong ids ↔ id ∈ ids ∧ b.core id = some e ∧ e.closed = false := by
  simp only [openAmong, List.mem_filterMap, Option.map_eq_some_iff, Option.filter_eq_some_iff,
    Prod.mk.injEq, Bool.not_eq_true']
  constructor
  · rintro ⟨_, hc, _, ⟨hcore, hclosed⟩, rfl, rfl⟩
    exact ⟨hc, hcore, hclosed⟩
  · rintro ⟨hc, hcore, hclosed⟩
    exact ⟨id, hc, e, ⟨hcore, hclosed⟩, rfl, rfl⟩

theorem mem_opened : (id, e) ∈ b.opened ↔
    id ∈ chain b.nodes b.current ∧ b.core id = some e ∧ e.closed = false := mem_openAmong

theorem isOpen_of_mem_chain (hc : id ∈ chain b.nodes b.current) (hcore : b.core id = some e)
    (hclosed : e.closed = false) : b.IsOpen id := ⟨e, mem_opened.mpr ⟨hc, hcore, hclosed⟩⟩

theorem openAmong_cons (h : b.core id = some e) (hclosed : e.closed = false) (ids : List Nat) :
    b.openAmong (id :: ids) = (id, e) :: b.openAmong ids :=
  List.filterMap_cons_some (by simp [h, hclosed])

theorem openAmong_cons_of_closed (h : ∀ e, b.core id = some e → e.closed = true) (ids : List Nat) :
    b.openAmong (id :: ids) = b.openAmong ids := by
  refine List.filterMap_cons_none ?_
  cases hcore : b.core id with
  | none => rfl
  | some e => simp [h e hcore]

theorem openAmong_congr {ids : List Nat} (h : ∀ id ∈ ids, b'.core id = b.core id) :
    b'.openAmong ids = b.openAmong ids :=
  List.filterMap_congr fun id hid => by rw [h id hid]

theorem opened_pairwise (b : Builder) : b.opened.Pairwise (·.1 > ·.1) := by
  refine List.Pairwise.filterMap _ (fun c d hcd x hx y hy => ?_) (chain_pairwise b.nodes b.current)
  obtain ⟨_, -, rfl⟩ := Option.map_eq_some_iff.mp hx
  obtain ⟨_, -, rfl⟩ := Option.map_eq_some_iff.mp hy
  exact hcd

theorem opened_sorted {inner outer : List (Nat × Element)} (h : b.opened = inner ++ (id, e) :: outer) :
    (∀ c ∈ inner, id < c.1) ∧ ∀ c ∈ outer, c.1 < id := by
  have hsorted := opened_pairwise b
  rw [h, List.pairwise_append, List.pairwise_cons] at hsorted
  exact ⟨fun c hc => hsorted.2.2 c hc _ List.mem_cons_self, hsorted.2.1.1⟩

/-! ## What is left alone -/

/-- Nodes stay where they are, all elements but one stay what they are, and an element that was left
without an end ends where it did. -/
structure Frame (changed : Option Nat) (b b' : Builder) : Prop where
  size_le : b.nodes.size ≤ b'.nodes.size
  chain : ∀ id < b.nodes.size, chain b'.nodes id = chain b.nodes id
  core : ∀ id < b.nodes.size, changed ≠ some id → b'.core id = b.core id
  stop : ∀ id e, b.core id = some e → e.closed = false → ¬ b.IsOpen id → b'.stopOf id = b.stopOf id

/-- Nothing changes about the pairing of tags; new elements are end tags without a name. -/
structure Quiet (b b' : Builder) : Prop extends Frame none b b' where
  opened : b'.opened = b.opened
  fresh : ∀ id e, b.nodes.size ≤ id → b'.core id = some e → e.tag = none ∧ e.startOpen = none

theorem Frame.of_nodes (h : Frame changed b b') (hnodes : b''.nodes = b'.nodes) :
    Frame changed b b'' := by
  obtain ⟨nodes', _, _, _, _, _, _⟩ := b'
  obtain ⟨nodes'', _, _, _, _, _, _⟩ := b''
  obtain rfl : nodes'' = nodes' := hnodes
  exact ⟨h.1, h.2, h.3, h.4⟩

theorem Quiet.isOpen_iff (h : Quiet b b') : b'.IsOpen id ↔ b.IsOpen id := by
  unfold IsOpen
  rw [h.opened]

theorem Quiet.of_same (hnodes : b'.nodes = b.nodes) (hcurrent : b'.current = b.current) :
    Quiet b b' := by
  have hcore (id : Nat) : b'.core id = b.core id := by rw [Builder.core, kindOf, hnodes]; rfl
  refine ⟨⟨Nat.le_of_eq (by rw [hnodes]), fun id _ => by rw [hnodes], fun id _ _ => hcore id,
    fun id e _ _ _ => by rw [stopOf, hnodes]; rfl⟩, ?_, fun id e hle h => ?_⟩
  · rw [Builder.opened, hnodes, hcurrent]
    exact openAmong_congr fun id _ => hcore id
  · rw [hcore] at h
    exact absurd (lt_size_of_core h) (Nat.not_lt_of_le hle)

theorem Quiet.refl (b : Builder) : Quiet b b := .of_same rfl rfl

theorem Quiet.frame (h : Quiet b b') (h' : Frame changed b' b'') : Frame changed b b'' where
  size_le := Nat.le_trans h.size_le h'.size_le
  chain id hid := (h'.chain id (Nat.lt_of_lt_of_le hid h.size_le)).trans (h.chain id hid)
  core id hid hne := (h'.core id (Nat.lt_of_lt_of_le hid h.size_le) hne).trans (h.core id hid nofun)
  stop id e he hclosed hopen := by
    have he' : b'.core id = some e := (h.core id (lt_size_of_core he) nofun).trans he
    exact (h'.stop id e he' hclosed (mt h.isOpen_iff.mp hopen)).trans (h.stop id e he hclosed hopen)

theorem Quiet.trans (h : Quiet b b') (h' : Quiet b' b'') : Quiet b b'' where
  toFrame := h.frame h'.toFrame
  opened := h'.opened.trans h.opened
  fresh id e hle he := by
    rcases Nat.lt_or_ge id b'.nodes.size with hlt | hge
    · exact h.fresh id e hle ((h'.core id hlt nofun).symm.trans he)
    · exact h'.fresh id e hge he

/-! ## Changes of one node -/

theorem stopOf_modify_of_ne (h : id ≠ c) : (b.modify id f).stopOf c = b.stopOf c := by
  simp [stopOf, Builder.modify, Array.getElem?_modify, h]

theorem core_modify_of_ne (h : id ≠ c) : (b.modify id f).core c = b.core c := by
  rw [core, kindOf_modify_of_ne h]
  rfl

theorem frame_modify (hlinks : ∀ n, b.nodes[id]? = some n → SameLinks n (f n))
    (hid : id ∈ chain b.nodes b.current ∨ b.core id = none) : Frame (some id) b (b.modify id f) where
  size_le := Nat.le_of_eq (by simp [Builder.modify])
  chain c _ := (relinks_modify hlinks).chain c
  core c _ hne := core_modify_of_ne fun h => hne (congrArg some h)
  stop c e he hclosed hopen := by
    refine stopOf_modify_of_ne fun h => ?_
    subst h
    rcases hid with hid | hid
    · exact hopen (isOpen_of_mem_chain hid he hclosed)
    · rw [hid] at he
      cases he

theorem quiet_modify (hlinks : ∀ n, b.nodes[id]? = some n → SameLinks n (f n))
    (hcore : ∀ n, b.nodes[id]? = some n → (f n).kind.core = n.kind.core)
    (hid : id ∈ chain b.nodes b.current ∨ b.core id = none) : Quiet b (b.modify id f) := by
  have hframe := frame_modify hlinks hid
  have hsame (c : Nat) : (b.modify id f).core c = b.core c := by
    by_cases h : id = c
    · subst h
      cases hn : b.nodes[id]? with
      | none => simp [core, kindOf, Builder.modify, Array.getElem?_modify, hn]
      | some n =>
        have hn' : (b.modify id f).nodes[id]? = some (f n) := by
          simp [Builder.modify, Array.getElem?_modify, hn]
        rw [core, kindOf_eq hn', hcore n hn, core, kindOf_eq hn]
    · exact core_modify_of_ne h
  refine ⟨{ hframe with core := fun c _ _ => hsame c }, ?_, fun c e hle he => ?_⟩
  · show (b.modify id f).openAmong (chain (b.nodes.modify id f) b.current) = b.opened
    rw [(relinks_modify hlinks).chain]
    exact openAmong_congr fun c _ => hsame c
  · rw [hsame] at he
    exact absurd (lt_size_of_core he) (Nat.not_lt_of_le hle)

theorem quiet_update (hk : (b.kindOf id).Alike k) (hcore : k.core = (b.kindOf id).core)
    (hid : id ∈ chain b.nodes b.current ∨ b.core id = none) : Quiet b (b.update id k stop) := by
  refine quiet_modify (fun n hn => ?_) (fun n hn => ?_) hid
  · rw [kindOf_eq hn] at hk
    exact hk.sameLinks _
  · rw [kindOf_eq hn] at hcore
    exact hcore

theorem quiet_extend (hid : id ∈ chain b.nodes b.current ∨ b.core id = none) :
    Quiet b (b.extend id stop) :=
  quiet_modify (fun n _ => (Kind.Alike.refl n.kind).sameLinks _) (fun _ _ => rfl) hid

theorem quiet_foldl_extend {ids : List Nat} (hids : ∀ id ∈ ids, id ∈ chain b.nodes b.current)
    (stop : Nat) :
    Quiet b (ids.foldl (fun b id => b.extend id stop) b) := by
  induction ids generalizing b with
  | nil => exact .refl b
  | cons id ids ih =>
    refine (quiet_extend (.inl (hids id List.mem_cons_self))).trans (ih fun c hc => ?_)
    show c ∈ chain (b.extend id stop).nodes b.current
    rw [(relinks_extend b id stop).chain]
    exact hids c (List.mem_cons_of_mem _ hc)

theorem quiet_adjust (hkind : b.kindOf b.current = k) (hk : k.Alike k') (hcore : k'.core = k.core) :
    Quiet b (b.update b.current k' stop) := by
  subst hkind
  exact quiet_update hk hcore (.inl (mem_chain_self ..))

/-! ## Back to a node around -/

theorem exists_parentAt (ha : Arena b.nodes) (hkind : b.kindOf id = k) (hk : k ≠ .document) :
    ∃ p, parentAt b.nodes id = some p ∧ p < id := by
  obtain ⟨n, hn, hnk⟩ := exists_node hkind hk
  rcases Nat.eq_zero_or_pos id with rfl | hpos
  · obtain ⟨m, hm, hdoc, -⟩ := ha.root
    rw [Option.some.inj (hn.symm.trans hm), hdoc] at hnk
    exact absurd hnk.symm hk
  · obtain ⟨-, p, hp, hlt⟩ := ha.inner hn hpos
    exact ⟨p, parentAt_eq_some.mpr ⟨n, hn, hp⟩, hlt⟩

theorem quiet_goTo (ha : Arena b.nodes) (hkind : b.kindOf b.current = k) (hk : k ≠ .document)
    (hclosed : ∀ e, k.core = some e → e.closed = true) (hnodes : b'.nodes = b.nodes)
    (hcurrent : b'.current = b.parentOf b.current) : Quiet b b' := by
  obtain ⟨p, hp, hlt⟩ := exists_parentAt ha hkind hk
  rw [parentOf_eq hp] at hcurrent
  suffices hleft : Quiet b { b with current := p } from hleft.trans (.of_same hnodes hcurrent)
  refine ⟨⟨Nat.le_refl _, fun _ _ => rfl, fun _ _ _ => rfl, fun _ _ _ _ _ => rfl⟩, ?_, ?_⟩
  · rw [Builder.opened, Builder.opened, chain_of_parentAt hp hlt, openAmong_cons_of_closed]
    · rfl
    · intro e he
      rw [core, hkind] at he
      exact hclosed e he
  · intro c e hle he
    exact absurd (lt_size_of_core he) (Nat.not_lt_of_le hle)

theorem quiet_leave (ha : Arena b.nodes) (hkind : b.kindOf b.current = k) (hk : k ≠ .document)
    (hclosed : ∀ e, k.core = some e → e.closed = true) : Quiet b b.leave :=
  quiet_goTo ha hkind hk hclosed rfl rfl

theorem quiet_finish (ha : Arena b.nodes) (hkind : b.kindOf b.current = k) (hk : k.Alike k')
    (hinner : k ≠ .document) (hcore : k'.core = k.core)
    (hclosed : ∀ e, k.core = some e → e.closed = true) :
    Quiet b (b.update b.current k' stop).leave := by
  refine (quiet_adjust hkind hk hcore).trans (quiet_leave ?_ (kindOf_update hkind hinner) ?_ ?_)
  · exact ha.of_relinks (relinks_update (by rwa [hkind]) stop)
  · rintro rfl
    cases k <;> simp_all [Kind.Alike]
  · rwa [hcore]

/-! ## A node more -/

section grow
variable {m n : Node}

theorem frame_grow (ha : Adds b.nodes b.current m (f m) n) (hcore : (f m).kind.core = m.kind.core)
    (hnodes : b'.nodes = grow b.nodes b.current f n) : Frame none b b' := by
  have hget {c : Nat} (hc : c < b.nodes.size) : b'.nodes[c]? =
      if c = b.current then some (f m) else b.nodes[c]? := by
    rw [hnodes, ha.getElem?, if_neg (Nat.ne_of_lt hc)]
  refine ⟨?_, fun c hc => ?_, fun c hc _ => ?_, fun c e he hclosed hopen => ?_⟩
  · rw [hnodes, size_grow]
    exact Nat.le_succ _
  · rw [hnodes]
    exact ha.chain_of_ne (Nat.ne_of_lt hc)
  · have hc' := hget hc
    split at hc'
    · rename_i heq
      rw [core, kindOf_eq hc', hcore, core, heq, kindOf_eq ha.owner]
    · rw [core, kindOf, hc']
      rfl
  · have hc' := hget (lt_size_of_core he)
    rw [if_neg] at hc'
    · rw [stopOf, hc']
      rfl
    · rintro rfl
      exact hopen (isOpen_of_mem_chain (mem_chain_self ..) he hclosed)

theorem core_grow_size (hnodes : b'.nodes = grow b.nodes b.current f n) :
    b'.core b.nodes.size = n.kind.core := by
  rw [core, kindOf_eq (n := n)]
  rw [hnodes, getElem?_grow, if_pos rfl]

theorem openAmong_grow (ha : Adds b.nodes b.current m (f m) n)
    (hcore : (f m).kind.core = m.kind.core) (hnodes : b'.nodes = grow b.nodes b.current f n) :
    b'.openAmong (chain b.nodes b.current) = b.opened :=
  openAmong_congr fun _ hc =>
    (frame_grow ha hcore hnodes).core _ (lt_size_of_mem_chain ha.lt_size hc) nofun

theorem quiet_grow (ha : Adds b.nodes b.current m (f m) n) (hcore : (f m).kind.core = m.kind.core)
    (hnew : ∀ e, n.kind.core = some e → e.tag = none ∧ e.startOpen = none)
    (hnodes : b'.nodes = grow b.nodes b.current f n)
    (hcurrent : b'.current = b.current ∨ (b'.current = b.nodes.size ∧ n.kind.core = none)) :
    Quiet b b' where
  toFrame := frame_grow ha hcore hnodes
  opened := by
    rw [← openAmong_grow ha hcore hnodes, opened]
    rcases hcurrent with hcurrent | ⟨hcurrent, hnone⟩
    · rw [hcurrent, hnodes, ha.chain_of_ne (Nat.ne_of_lt ha.lt_size)]
    · rw [hcurrent, hnodes, ha.chain_size, openAmong_cons_of_closed]
      intro e he
      rw [core_grow_size hnodes, hnone] at he
      cases he
  fresh c e hle he := by
    have hlt := lt_size_of_core he
    rw [hnodes, size_grow] at hlt
    obtain rfl : c = b.nodes.size := by omega
    rw [core_grow_size hnodes] at he
    exact hnew e he

end grow

variable {span : Span}

theorem Nested.adds (h : Nested s top b.nodes b.current edge) (hk : k.Bare) (span : Span) :
    ∃ m, Adds b.nodes b.current m (withChild b.nodes.size m)
      { span, parent := some b.current, kind := k } := by
  obtain ⟨m, hm, -⟩ := h.current_node
  exact ⟨m, adds_child h.arena h.rightmost hm hk⟩

theorem quiet_append (h : Nested s top b.nodes b.current edge) (hk : k.Bare)
    (hnew : ∀ e, k.core = some e → e.tag = none ∧ e.startOpen = none) :
    Quiet b (b.append k span) := by
  obtain ⟨m, ha⟩ := Nested.adds h hk span
  exact quiet_grow ha rfl hnew (append_nodes ..) (.inl rfl)

theorem quiet_openNode (h : Nested s top b.nodes b.current edge) (hk : k.Bare)
    (hnone : k.core = none) : Quiet b (b.openNode k span) := by
  obtain ⟨m, ha⟩ := Nested.adds h hk span
  exact quiet_grow ha rfl (by simp [hnone]) (append_nodes ..) (.inr ⟨openNode_current .., hnone⟩)

theorem frame_openNode (h : Nested s top b.nodes b.current edge) (hk : k.Bare) :
    Frame none b (b.openNode k span) := by
  obtain ⟨m, ha⟩ := Nested.adds h hk span
  exact frame_grow ha rfl (append_nodes ..)

theorem core_openNode : (b.openNode k span).core b.nodes.size = k.core :=
  core_grow_size (append_nodes ..)

theorem chain_openNode (h : Nested s top b.nodes b.current edge) (hk : k.Bare) :
    chain (b.openNode k span).nodes b.nodes.size = b.nodes.size :: chain b.nodes b.current := by
  obtain ⟨m, ha⟩ := Nested.adds h hk span
  exact ha.chain_size

theorem opened_openNode (h : Nested s top b.nodes b.current edge) (hk : k.Bare) :
    (b.openNode k span).opened = (b.openNode k span).openAmong [b.nodes.size] ++ b.opened := by
  obtain ⟨m, ha⟩ := Nested.adds h hk span
  rw [opened, openNode_current, chain_openNode h hk, ← openAmong_grow ha rfl (append_nodes ..)]
  exact List.filterMap_append (l := [b.nodes.size])

/-! ## Before new markup -/

theorem quiet_flushEndTag (h : Nested s top b.nodes b.current edge) (stop : Nat)
    (close : Option Nat) : Quiet b (b.flushEndTag stop close) := by
  unfold flushEndTag
  split
  · have htake : Quiet b { b with endTagOpen := none } := .of_same rfl rfl
    refine htake.trans (quiet_append (b := { b with endTagOpen := none }) h rfl fun e he => ?_)
    obtain rfl := Option.some.inj he
    exact ⟨rfl, rfl⟩
  · exact .refl b

theorem quiet_leaveClosedElement (ha : Arena b.nodes) : Quiet b b.leaveClosedElement := by
  unfold leaveClosedElement
  split
  · rename_i e he
    split
    · rename_i hclosed
      refine quiet_leave ha he (by simp) fun e' he' => ?_
      obtain rfl := Option.some.inj he'
      exact hclosed
    · exact .refl b
  · exact .refl b

theorem Declaring.quiet_leave (h : b.Declaring s top edge) : Quiet b b.leaveDeclaration := by
  obtain ⟨d, hd⟩ := h.kind
  rw [leaveDeclaration, h.declaration]
  exact quiet_goTo h.steady.nested.arena hd (by simp) (forall_core rfl) rfl rfl

theorem Fits.declaration {x : Lexer} (h : Fits s x b) :
    b.declaration = none ∨ ∃ edge, b.Declaring s x.dtdFile.toNat edge := by
  have hphase := h.phase
  cases hmode : x.mode with
  | content | dtdContent | doctype _ =>
    simp only [Phase, hmode] at hphase
    exact .inl hphase.declaration
  | afterEndTagOpen =>
    simp only [Phase, hmode] at hphase
    obtain ⟨start, -, hpending⟩ := hphase
    exact .inl hpending.declaration
  | inEndTag =>
    simp only [Phase, hmode] at hphase
    rcases hphase with ⟨start, -, hpending⟩ | hclosing
    · exact .inl hpending.declaration
    · exact .inl hclosing.declaration
  | declaration _ =>
    simp only [Phase, hmode] at hphase
    exact .inr ⟨_, hphase⟩
  | _ =>
    simp only [Phase, hmode] at hphase
    exact .inl hphase.1.declaration

theorem Fits.quiet_leaveDeclaration {x : Lexer} (h : Fits s x b) : Quiet b b.leaveDeclaration := by
  rcases h.declaration with hnone | ⟨_, hdeclaring⟩
  · rw [leaveDeclaration_eq hnone]
    exact .refl b
  · exact hdeclaring.quiet_leave

theorem Fits.quiet_settle {x : Lexer} (h : Fits s x b) (stop : Nat) : Quiet b (b.settle stop) := by
  obtain ⟨edge, hn⟩ := h.nested
  have hforget : Quiet b { b with openAttribute := none } := .of_same rfl rfl
  refine hforget.trans ?_
  unfold settle
  rcases h.declaration with hnone | ⟨_, hdeclaring⟩
  · have hleft : ({ b with openAttribute := none }.flushEndTag stop none).declaration = none := by
      unfold flushEndTag
      split <;> exact hnone
    rw [leaveDeclaration_eq hleft]
    exact quiet_flushEndTag (b := { b with openAttribute := none }) hn stop none
  · rw [flushEndTag_eq (b := { b with openAttribute := none }) hdeclaring.steady.endTagOpen]
    exact hdeclaring.forget.quiet_leave

theorem quiet_leaveDoctype (ha : Arena b.nodes) (hnone : b.declaration = none)
    (hd : ∀ i, b.doctype = some i → b.current = i ∧ ∃ d, b.kindOf i = .doctype d) :
    Quiet b (b.leaveDoctype stop) := by
  unfold leaveDoctype
  rw [leaveDeclaration_eq hnone]
  dsimp only
  split
  · rename_i i hi
    obtain ⟨rfl, d, hkind⟩ := hd i hi
    have hextend : Quiet b (b.extend b.current stop) := quiet_extend (.inl (mem_chain_self ..))
    refine hextend.trans (quiet_goTo ?_ ((kindOf_extend ..).trans hkind) (by simp)
      (forall_core rfl) rfl ?_)
    · exact ha.of_relinks (relinks_extend b _ stop)
    · exact (parentOf_modify (f := fun n => { n with span := n.span.extendTo stop })
        (fun _ _ => rfl) b.current).symm
  · exact .refl b

section before
variable {x : Lexer} {P E : List Part} (hc : x.Consistent) (h : Fits s x b)
variable (hr : b.Records s x.pos P E) (hx : isBoundary s x.pos = true)
include hc h hr hx

theorem Fits.quiet_beforeContent (hy : x.YieldsToContent) :
    Quiet b (b.beforeMarkup x.pos false) := by
  obtain ⟨edge, hn⟩ := h.nested
  have hsettle := h.quiet_settle x.pos
  have hrecords : (b.settle x.pos).Records s x.pos P E :=
    (hr.forget.flushEndTag hn hx none).leaveDeclaration
  have hsettled := h.settled hc (.inl hy)
  rw [hc.dtdFile_of_yieldsToContent hy] at hsettled
  rw [beforeMarkup_eq]
  rcases hsettled with ⟨hsteady, hd⟩ | ⟨hclosing, hnone⟩
  · split
    · have hleave : Quiet (b.settle x.pos) ((b.settle x.pos).leaveDoctype x.pos) :=
        quiet_leaveDoctype hsteady.nested.arena hsteady.declaration fun i hi =>
          ⟨Option.some.inj (hd i hi).2.2, hrecords.kindOf_doctype hi⟩
      have harena := (hsteady.leaveDoctype hd).1.nested.arena
      exact (hsettle.trans hleave).trans (quiet_leaveClosedElement harena)
    · exact hsettle.trans (quiet_leaveClosedElement hsteady.nested.arena)
  · rw [hnone]
    exact hsettle.trans (quiet_leaveClosedElement hclosing.nested.arena)

omit hr hx in
theorem Fits.quiet_beforeDeclaration (hy : x.YieldsToDeclaration) :
    Quiet b (b.beforeMarkup x.pos true) := by
  rw [beforeMarkup_eq, Bool.not_true, Bool.and_false, if_neg (by simp)]
  refine (h.quiet_settle x.pos).trans (quiet_leaveClosedElement ?_)
  rcases h.settled hc (.inr hy) with ⟨hsteady, -⟩ | ⟨hclosing, -⟩
  · exact hsteady.nested.arena
  · exact hclosing.nested.arena

end before

end Builder

end XmlAssist
