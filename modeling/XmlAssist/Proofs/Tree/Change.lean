import XmlAssist.Proofs.Lexer.Sections
import XmlAssist.Proofs.Tree.Along
import XmlAssist.Proofs.Tree.Mirror

/-!
# What a token changes

Once a node is there, only few tokens change what it is: those of its own tag, its `=` and its value,
its end tag, or the last one of its section. Main statement: `changes_step`.
-/

namespace XmlAssist

open Node

/-- Behind the token there may be a section that is open. -/
def Token.Kind.opensSection : Token.Kind → Bool
  | .commentOpen | .cdataOpen | .instructionOpen | .instructionTarget => true
  | _ => false

namespace Node.Kind

/-- The node is no element, no attribute and no document type. -/
def isOther : Kind → Bool
  | .element _ | .attribute _ | .doctype _ => false
  | _ => true

/-- The section that the node is, if the literal that ends it was not read; the XML declaration is
none. -/
def openSection? : Kind → Option Section
  | .comment c => if c.closed then none else some .comment
  | .cdata c => if c.closed then none else some .cdata
  | .instruction i => if i.isProlog || i.closed then none else some .instruction
  | _ => none

/-- The section that the node is, whether its end was read or not. -/
def section? : Kind → Option Section
  | .comment _ => some .comment
  | .cdata _ => some .cdata
  | .instruction _ => some .instruction
  | _ => none

theorem openSection?_eq_none {k : Kind} (h : k.section? = none) : k.openSection? = none := by
  cases k <;> first | rfl | cases h

/-- What a node becomes by the token `t`, if it was there before. -/
inductive Changes (s : String) (b : Builder) (t : Token) (id : Nat) : Kind → Kind → Prop where
  | element {e e' : Element} (startClose : e'.startClose = e.startClose)
      (attributes : e'.attributes = e.attributes) : Changes s b t id (.element e) (.element e')
  | startTag {e e' : Element} (current : id = b.current)
      (kind : t.kind = .startTagClose ∨ t.kind = .startTagSelfClose)
      (startClose : e'.startClose = some t.start) (attributes : e'.attributes = e.attributes) :
      Changes s b t id (.element e) (.element e')
  | owner {e e' : Element} (current : id = b.current) (kind : t.kind = .attributeName)
      (startClose : e'.startClose = e.startClose)
      (attributes : e'.attributes = e.attributes.push b.nodes.size) :
      Changes s b t id (.element e) (.element e')
  | attribute (a : Attribute) : Changes s b t id (.attribute a) (.attribute a)
  | delimiter {a : Attribute} (isOpen : b.openAttribute = some id) (kind : t.kind = .assign) :
      Changes s b t id (.attribute a) (.attribute { a with hasDelimiter := true })
  | value {a : Attribute} (isOpen : b.openAttribute = some id) (kind : t.kind = .attributeValue) :
      Changes s b t id (.attribute a) (.attribute (a.withValue (t.written s) t.span))
  | doctype {d d' : Doctype} (kept : t.kind ≠ .dtd .doctypeClose → d'.closed = d.closed) :
      Changes s b t id (.doctype d) (.doctype d')
  | inner {k k' : Kind} (hk : k.isOther = true) (hk' : k'.isOther = true) (same : k'.section? = k.section?)
      (kept : t.kind.opensSection = false →
        k'.openSection? = k.openSection? ∨ k'.openSection? = none) : Changes s b t id k k'

/-- What a node is that the token `t` adds. -/
inductive New (s : String) (b : Builder) (t : Token) (id : Nat) : Kind → Prop where
  | element {e : Element} (startClose : e.startClose = none) (attributes : e.attributes = #[]) :
      New s b t id (.element e)
  | attribute (last : id = b.nodes.size) (kind : t.kind = .attributeName) :
      New s b t id (.attribute { name := t.written s, nameSpan := t.span })
  | doctype (d : Doctype) : New s b t id (.doctype d)
  | inner {k : Kind} (hk : k.isOther = true)
      (shut : t.kind.opensSection = false → k.section? = none) : New s b t id k

/-- The node is no attribute and no section, and as an element it has neither attributes nor the end of
a start tag. -/
def Plain : Kind → Prop
  | .element e => e.startClose = none ∧ e.attributes = #[]
  | .attribute _ | .comment _ | .cdata _ | .instruction _ => False
  | _ => True

variable {s : String} {b : Builder} {t : Token} {id : Nat}

theorem Changes.refl : (k : Kind) → Changes s b t id k k
  | .element _ => .element rfl rfl
  | .attribute a => .attribute a
  | .doctype _ => .doctype fun _ => rfl
  | .document | .text | .comment _ | .cdata _ | .instruction _ | .declaration _ =>
    .inner rfl rfl rfl fun _ => .inl rfl

theorem Plain.new : {k : Kind} → k.Plain → New s b t id k
  | .element _, h => .element h.1 h.2
  | .attribute _, h | .comment _, h | .cdata _, h | .instruction _, h => h.elim
  | .doctype d, _ => .doctype d
  | .document, _ | .text, _ | .declaration _, _ => .inner rfl fun _ => rfl

end Node.Kind

namespace Builder

variable {s : String} {b b' b'' : Builder} {t : Token} {id stop : Nat} {k : Kind} {inDtd : Bool}

/-! ## What was there stays -/

/-- All nodes stay what they are, and the new ones have no parts yet. -/
structure Retains (b b' : Builder) : Prop where
  size_le : b.nodes.size ≤ b'.nodes.size
  old : ∀ id < b.nodes.size, b'.kindOf id = b.kindOf id
  new : ∀ id, b.nodes.size ≤ id → (b'.kindOf id).Plain

theorem kindOf_of_ge (h : b.nodes.size ≤ id) : b.kindOf id = .document := by
  simp [kindOf, Array.getElem?_eq_none h]

theorem Retains.of_kindOf (hsize : b'.nodes.size = b.nodes.size) (h : ∀ id, b'.kindOf id = b.kindOf id) :
    Retains b b' where
  size_le := Nat.le_of_eq hsize.symm
  old id _ := h id
  new id hid := by
    rw [h, kindOf_of_ge hid]
    exact trivial

theorem Retains.of_nodes (h : b'.nodes = b.nodes) : Retains b b' :=
  .of_kindOf (by rw [h]) fun id => by rw [kindOf, kindOf, h]

theorem Retains.refl (b : Builder) : Retains b b := .of_nodes rfl

theorem Retains.trans (h : Retains b b') (h' : Retains b' b'') : Retains b b'' where
  size_le := Nat.le_trans h.size_le h'.size_le
  old id hid := (h'.old id (Nat.lt_of_lt_of_le hid h.size_le)).trans (h.old id hid)
  new id hid := by
    by_cases hlt : id < b'.nodes.size
    · rw [h'.old id hlt]
      exact h.new id hid
    · exact h'.new id (Nat.le_of_not_lt hlt)

theorem retains_extend (b : Builder) (id stop : Nat) : Retains b (b.extend id stop) :=
  .of_kindOf (by simp [Builder.extend, Builder.modify]) (kindOf_extend b id stop)

theorem kindOf_openNode_eq (b : Builder) (k : Kind) (span : Span) (id : Nat) :
    (b.openNode k span).kindOf id = if id = b.nodes.size then k else b.kindOf id := by
  show (b.append k span).kindOf id = _
  rw [kindOf, kindOf, append_nodes, getElem?_grow]
  split
  · rfl
  · split
    · cases b.nodes[id]? <;> rfl
    · rfl

theorem retains_append (hk : k.Plain) (span : Span) : Retains b (b.append k span) where
  size_le := by simp [append_nodes, size_grow]
  old id hid := by
    rw [kindOf, kindOf, append_nodes, getElem?_grow, if_neg (Nat.ne_of_lt hid)]
    split
    · cases b.nodes[id]? <;> rfl
    · rfl
  new id hid := by
    rw [kindOf, append_nodes, getElem?_grow]
    split
    · exact hk
    · rw [Array.getElem?_eq_none hid]
      split <;> exact trivial

theorem retains_openNode (hk : k.Plain) (span : Span) : Retains b (b.openNode k span) :=
  (retains_append hk span).trans (.of_nodes rfl)

theorem retains_leaveDeclaration (b : Builder) : Retains b b.leaveDeclaration := by
  unfold leaveDeclaration
  split <;> exact .of_nodes rfl

theorem retains_leaveClosedElement (b : Builder) : Retains b b.leaveClosedElement := by
  unfold leaveClosedElement
  split
  · split <;> exact .of_nodes rfl
  · exact .refl b

theorem retains_leaveDoctype (b : Builder) (stop : Nat) : Retains b (b.leaveDoctype stop) := by
  refine (retains_leaveDeclaration b).trans ?_
  unfold leaveDoctype
  dsimp only
  split
  · exact (retains_extend _ _ stop).trans (.of_nodes rfl)
  · exact .refl _

theorem retains_flushEndTag (b : Builder) (stop : Nat) (close : Option Nat) :
    Retains b (b.flushEndTag stop close) := by
  have hread : Retains b { b with endTagOpen := none } := .of_nodes rfl
  unfold flushEndTag
  split
  · exact hread.trans (retains_append (k := .element _) ⟨rfl, rfl⟩ _)
  · exact .refl b

theorem retains_beforeMarkup (b : Builder) (start : Nat) (inDtd : Bool) :
    Retains b (b.beforeMarkup start inDtd) := by
  rw [beforeMarkup_eq]
  refine .trans ?_ (retains_leaveClosedElement _)
  have hforget : Retains b { b with openAttribute := none } := .of_nodes rfl
  have hsettle : Retains b (b.settle start) :=
    hforget.trans ((retains_flushEndTag _ start none).trans (retains_leaveDeclaration _))
  split
  · exact hsettle.trans (retains_leaveDoctype _ start)
  · exact hsettle

theorem retains_reach (b : Builder) (ids : List Nat) (stop : Nat) :
    Retains b { b with nodes := reach b.nodes ids stop } :=
  .of_kindOf (size_reach ..) (kindOf_reach b ids stop)

theorem retains_atEnd (s : String) (b : Builder) : Retains b (atEnd s b) :=
  (retains_flushEndTag b _ none).trans (foldl_extend _ _ _ ▸ retains_reach ..)

/-! ## One token -/

/-- What the token `t` does to the nodes. -/
structure Changes (s : String) (b : Builder) (t : Token) (b' : Builder) : Prop where
  size_le : b.nodes.size ≤ b'.nodes.size
  old : ∀ id < b.nodes.size, (b.kindOf id).Changes s b t id (b'.kindOf id)
  new : ∀ id, b.nodes.size ≤ id → (b'.kindOf id).New s b t id

theorem Retains.changes (h : Retains b b') : Changes s b t b' where
  size_le := h.size_le
  old id hid := by
    rw [h.old id hid]
    exact .refl _
  new id hid := (h.new id hid).new

theorem Changes.of_kindOf (h : Changes s b t b') (hsize : b''.nodes.size = b'.nodes.size)
    (hkind : ∀ id, b''.kindOf id = b'.kindOf id) : Changes s b t b'' :=
  ⟨hsize ▸ h.size_le, fun id hid => hkind id ▸ h.old id hid, fun id hid => hkind id ▸ h.new id hid⟩

theorem Changes.of_nodes (h : Changes s b t b') (hnodes : b''.nodes = b'.nodes) : Changes s b t b'' :=
  h.of_kindOf (by rw [hnodes]) fun id => by rw [kindOf, kindOf, hnodes]

theorem Changes.extend (h : Changes s b t b') (id stop : Nat) : Changes s b t (b'.extend id stop) :=
  h.of_kindOf (by simp [Builder.extend, Builder.modify]) (kindOf_extend b' id stop)

theorem Retains.modify {f : Node → Node} (h : Retains b b') (hsize : b'.nodes.size = b.nodes.size)
    (hf : ∀ n, (f n).kind = k) (hk : id < b.nodes.size → (b.kindOf id).Changes s b t id k) :
    Changes s b t (b'.modify id f) where
  size_le := by simp [Builder.modify, hsize]
  old c hc := by
    by_cases hid : id = c
    · subst hid
      have hn := Array.getElem?_eq_getElem (show id < b'.nodes.size from hsize ▸ hc)
      have hnew : (b'.modify id f).kindOf id = (f b'.nodes[id]).kind := kindOf_eq
        (by simp only [Builder.modify, Array.getElem?_modify, if_pos, hn, Option.map_some])
      rw [hnew, hf]
      exact hk hc
    · rw [kindOf_modify_of_ne hid, h.old c hc]
      exact .refl _
  new c hc := by
    rw [kindOf_of_ge (by simpa [Builder.modify, hsize] using hc)]
    exact .inner rfl fun _ => rfl

theorem Retains.update (h : Retains b b') (hsize : b'.nodes.size = b.nodes.size)
    (hk : id < b.nodes.size → (b.kindOf id).Changes s b t id k) :
    Changes s b t (b'.update id k stop) := h.modify hsize (fun _ => rfl) hk

theorem Retains.openNode (h : Retains b b') (hk : ∀ id, k.New s b t id) (span : Span) :
    Changes s b t (b'.openNode k span) := by
  have hsize : (b'.openNode k span).nodes.size = b'.nodes.size + 1 := size_grow ..
  refine ⟨hsize ▸ Nat.le_succ_of_le h.size_le, fun id hid => ?_, fun id hid => ?_⟩
  · rw [kindOf_openNode_eq, if_neg (Nat.ne_of_lt (Nat.lt_of_lt_of_le hid h.size_le)), h.old id hid]
    exact .refl _
  · rw [kindOf_openNode_eq]
    split
    · exact hk id
    · exact (h.new id hid).new

theorem Changes.push {n : Node} (h : Changes s b t b') (hsize : b'.nodes.size = b.nodes.size)
    (hn : n.kind.New s b t b.nodes.size) (hnodes : b''.nodes = b'.nodes.push n) : Changes s b t b'' := by
  have hkind (id : Nat) : b''.kindOf id = if id = b.nodes.size then n.kind else b'.kindOf id := by
    rw [kindOf, hnodes, Array.getElem?_push, hsize]
    split <;> rfl
  refine ⟨by simp [hnodes, hsize], fun id hid => ?_, fun id hid => ?_⟩
  · rw [hkind, if_neg (Nat.ne_of_lt hid)]
    exact h.old id hid
  · rw [hkind]
    split
    · rename_i hlast
      exact hlast ▸ hn
    · exact h.new id hid

theorem changes_update (hk : (b.kindOf id).Changes s b t id k) : Changes s b t (b.update id k stop) :=
  (Retains.refl b).update rfl fun _ => hk

section tag
variable {i j : Nat} {fault : Option Token.Fault}

theorem changes_startTagName : Changes s b t (step s b ⟨.startTagName, i, j, fault⟩ inDtd) := by
  by_cases he : ∃ e, b.kindOf b.current = .element e
  · obtain ⟨e, he⟩ := he
    rw [step_startTagName he]
    exact changes_update (he ▸ .element rfl rfl)
  · rw [step_tag_of_ne (not_exists.mp he) (.inl rfl)]
    exact (Retains.refl b).changes

theorem changes_tagClose {kind : Token.Kind} (hkind : kind = .startTagClose ∨ kind = .startTagSelfClose) :
    Changes s b ⟨kind, i, j, fault⟩ (step s b ⟨kind, i, j, fault⟩ inDtd) := by
  by_cases he : ∃ e, b.kindOf b.current = .element e
  · obtain ⟨e, he⟩ := he
    have hupdate (e' : Element) (hclose : e'.startClose = some i) (hattr : e'.attributes = e.attributes) :
        Changes s b ⟨kind, i, j, fault⟩ (b.update b.current (.element e') j) :=
      changes_update (he ▸ .startTag rfl hkind hclose hattr)
    rcases hkind with rfl | rfl
    · rw [step_startTagClose he]
      exact (hupdate { e with startClose := some i } rfl rfl).of_nodes rfl
    · rw [step_startTagSelfClose he]
      exact (hupdate { e with startClose := some i, selfClosed := true, closed := true } rfl rfl).of_nodes rfl
  · rw [step_tagClose_of_ne (not_exists.mp he) hkind]
    exact Retains.changes (.of_nodes rfl)

theorem changes_endTagName : Changes s b t (step s b ⟨.endTagName, i, j, fault⟩ inDtd) := by
  rw [step_endTagName]
  show Changes s b t (closeNearest s { b with endTagOpen := none } (b.endTagOpen.getD (i - 2))
    ⟨.endTagName, i, j, fault⟩)
  have hread : Retains b { b with endTagOpen := none } := .of_nodes rfl
  unfold closeNearest
  split
  · rename_i id hfind
    obtain ⟨e, he, -, -⟩ := element_of_isOpenAs (List.find?_some hfind)
    rw [closeAt_eq he]
    exact ((hread.trans (retains_reach ..)).update (size_reach ..) fun _ => he ▸ .element rfl rfl).of_nodes rfl
  · exact (hread.trans (retains_openNode (k := .element _) ⟨rfl, rfl⟩ _)).changes

theorem changes_endTagClose : Changes s b t (step s b ⟨.endTagClose, i, j, fault⟩ inDtd) := by
  cases hpending : b.endTagOpen with
  | some start =>
    rw [step_endTagClose_of_some hpending]
    exact (retains_flushEndTag ..).changes
  | none =>
    by_cases he : ∃ e, b.kindOf b.current = .element e ∧ (e.closed && e.endOpen.isSome) = true
    · obtain ⟨e, he, hclosed⟩ := he
      rw [Bool.and_eq_true] at hclosed
      rw [step_endTagClose he hpending hclosed.1 hclosed.2]
      have hupdate : Changes s b t (b.update b.current (.element { e with endClose := some i }) j) :=
        changes_update (he ▸ .element rfl rfl)
      exact hupdate.of_nodes rfl
    · rw [step_endTagClose_of_ne hpending fun e hk => ?_]
      · exact (Retains.refl b).changes
      · exact Bool.eq_false_iff.mpr fun h => he ⟨e, hk, h⟩

theorem changes_unknown : Changes s b t (step s b ⟨.unknown, i, j, fault⟩ inDtd) := by
  by_cases he : ∃ e, b.kindOf b.current = .element e
  · obtain ⟨e, he⟩ := he
    unfold step tagToken
    dsimp only
    rw [he]
    dsimp only
    split
    · exact (retains_extend ..).changes
    · exact (Retains.refl b).changes
  · rw [step_tag_of_ne (not_exists.mp he) (.inr rfl)]
    exact (Retains.refl b).changes

theorem changes_attributeName : Changes s b ⟨.attributeName, i, j, fault⟩
    (attributeName s b ⟨.attributeName, i, j, fault⟩) := by
  unfold attributeName
  dsimp only
  split
  · rename_i k hk
    have howner : Changes s b ⟨.attributeName, i, j, fault⟩ (b.update b.current k j) := by
      refine changes_update ?_
      cases hkind : b.kindOf b.current with
      | element e =>
        rw [hkind] at hk
        obtain rfl := Option.some.inj hk
        exact .owner rfl rfl rfl rfl
      | instruction p =>
        obtain ⟨-, rfl⟩ : p.isProlog = true ∧
            Kind.instruction { p with attributes := p.attributes.push b.nodes.size } = k := by
          simpa [hkind, withAttribute] using hk
        exact .inner rfl rfl rfl fun _ => .inl rfl
      | _ => simp [hkind, withAttribute] at hk
    exact howner.push (size_update ..) (.attribute rfl rfl) rfl
  · exact (Retains.refl b).changes

theorem changes_assign : Changes s b ⟨.assign, i, j, fault⟩ (assign b ⟨.assign, i, j, fault⟩) := by
  unfold assign
  dsimp only
  split
  · rename_i id hopen
    split
    · rename_i a ha
      have hmark : Changes s b ⟨.assign, i, j, fault⟩ (b.modify id (markDelimiter a)) :=
        (Retains.refl b).modify rfl (fun _ => rfl) fun _ => ha ▸ .delimiter hopen rfl
      exact hmark.extend ..
    · exact (retains_extend ..).changes
  · exact (retains_extend ..).changes

theorem changes_attributeValue : Changes s b ⟨.attributeValue, i, j, fault⟩
    (attributeValue s b ⟨.attributeValue, i, j, fault⟩) := by
  have hforget : Retains b { b with openAttribute := none } := .of_nodes rfl
  unfold attributeValue
  split
  · rename_i id hopen
    dsimp only
    split
    · rename_i a ha
      exact (hforget.update rfl fun _ => (show b.kindOf id = _ from ha) ▸ .value hopen rfl).extend ..
    · exact ((hforget.trans (retains_extend ..)).trans (retains_extend ..)).changes
  · exact (retains_extend ..).changes

end tag

section inner
variable {i j : Nat} {fault : Option Token.Fault} {kind : Token.Kind}

theorem changes_section {k' : Kind} (hkind : b.kindOf id = k) (hk : k.isOther = true)
    (hk' : k'.isOther = true) (hsame : k'.section? = k.section?)
    (hkept : t.kind.opensSection = false → k'.openSection? = k.openSection? ∨ k'.openSection? = none) :
    Changes s b t (b.update id k' stop) := changes_update (hkind ▸ .inner hk hk' hsame hkept)

theorem changes_enclosed
    (hkind : kind = .commentText ∨ kind = .cdataText ∨ kind = .commentClose ∨ kind = .cdataClose) :
    Changes s b ⟨kind, i, j, fault⟩ (step s b ⟨kind, i, j, fault⟩ inDtd) := by
  by_cases hc : ∃ c, b.kindOf b.current = .comment c
  · obtain ⟨c, hc⟩ := hc
    rcases hkind with hk | hk | hk | hk
    · rw [step_text_of_comment hc (.inl hk)]
      exact changes_section hc rfl rfl rfl fun _ => .inl rfl
    · rw [step_text_of_comment hc (.inr hk)]
      exact changes_section hc rfl rfl rfl fun _ => .inl rfl
    · rw [step_close_of_comment hc (.inl hk)]
      exact (changes_section hc rfl rfl (by rfl) fun _ => .inr (by simp [Kind.openSection?])).of_nodes rfl
    · rw [step_close_of_comment hc (.inr hk)]
      exact (changes_section hc rfl rfl (by rfl) fun _ => .inr (by simp [Kind.openSection?])).of_nodes rfl
  · by_cases hd : ∃ c, b.kindOf b.current = .cdata c
    · obtain ⟨c, hd⟩ := hd
      rcases hkind with hk | hk | hk | hk
      · rw [step_text_of_cdata hd (.inl hk)]
        exact changes_section hd rfl rfl rfl fun _ => .inl rfl
      · rw [step_text_of_cdata hd (.inr hk)]
        exact changes_section hd rfl rfl rfl fun _ => .inl rfl
      · rw [step_close_of_cdata hd (.inl hk)]
        exact (changes_section hd rfl rfl (by rfl) fun _ => .inr (by simp [Kind.openSection?])).of_nodes rfl
      · rw [step_close_of_cdata hd (.inr hk)]
        exact (changes_section hd rfl rfl (by rfl) fun _ => .inr (by simp [Kind.openSection?])).of_nodes rfl
    · rw [step_enclosed_of_ne (not_exists.mp hc) (not_exists.mp hd) hkind]
      exact (Retains.refl b).changes

theorem changes_instruction (hkind : kind = .prologName ∨ kind = .instructionTarget ∨ kind = .instructionContent) :
    Changes s b ⟨kind, i, j, fault⟩ (step s b ⟨kind, i, j, fault⟩ inDtd) := by
  by_cases hp : ∃ p, b.kindOf b.current = .instruction p
  · obtain ⟨p, hp⟩ := hp
    rcases hkind with rfl | rfl | rfl
    · rw [step_prologName hp]
      exact changes_section hp rfl rfl rfl fun _ => .inr rfl
    · rw [step_instructionTarget hp]
      exact changes_section hp rfl rfl rfl nofun
    · rw [step_instructionContent hp]
      exact changes_section hp rfl rfl rfl fun _ => .inl rfl
  · rw [step_instruction_of_ne (not_exists.mp hp) hkind]
    exact (Retains.refl b).changes

theorem changes_instructionClose (hkind : kind = .instructionClose ∨ kind = .prologClose) :
    Changes s b ⟨kind, i, j, fault⟩ (step s b ⟨kind, i, j, fault⟩ inDtd) := by
  by_cases hp : ∃ p, b.kindOf b.current = .instruction p
  · obtain ⟨p, hp⟩ := hp
    have hclose : Changes s b ⟨kind, i, j, fault⟩
        (b.update b.current (.instruction { p with closed := true }) j) :=
      changes_section hp rfl rfl rfl fun _ => .inr (by simp [Kind.openSection?])
    rw [step_close_of_instruction hp hkind]
    exact hclose.of_nodes rfl
  · rw [step_instructionClose_of_ne (not_exists.mp hp) hkind]
    exact Retains.changes (.of_nodes rfl)

theorem Retains.onDoctype {t' : Token} {g : Doctype → Doctype} (h : Retains b b')
    (hsize : b'.nodes.size = b.nodes.size)
    (hg : t.kind ≠ .dtd .doctypeClose → ∀ d, (g d).closed = d.closed) : Changes s b t (b'.onDoctype t' g) := by
  unfold Builder.onDoctype
  split
  · split
    · rename_i d hd
      exact h.update hsize fun hid =>
        ((h.old _ hid).symm.trans hd) ▸ .doctype fun hkind => hg hkind d
    · exact (h.trans (retains_extend ..)).changes
  · exact h.changes

theorem changes_onDoctype {t' : Token} {g : Doctype → Doctype} (hg : ∀ d, (g d).closed = d.closed) :
    Changes s b t (b.onDoctype t' g) := (Retains.refl b).onDoctype rfl fun _ => hg

theorem size_leaveDeclaration (b : Builder) : b.leaveDeclaration.nodes.size = b.nodes.size := by
  unfold leaveDeclaration
  split <;> rfl

theorem changes_openDeclaration {t' : Token} (body : Declaration.Body) :
    Changes s b t (b.openDeclaration t' body) := by
  have hopen := ((retains_leaveDeclaration b).trans (retains_leaveClosedElement _)).trans
    (retains_openNode (k := .declaration { body }) trivial t'.span)
  exact hopen.changes.of_nodes rfl

theorem changes_unrecognized {t' : Token} : Changes s b t (unrecognized s b t') := by
  unfold unrecognized
  split
  · split
    · rename_i d hd
      exact changes_update (hd ▸ .doctype fun _ => rfl)
    · rename_i d hd
      exact changes_section hd rfl rfl rfl fun _ => .inl rfl
    · exact (Retains.refl b).changes
  · exact (Retains.refl b).changes

theorem changes_declarationParameter {t' : Token} {kind : Token.DtdKind} :
    Changes s b t (declarationParameter s b kind t') := by
  have hmark : Retains b (b.markContent kind t') := .of_nodes (markContent_nodes ..)
  unfold declarationParameter
  split
  · exact (Retains.refl b).changes
  · rename_i id _
    dsimp only
    split
    · rename_i d hd
      have hsame : (b.markContent kind t').kindOf id = b.kindOf id := by
        rw [kindOf, markContent_nodes, ← kindOf]
      exact hmark.update (by rw [markContent_nodes])
        fun _ => (hsame.symm.trans hd) ▸ .inner rfl rfl rfl fun _ => .inl rfl
    · exact hmark.changes

theorem changes_declarationClose {t' : Token} :
    Changes s b t (dtdToken s b .declarationClose t' inDtd) := by
  unfold dtdToken
  dsimp only
  split
  · rename_i id _
    cases hd : b.kindOf id with
    | declaration d =>
      have hclose : Changes s b t (b.update id (.declaration { d with closed := true }) t'.stop) :=
        changes_section hd rfl rfl rfl fun _ => .inl rfl
      exact hclose.of_nodes rfl
    | _ => exact (retains_extend b id t'.stop).changes.of_nodes rfl
  · exact (Retains.refl b).changes

theorem changes_doctypeClose :
    Changes s b ⟨.dtd .doctypeClose, i, j, fault⟩
      (dtdToken s b .doctypeClose ⟨.dtd .doctypeClose, i, j, fault⟩ inDtd) := by
  have hleave := retains_leaveDeclaration b
  unfold dtdToken
  dsimp only
  split
  · exact (hleave.onDoctype (size_leaveDeclaration b) fun hkind => absurd rfl hkind).of_nodes rfl
  · exact hleave.changes

theorem changes_dtd (kind : Token.DtdKind) :
    Changes s b ⟨.dtd kind, i, j, fault⟩ (dtdToken s b kind ⟨.dtd kind, i, j, fault⟩ inDtd) := by
  cases kind with
  | doctypeOpen =>
    have hopen := (retains_beforeMarkup b i inDtd).trans (retains_openNode (k := .doctype {}) trivial ⟨i, j⟩)
    exact hopen.changes.of_nodes rfl
  | subsetOpen => exact changes_onDoctype fun _ => rfl
  | subsetClose => exact (retains_leaveDeclaration b).onDoctype (size_leaveDeclaration b) fun _ _ => rfl
  | doctypeClose => exact changes_doctypeClose
  | doctypeName | doctypePublic | doctypeSystem | doctypePublicId | doctypeSystemId =>
    exact changes_onDoctype fun _ => rfl
  | elementOpen => exact changes_openDeclaration (.element {})
  | attlistOpen => exact changes_openDeclaration (.attlist {})
  | entityOpen => exact changes_openDeclaration (.entity {})
  | notationOpen => exact changes_openDeclaration (.notationDecl {})
  | declarationClose => exact changes_declarationClose
  | unrecognized => exact changes_unrecognized
  | _ => exact changes_declarationParameter

end inner

/-- **What a token does to the nodes.** -/
theorem changes_step (s : String) (b : Builder) (t : Token) (inDtd : Bool) :
    Changes s b t (step s b t inDtd) := by
  obtain ⟨kind, i, j, fault⟩ := t
  have hbefore := retains_beforeMarkup b i inDtd
  cases kind with
  | startTagOpen =>
    rw [step_startTagOpen]
    exact (hbefore.trans (retains_openNode (k := .element _) ⟨rfl, rfl⟩ _)).changes
  | startTagName => exact changes_startTagName
  | startTagClose => exact changes_tagClose (.inl rfl)
  | startTagSelfClose => exact changes_tagClose (.inr rfl)
  | endTagOpen =>
    rw [step_endTagOpen]
    exact hbefore.changes.of_nodes rfl
  | endTagName => exact changes_endTagName
  | endTagClose => exact changes_endTagClose
  | attributeName => exact step_attributeName ▸ changes_attributeName
  | assign => exact step_assign ▸ changes_assign
  | attributeValue => exact step_attributeValue ▸ changes_attributeValue
  | unknown => exact changes_unknown
  | blank | eos => exact (Retains.refl b).changes
  | text =>
    rw [step_text]
    exact (hbefore.trans (retains_append (k := .text) trivial _)).changes
  | commentOpen =>
    rw [step_commentOpen]
    exact hbefore.openNode (fun _ => .inner rfl (by rintro ⟨⟩)) _
  | cdataOpen =>
    rw [step_cdataOpen]
    exact hbefore.openNode (fun _ => .inner rfl (by rintro ⟨⟩)) _
  | instructionOpen =>
    rw [step_instructionOpen]
    exact hbefore.openNode (fun _ => .inner rfl (by rintro ⟨⟩)) _
  | commentText => exact changes_enclosed (by simp)
  | cdataText => exact changes_enclosed (by simp)
  | commentClose => exact changes_enclosed (by simp)
  | cdataClose => exact changes_enclosed (by simp)
  | prologName => exact changes_instruction (by simp)
  | instructionTarget => exact changes_instruction (by simp)
  | instructionContent => exact changes_instruction (by simp)
  | instructionClose => exact changes_instructionClose (by simp)
  | prologClose => exact changes_instructionClose (by simp)
  | dtd kind => exact step_dtd ▸ changes_dtd kind

theorem Changes.startClose {e' : Element} {k : Nat} (h : Changes s b t b')
    (he : b'.kindOf id = .element e') (hclose : e'.startClose = some k) :
    (∃ e, b.kindOf id = .element e ∧ e.startClose = some k) ∨
      (id < b.nodes.size ∧ id = b.current ∧ t.start = k ∧
        (t.kind = .startTagClose ∨ t.kind = .startTagSelfClose)) := by
  by_cases hid : id < b.nodes.size
  · have hold := h.old id hid
    rw [he] at hold
    cases hk : b.kindOf id with
    | element e =>
      rw [hk] at hold
      cases hold with
      | element hsame | owner _ _ hsame => exact .inl ⟨e, rfl, hsame.symm.trans hclose⟩
      | startTag hcurrent hkind hnew =>
        exact .inr ⟨hid, hcurrent, Option.some.inj (hnew.symm.trans hclose), hkind⟩
      | inner hpart => cases hpart
    | _ =>
      rw [hk] at hold
      cases hold with
      | inner _ hpart => cases hpart
  · have hnew := h.new id (Nat.le_of_not_lt hid)
    rw [he] at hnew
    cases hnew with
    | element hnone => exact absurd (hnone.symm.trans hclose) nofun
    | inner hpart => cases hpart

theorem Changes.doctype {d : Doctype} (h : Changes s b t b') (hd : b.kindOf id = .doctype d)
    (hkind : t.kind ≠ .dtd .doctypeClose) : ∃ d', b'.kindOf id = .doctype d' ∧ d'.closed = d.closed := by
  have hlt : id < b.nodes.size := by
    refine Nat.lt_of_not_le fun hge => ?_
    rw [kindOf_of_ge hge] at hd
    cases hd
  have hold := h.old id hlt
  rw [hd] at hold
  generalize b'.kindOf id = k' at *
  cases hold with
  | doctype hkept => exact ⟨_, rfl, hkept hkind⟩
  | inner hother => cases hother

theorem Changes.openSection? (h : Changes s b t b') (ht : t.kind.opensSection = false) (id : Nat) :
    (b'.kindOf id).openSection? = (b.kindOf id).openSection? ∨ (b'.kindOf id).openSection? = none := by
  by_cases hid : id < b.nodes.size
  · have hold := h.old id hid
    generalize b.kindOf id = k at *
    generalize b'.kindOf id = k' at *
    cases hold with
    | inner _ _ _ hkept => exact hkept ht
    | _ => exact .inr rfl
  · have hnew := h.new id (Nat.le_of_not_lt hid)
    generalize b'.kindOf id = k' at *
    cases hnew with
    | inner _ hshut => exact .inr (Kind.openSection?_eq_none (hshut ht))
    | _ => exact .inr rfl

end Builder

end XmlAssist
