import XmlAssist.Proofs.Tree.Laying
import XmlAssist.Proofs.Tree.StartTag

/-!
# Where tokens write

Each token adds a part to an element behind all parts that it has, adds a node behind all others, or only lets nodes
grow that are still open. So it leaves the parts of all elements in order (`LaidOut`), as long as the elements around
what the builder is at lack an end (`Slack`).
-/

namespace XmlAssist

open Node
open Text (size)
open Lexer (Reads Falls Leads)

namespace Builder

variable {s : String} {top edge edge' : Nat} {x y : Lexer} {b b' : Builder} {t : Token} {id i j stop : Nat} {k : Kind}
variable {e : Element} {inDtd : Bool} {fault : Option Token.Fault} {kind : Token.Kind}

theorem ne_element (hk : k.core = none) (e : Element) : k ≠ .element e := by
  rintro rfl
  cases hk

/-! ## Nodes that are open -/

/-- The open elements have a start tag and no end. -/
def Started (b : Builder) : Prop := ∀ id e, (id, e) ∈ b.opened →
  e.startOpen.isSome = true ∧ e.endOpen = none ∧ e.selfClosed = false

/-- The nodes around what the builder is at may grow. -/
def Slack (b : Builder) : Prop := ∀ id ∈ chain b.nodes b.current, Loose b.nodes id

theorem Started.unended (hs : b.Started) (h : LaidOut b.nodes edge) {n : Node} (hid : id ∈ chain b.nodes b.current)
    (hn : b.nodes[id]? = some n) (hkind : n.kind = .element e) (hclosed : n.kind.isClosedElement = false) :
    e.selfClosed = false ∧ e.ending = [] := by
  have hcore : b.core id = some e.core := core_of_kindOf ((kindOf_eq hn).trans hkind)
  rw [hkind] at hclosed
  obtain ⟨-, hend, hself⟩ := hs id e.core (mem_opened.mpr ⟨hid, hcore, hclosed⟩)
  exact ⟨hself, (h hn hkind).endless hend⟩

theorem Started.ending (hs : b.Started) (h : LaidOut b.nodes edge) (hu : Unclosed b.nodes b.current) {n : Node}
    (hn : b.nodes[b.current]? = some n) (hkind : n.kind = .element e) : e.ending = [] :=
  (hs.unended h (mem_chain_self ..) hn hkind (hu _ (mem_chain_self ..) n hn)).2

/-- Where no element around is closed but the current one, and that has no `>` of its end tag, all may grow. -/
theorem slack_of_around (ha : Arena b.nodes) (hr : Rightmost b.nodes b.current) (h : LaidOut b.nodes edge)
    (hs : b.Started) (hcurrent : ∀ n e, b.nodes[b.current]? = some n → n.kind = .element e →
      e.selfClosed = false ∧ e.endClose = none)
    (haround : ∀ p, parentAt b.nodes b.current = some p → Unclosed b.nodes p) : b.Slack := by
  have hopen {c : Nat} {n : Node} {e : Element} (hc : c ∈ chain b.nodes b.current) (hne : c ≠ b.current)
      (hn : b.nodes[c]? = some n) (hkind : n.kind = .element e) : e.selfClosed = false ∧ e.ending = [] := by
    rcases chain_cases b.nodes b.current with hchain | ⟨p, hp, -, hchain⟩
    · exact absurd (List.mem_singleton.mp (hchain ▸ hc)) hne
    · have hcp := (List.mem_cons.mp (hchain ▸ hc)).resolve_left hne
      exact hs.unended h hc hn hkind (haround p hp c hcp n hn)
  intro id hid
  obtain ⟨k, hk, hattr⟩ := ha.isAttribute_of_mem_chain hr.node hid
  refine ⟨fun p n hn hmem => ?_, fun n e hn hkind => ?_, fun p n e hn hmem hkind => ?_⟩
  · obtain ⟨k', hk', -, htrue⟩ := (ha.attr hn).mp hmem
    obtain rfl := Option.some.inj (hk.symm.trans hk')
    cases hattr.symm.trans htrue
  · by_cases hne : id = b.current
    · exact hcurrent n e (hne ▸ hn) hkind
    · exact (hopen hid hne hn hkind).imp_right Element.endClose_of_ending
  · have hchild := (ha.child hn).mp hmem
    have hlt := ha.child_lt hchild
    have hp := mem_chain_trans hid (parentAt_mem_chain hchild.parentAt hlt)
    have := le_of_mem_chain hid
    exact (hopen hp (by omega) hn hkind).2

theorem slack_of_unclosed (hn : Nested s top b.nodes b.current edge) (hu : Unclosed b.nodes b.current)
    (h : LaidOut b.nodes edge') (hs : b.Started) : b.Slack := by
  refine slack_of_around hn.arena hn.rightmost h hs (fun n e hn hkind => ?_) fun p hp => ?_
  · exact (hs.unended h (mem_chain_self ..) hn hkind (hu _ (mem_chain_self ..) n hn)).imp_right
      Element.endClose_of_ending
  · exact hu.of_mem_chain (parentAt_mem_chain hp (hn.arena.parentAt_lt hp))

/-! ## New nodes -/

theorem laidOut_append (ha : Arena b.nodes) (h : LaidOut b.nodes edge)
    (hcurrent : ∀ n e, b.nodes[b.current]? = some n → n.kind = .element e → e.ending = []) {span : Span}
    (hstart : edge ≤ span.start) (hedge : edge ≤ edge')
    (hnew : ∀ e, k = .element e →
      e.Laid (b.append k span).nodes edge' { span, parent := some b.current, kind := k }) :
    LaidOut (b.append k span).nodes edge' := by
  have hsame (c : Nat) : spanAt (b.nodes.modify b.current (withChild b.nodes.size)) c = spanAt b.nodes c :=
    spanAt_modify_of_same (withChild b.nodes.size) (fun _ => rfl) c
  rw [append_nodes] at hnew ⊢
  refine h.grow ha hedge (fun _ _ => ⟨rfl, .inl rfl⟩) (fun m e hm hkind => ?_) hnew
  refine (h hm hkind).adopts hedge (hcurrent m e hm hkind) rfl rfl (fun a hmem => ?_) (fun c hc => ?_) ?_
  · rw [spanAt_grow_of_lt ((ha.attr hm).mp (mem_attributeIds hkind hmem)).lt_size]
    exact hsame a
  · rw [spanAt_grow_of_lt ((ha.child hm).mp hc).lt_size]
    exact congrArg Span.start (hsame c)
  · rw [spanAt_grow_size]
    exact hstart

theorem laidOut_flushEndTag (ha : Arena b.nodes) {o : Nat} (ho : b.endTagOpen = some o) (h : LaidOut b.nodes o)
    (hcurrent : ∀ n e, b.nodes[b.current]? = some n → n.kind = .element e → e.ending = []) {close : Option Nat}
    (hle : o + 2 ≤ stop) (hclose : ∀ p, close = some p → o + 2 ≤ p ∧ stop = p + 1) :
    LaidOut (b.flushEndTag stop close).nodes stop := by
  rw [flushEndTag, ho]
  refine laidOut_append (b := { b with endTagOpen := none }) ha h hcurrent (Nat.le_refl _) (by omega) fun e he => ?_
  obtain rfl := (Kind.element.inj he).symm
  refine .of_ending rfl rfl rfl rfl rfl rfl ?_ ?_ rfl fun p hp => (hclose p hp).2
  · cases close with
    | none => exact List.pairwise_singleton ..
    | some p => simpa [Element.ending] using (hclose p rfl).1
  · cases close with
    | none => simpa [Element.ending] using hle
    | some p => simpa [Element.ending] using ⟨hle, Nat.le_of_eq (hclose p rfl).2.symm⟩

theorem nodes_leaveDeclaration (b : Builder) : b.leaveDeclaration.nodes = b.nodes := by
  unfold leaveDeclaration
  split <;> rfl

theorem nodes_leaveClosedElement (b : Builder) : b.leaveClosedElement.nodes = b.nodes := by
  unfold leaveClosedElement
  split
  · split <;> rfl
  · rfl

theorem nodes_settle (b : Builder) (start : Nat) : (b.settle start).nodes = (b.flushEndTag start none).nodes := by
  rw [settle, nodes_leaveDeclaration, flushEndTag, flushEndTag]
  cases b.endTagOpen <;> rfl

theorem rests_leaveDoctype (b : Builder) (stop : Nat) :
    Rests (fun id => b.doctype = some id) b.nodes (b.leaveDoctype stop).nodes := by
  have hdoctype : b.leaveDeclaration.doctype = b.doctype := by
    unfold leaveDeclaration
    split <;> rfl
  unfold leaveDoctype
  dsimp only
  split
  · rename_i id hid
    rw [← nodes_leaveDeclaration b]
    exact Rests.modify (fun n => { n with span := n.span.extendTo stop }) fun _ =>
      ⟨rfl, rfl, fun _ he => he, .inr (hdoctype.symm.trans hid)⟩
  · exact .of_eq (nodes_leaveDeclaration b)

theorem laidOut_beforeMarkup {file : Bool} (h : LaidOut (b.settle edge).nodes edge)
    (hsettled : (b.settle edge).Settled s file edge) (hs : (b.settle edge).Started) :
    LaidOut (b.beforeMarkup edge inDtd).nodes edge := by
  rw [beforeMarkup_eq, nodes_leaveClosedElement]
  split
  · rename_i hleave
    obtain ⟨i, hi⟩ := Option.isSome_iff_exists.mp (Bool.and_eq_true_iff.mp hleave).1
    rcases hsettled with ⟨hsteady, hd⟩ | ⟨-, hnone⟩
    · have hslack := slack_of_unclosed hsteady.nested hsteady.unclosed h hs
      exact h.rests (rests_leaveDoctype ..) (fun id hid => hslack id (hd.mem_chain hsteady.nested hid)) (Nat.le_refl _)
    · cases hnone.symm.trans hi
  · exact h

/-! ## Tokens that change no element -/

section rests
variable {g : Nat → Prop}

theorem rests_extend (hid : g id) : Rests g b.nodes (b.extend id stop).nodes :=
  .modify (fun n => { n with span := n.span.extendTo stop }) fun _ => ⟨rfl, rfl, fun _ he => he, .inr hid⟩

theorem rests_update (hid : g id) (hk : k.core = none) : Rests g b.nodes (b.update id k stop).nodes :=
  .modify (withKind k stop) fun _ => ⟨rfl, rfl, fun e he => absurd he (ne_element hk e), .inr hid⟩

end rests

theorem rests_unknown : Rests b.Around b.nodes (step s b ⟨.unknown, i, j, fault⟩ inDtd).nodes := by
  cases hk : b.kindOf b.current <;> simp only [step, tagToken, hk]
  case element =>
    split
    · exact rests_extend .current
    · exact .refl ..
  all_goals exact .refl ..

theorem rests_assign : Rests b.Around b.nodes (assign b t).nodes := by
  unfold assign
  refine .trans ?_ (rests_extend ?_)
  · split
    · split
      · rename_i a _
        exact .modify (markDelimiter a) fun _ => ⟨rfl, rfl, fun e he => absurd he (ne_element rfl e), .inl rfl⟩
      · exact .refl ..
    · exact .refl ..
  · split
    · split <;> exact .current
    · exact .current

theorem rests_sectionToken (hkind : t.kind ≠ .commentOpen ∧ t.kind ≠ .cdataOpen ∧ t.kind ≠ .instructionOpen) :
    Rests b.Around b.nodes (sectionToken s b t inDtd).nodes := by
  unfold sectionToken
  split
  case h_1 hk => exact absurd hk hkind.1
  case h_2 hk => exact absurd hk hkind.2.1
  case h_11 hk => exact absurd hk hkind.2.2
  all_goals first
    | exact rests_update .current rfl
    | exact .refl ..

theorem rests_onDoctype {g : Doctype → Doctype} : Rests b.Around b.nodes (b.onDoctype t g).nodes := by
  unfold onDoctype
  split
  · rename_i id hid
    split
    · exact rests_update (.doctype hid) rfl
    · exact rests_extend (.doctype hid)
  · exact .refl ..

theorem rests_unrecognized : Rests b.Around b.nodes (unrecognized s b t).nodes := by
  unfold unrecognized
  split
  · rename_i id hid
    have haround : b.Around id := by
      cases hd : b.declaration with
      | none => exact .doctype (by rwa [hd, Option.none_or] at hid)
      | some i =>
        rw [hd, Option.some_or] at hid
        exact .declaration (hd.trans hid)
    split
    · exact rests_update haround rfl
    · exact rests_update haround rfl
    · exact .refl ..
  · exact .refl ..

theorem rests_declarationParameter {kind : Token.DtdKind} :
    Rests b.Around b.nodes (declarationParameter s b kind t).nodes := by
  unfold declarationParameter
  split
  · exact .refl ..
  · rename_i id hid
    have hmark := markContent_nodes (b := b) kind t
    dsimp only
    split
    · have hrests {k : Kind} (hk : k.core = none) :
          Rests b.Around (b.markContent kind t).nodes ((b.markContent kind t).update id k t.stop).nodes :=
        rests_update (.declaration hid) hk
      rw [hmark] at hrests
      exact hrests rfl
    · exact .of_eq hmark

theorem rests_declarationClose : Rests b.Around b.nodes (dtdToken s b .declarationClose t inDtd).nodes := by
  unfold dtdToken
  dsimp only
  split
  · rename_i id hid
    split
    · exact rests_update (.declaration hid) rfl
    · exact rests_extend (.declaration hid)
  · exact .refl ..

theorem rests_dtdToken {kind : Token.DtdKind} (hdoctype : kind ≠ .doctypeOpen) (hopen : kind ≠ .elementOpen ∧
      kind ≠ .attlistOpen ∧ kind ≠ .entityOpen ∧ kind ≠ .notationOpen) :
    Rests b.Around b.nodes (dtdToken s b kind t inDtd).nodes := by
  have hleave {g : Doctype → Doctype} : Rests b.Around b.nodes (b.leaveDeclaration.onDoctype t g).nodes := by
    have hrests := rests_onDoctype (b := b.leaveDeclaration) (t := t) (g := g)
    rw [nodes_leaveDeclaration] at hrests
    exact ⟨hrests.size, fun id m hm => by
      obtain ⟨n, hn, hchildren, hstart, hkind, hstop⟩ := hrests.node id m hm
      exact ⟨n, hn, hchildren, hstart, hkind, hstop.imp_right fun haround =>
        ((spares_leaveDeclaration b).around id haround).resolve_right (Nat.not_le_of_lt (lt_size_of_getElem? hn))⟩⟩
  cases kind with
  | doctypeOpen => exact absurd rfl hdoctype
  | elementOpen | attlistOpen | entityOpen | notationOpen => simp at hopen
  | subsetOpen | doctypeName | doctypePublic | doctypeSystem | doctypePublicId | doctypeSystemId =>
    exact rests_onDoctype
  | subsetClose => exact hleave
  | doctypeClose =>
    unfold dtdToken
    dsimp only
    split
    · exact hleave
    · exact .of_eq (nodes_leaveDeclaration b)
  | declarationClose => exact rests_declarationClose
  | unrecognized => exact rests_unrecognized
  | _ => exact rests_declarationParameter

/-! ## Start tags -/

/-- The current node is an element without children and without a `>` of its start tag. -/
def Starting (b : Builder) : Prop := ∃ n e, b.nodes[b.current]? = some n ∧ n.kind = .element e ∧
  n.children = #[] ∧ e.startClose = none

theorem Starting.step (h : b.Starting) (hkeeps : KeepsChildren b (step s b t inDtd))
    (hkind : t.kind ≠ .startTagClose ∧ t.kind ≠ .startTagSelfClose) : (step s b t inDtd).Starting := by
  obtain ⟨n, e, hn, he, hchildren, hclose⟩ := h
  obtain ⟨n', hn', hsame⟩ := hkeeps.children _ n hn
  have hchanges := changes_step s b t inDtd
  have hold := hchanges.old b.current (lt_size_of_getElem? hn)
  rw [kindOf_eq hn, he] at hold
  obtain ⟨e', he'⟩ : ∃ e', (Builder.step s b t inDtd).kindOf b.current = .element e' := by
    generalize (Builder.step s b t inDtd).kindOf b.current = k at *
    cases hold with
    | inner hother => cases hother
    | _ => exact ⟨_, rfl⟩
  refine ⟨n', e', by rwa [hkeeps.current], (kindOf_eq hn').symm.trans he', hsame.trans hchildren, ?_⟩
  cases hnew : e'.startClose with
  | none => rfl
  | some p =>
    rcases hchanges.startClose he' hnew with ⟨e₁, he₁, hp⟩ | ⟨-, -, -, hk⟩
    · obtain rfl := Kind.element.inj (he.symm.trans ((kindOf_eq hn).symm.trans he₁))
      cases hclose.symm.trans hp
    · exact absurd hk (not_or.mpr hkind)

theorem starting_step (h : x.inStartTag = true → b.Starting) (hc : x.Consistent) {pos : Nat} {spaced : Bool}
    (hr : Reads x pos spaced kind y) (hin : y.inStartTag = true) :
    (step s b ⟨kind, i, j, fault⟩ inDtd).Starting := by
  by_cases hopen : kind = .startTagOpen
  · subst hopen
    rw [step_startTagOpen]
    exact ⟨_, _, getElem?_openNode .., rfl, rfl, rfl⟩
  by_cases hname : kind = .startTagName
  · subst hname
    have hx : x.inStartTag = true := by
      cases hr with
      | startTagName hmode => simp [Lexer.inStartTag, hmode]
      | content _ h => simp [Lexer.StartsContent, Lexer.contentOpeners] at h
      | declaration _ h => simp [Lexer.StartsDeclaration, Lexer.dtdOpeners] at h
    exact (h hx).step (.step rfl (by simp)) (by simp)
  · rw [hr.inStartTag_eq hc hopen hname, Bool.and_eq_true] at hin
    have hstays : kind.inStartTag = true ∧ kind ≠ .startTagSelfClose ∧ kind ≠ .startTagClose := by
      obtain ⟨-, hkind⟩ := hin
      cases kind <;> first | exact absurd hkind Bool.false_ne_true | exact ⟨rfl, by simp, by simp⟩
    exact (h hin.1).step (.step hstays.1 hstays.2.1) ⟨hstays.2.2, hstays.2.1⟩

section startTag
variable (hu : Unclosed b.nodes b.current) (hs : b.Started) (h : LaidOut b.nodes i) (hstart : b.Starting)
variable (hkind : b.kindOf b.current = .element e)
include hu hs h hstart hkind

theorem Starting.exists_node : ∃ n, b.nodes[b.current]? = some n ∧ n.kind = .element e ∧ n.children = #[] ∧
    e.startClose = none ∧ e.selfClosed = false ∧ e.ending = [] := by
  obtain ⟨n, e₀, hnode, hk, hchildren, hclose⟩ := hstart
  obtain rfl := Kind.element.inj (hk.symm.trans ((kindOf_eq hnode).symm.trans hkind))
  exact ⟨n, hnode, hk, hchildren, hclose,
    hs.unended h (mem_chain_self ..) hnode hk (hu _ (mem_chain_self ..) n hnode)⟩

variable (hn : Nested s top b.nodes b.current i)
include hn

theorem laidOut_update {e' : Element} (sp : Span) (hopening : ∀ nodes, e'.opening nodes = e.opening nodes ++ [sp])
    (hle : i ≤ sp.start) (hspan : sp.start ≤ sp.stop) (hstop : sp.stop ≤ j) (hending : e'.ending = e.ending)
    (hopen : e'.startOpen = e.startOpen)
    (hself : e'.selfClosed = e.selfClosed ∨ (e'.startClose = some i ∧ j = i + 2)) :
    LaidOut (b.update b.current (.element e') j).nodes j := by
  obtain ⟨n, hnode, hk, hchildren, -, hself₀, hending₀⟩ := hstart.exists_node hu hs h hkind
  have hloose := slack_of_unclosed hn hu h hs b.current (mem_chain_self ..)
  have hplace : KeepsPlace b.nodes b.current (withKind (.element e') j) := hloose.keepsPlace fun _ => rfl
  refine h.write (f := withKind (.element e') j) (by omega) hplace fun n' e₁ hn' he₁ => ?_
  obtain rfl := Option.some.inj (hnode.symm.trans hn')
  obtain rfl := Kind.element.inj he₁
  have hsame : ∀ a ∈ e.attributes,
      spanAt (b.nodes.modify b.current (withKind (.element e') j)) a = spanAt b.nodes a :=
    fun a ha => hplace.spanAt_listed hnode (mem_attributeIds hk ha)
  refine (h hnode hk).start_adds sp ((hopening _).trans (by rw [Element.opening_congr hsame])) hle hspan hstop
    (hending.trans hending₀) hopen rfl hchildren fun htrue => ?_
  rcases hself with hfalse | ⟨hclose, hlen⟩
  · rw [hfalse, hself₀] at htrue
    cases htrue
  · refine ⟨i, hclose, ?_⟩
    have := (hn.inner hnode (top_lt_of_element hn hkind)).2
    show max n.span.stop j = i + 2
    omega

theorem laidOut_startTagName (hlast : b.current + 1 = b.nodes.size) (htag : e.tagSpan = none) (hle : i ≤ j) :
    LaidOut (step s b ⟨.startTagName, i, j, fault⟩ inDtd).nodes j := by
  obtain ⟨n, hnode, hk, -, hclose, -⟩ := hstart.exists_node hu hs h hkind
  have hattr : e.attributes = #[] := by
    refine Array.eq_empty_iff_forall_not_mem.mpr fun a ha => ?_
    obtain ⟨m, hm, hparent, -⟩ := (hn.arena.attr hnode).mp (mem_attributeIds hk ha)
    have hlt := hn.arena.parentAt_lt (parentAt_eq_some.mpr ⟨m, hm, hparent⟩)
    have := lt_size_of_getElem? hm
    omega
  rw [step_startTagName hkind]
  refine laidOut_update hu hs h hstart hkind hn ⟨i, j⟩ (fun nodes => ?_) (Nat.le_refl _) hle (Nat.le_refl _)
    rfl rfl (.inl rfl)
  simp [Element.opening, htag, hattr, hclose]

theorem laidOut_startTagClose (hlt : i < j) :
    LaidOut (step s b ⟨.startTagClose, i, j, fault⟩ inDtd).nodes j := by
  obtain ⟨-, -, -, -, hclose, hself, -⟩ := hstart.exists_node hu hs h hkind
  rw [step_startTagClose hkind]
  refine laidOut_update (b := { b with openAttribute := none }) hu hs h hstart hkind hn ⟨i, i + 1⟩
    (fun nodes => ?_) (Nat.le_refl _) (Nat.le_succ i) hlt rfl rfl (.inl rfl)
  simp [Element.opening, hclose, hself]

theorem laidOut_startTagSelfClose (hstop : j = i + 2) :
    LaidOut (step s b ⟨.startTagSelfClose, i, j, fault⟩ inDtd).nodes j := by
  obtain ⟨-, -, -, -, hclose, hself, -⟩ := hstart.exists_node hu hs h hkind
  rw [step_startTagSelfClose hkind]
  refine laidOut_update (b := { b with openAttribute := none }) hu hs h hstart hkind hn ⟨i, i + 2⟩
    (fun nodes => ?_) (Nat.le_refl _) (Nat.le_add_right i 2) (Nat.le_of_eq hstop.symm) rfl rfl (.inr ⟨rfl, hstop⟩)
  simp [Element.opening, hclose]

end startTag

/-! ## Attributes -/

section attributes
variable (hu : Unclosed b.nodes b.current) (hs : b.Started) (h : LaidOut b.nodes t.start)
variable (hstart : ∀ e, b.kindOf b.current = .element e → b.Starting) (hn : Nested s top b.nodes b.current t.start)
variable (hle : t.start ≤ t.stop)
include hu hs h hstart hn hle

theorem laidOut_attributeName {inProlog : Bool} (ho : Owns inProlog (b.kindOf b.current)) :
    LaidOut (attributeName s b t).nodes t.stop := by
  obtain ⟨k, hk, -⟩ := ho.withAttribute (s := s) b.nodes.size (Nat.le_refl 0)
  have hloose := slack_of_unclosed hn hu h hs b.current (mem_chain_self ..)
  have hplace : KeepsPlace b.nodes b.current (withKind k t.stop) := hloose.keepsPlace fun _ => rfl
  rw [attributeName_eq hk]
  refine h.grow (f := withKind k t.stop) (n := attributeNode s t b.current) hn.arena hle hplace
    (fun m e' hm hkind => ?_) fun e he => absurd he (ne_element rfl e)
  have hsame {e : Element} (he : m.kind = .element e) (a : Nat) (ha : a ∈ e.attributes) : spanAt
      (XmlAssist.grow b.nodes b.current (withKind k t.stop) (attributeNode s t b.current)) a = spanAt b.nodes a := by
    have hlisted := mem_attributeIds he ha
    rw [spanAt_grow_of_lt ((hn.arena.attr hm).mp hlisted).lt_size]
    exact hplace.spanAt_listed hm hlisted
  cases hcurrent : b.kindOf b.current with
  | element e =>
    rw [hcurrent] at hk
    obtain rfl := Option.some.inj hk
    obtain rfl := Kind.element.inj hkind
    obtain ⟨n, hnode, hn', hchildren, hclose, hself, hending⟩ := (hstart e hcurrent).exists_node hu hs h hcurrent
    obtain rfl := Option.some.inj (hnode.symm.trans hm)
    refine (h hnode hn').start_adds t.span ?_ (Nat.le_refl _) hle (Nat.le_refl _) hending rfl rfl hchildren
      fun htrue => (nomatch hself.symm.trans htrue)
    rw [← Element.opening_congr (hsame hn')]
    simp [Element.opening, hclose, spanAt_grow_size, attributeNode]
  | _ =>
    rw [hcurrent] at hk
    simp only [withAttribute] at hk
    first
      | cases hk
      | (split at hk
         · cases Option.some.inj hk
           cases hkind
         · cases hk)

theorem laidOut_attributeValue (howns : b.OwnsAttribute) (ha : b.Awaits) :
    LaidOut (attributeValue s b t).nodes t.stop := by
  obtain ⟨id, a, hid, hlast, hkind, -⟩ := ha
  have hloose := slack_of_unclosed hn hu h hs b.current (mem_chain_self ..)
  have hattr := howns id hid
  obtain ⟨m, hm, hk⟩ := exists_node hkind (by simp)
  rw [attributeValue_eq hid hkind]
  generalize hval : Kind.attribute (a.withValue (Text.slice s t.start t.stop) t.span) = k
  have hvalue : LaidOut (b.nodes.modify id (withKind k t.stop)) t.stop := by
    refine h.stretch (f := withKind k t.stop) hn.arena hle hattr (fun _ _ => ne_element (hval ▸ rfl))
      fun n e hnode he => ?_
    · obtain ⟨n', hnode', hn', hchildren, hclose, hself, hending⟩ :=
        (hstart e ((kindOf_eq hnode).trans he)).exists_node hu hs h ((kindOf_eq hnode).trans he)
      obtain rfl := Option.some.inj (hnode.symm.trans hnode')
      have hids : n.attributeIds = e.attributes := by rw [attributeIds, he]
      have hsorted := hn.arena.attributes_lt hnode
      have hmem := (hn.arena.attr hnode).mpr hattr
      rw [hids] at hsorted hmem
      obtain ⟨init, hsplit, hinit⟩ := exists_concat_of_max hsorted (Array.mem_toList_iff.mpr hmem) fun c hc => by
        have := ((hn.arena.attr hnode).mp (mem_attributeIds he (Array.mem_toList_iff.mp hc))).lt_size
        omega
      have hmodified : (b.nodes.modify id (withKind k t.stop))[id]? = some (withKind k t.stop m) := by
        rw [Array.getElem?_modify, if_pos rfl, hm]
        rfl
      refine (h hnode he).stretch hsplit hinit hclose hself hending hchildren ?_ ?_ hle
      · rw [spanAt_eq hmodified, spanAt_eq hm]
        rfl
      · have hstop := (h hnode he).stop_le (spanAt b.nodes id) (List.mem_append_left _ (by
          simp [Element.opening, hsplit]))
        rw [spanAt_eq hm] at hstop
        rw [spanAt_eq hmodified]
        exact Nat.max_le.mpr ⟨Nat.le_trans hstop hle, Nat.le_refl _⟩
  have hloose' : Loose (b.nodes.modify id (withKind k t.stop)) b.current := by
    refine hloose.of_same fun p n' hn' => ?_
    obtain ⟨n, hnode, ⟨rfl, rfl⟩ | ⟨-, rfl⟩⟩ := getElem?_modify_eq_some hn'
    · obtain rfl := Option.some.inj (hm.symm.trans hnode)
      refine ⟨m, hm, ?_, rfl, fun e he => by cases hval.trans he⟩
      rw [attributeIds, attributeIds, hk, ← hval]
      rfl
    · exact ⟨n', hnode, rfl, rfl, fun _ he => he⟩
  exact hvalue.rests (g := (· = b.current))
    (rests_extend (b := { b with nodes := b.nodes.modify id (withKind k t.stop) }) rfl)
    (fun _ hc => hc ▸ hloose') (Nat.le_refl _)

end attributes

/-! ## End tags -/

section nearest
variable {start : Nat} (hu : Unclosed b.nodes b.current) (hs : b.Started) (h : LaidOut b.nodes start)
include hu hs h

theorem endClose_closeNearest
    (hkind : (closeNearest s b start t).kindOf (closeNearest s b start t).current = .element e) :
    e.endClose = none := by
  cases hfind : (chain b.nodes b.current).find? (b.isOpenAs (t.written s)) with
  | none =>
    simp only [closeNearest, hfind] at hkind
    rw [kindOf_eq (getElem?_openNode ..)] at hkind
    obtain rfl := Kind.element.inj hkind
    rfl
  | some id =>
    obtain ⟨e₀, hkind₀, -⟩ := element_of_isOpenAs (List.find?_some hfind)
    have hid := List.mem_of_find?_eq_some hfind
    obtain ⟨m, hm, hmk⟩ := exists_node hkind₀ (by simp)
    obtain ⟨-, hending⟩ := hs.unended h hid hm hmk (hu id hid m hm)
    simp only [closeNearest, hfind, closeAt_eq hkind₀] at hkind
    obtain rfl := Kind.element.inj ((kindOf_update (k := .element e₀)
      ((kindOf_reach ..).trans hkind₀) (by simp)).symm.trans hkind)
    exact (Element.endClose_of_ending hending : e₀.endClose = none)

variable (hn : Nested s top b.nodes b.current start)
include hn

theorem laidOut_closeNearest (hle : start + 2 ≤ t.start) (hstop : t.start ≤ t.stop) :
    LaidOut (closeNearest s b start t).nodes t.stop := by
  have hslack := slack_of_unclosed hn hu h hs
  cases hfind : (chain b.nodes b.current).find? (b.isOpenAs (t.written s)) with
  | none =>
    simp only [closeNearest, hfind]
    refine laidOut_append hn.arena h (fun _ _ => hs.ending h hu) (Nat.le_refl _) (by omega) fun e he => ?_
    · obtain rfl := Kind.element.inj he
      refine .of_ending rfl rfl rfl rfl rfl rfl ?_ ?_ rfl (by rintro _ ⟨⟩)
      · simpa [Element.ending, strayElement, Token.span] using hle
      · simpa [Element.ending, strayElement, Token.span] using by omega
  | some id =>
    obtain ⟨e, hkind, -⟩ := element_of_isOpenAs (List.find?_some hfind)
    have hid := List.mem_of_find?_eq_some hfind
    generalize hinner : (chain b.nodes b.current).takeWhile (!b.isOpenAs (t.written s) ·) = inner
    have hmem : ∀ c ∈ inner, c ∈ chain b.nodes b.current := fun c hc => List.takeWhile_subset _ (hinner ▸ hc)
    simp only [closeNearest, hfind, closeAt_eq hkind, hinner]
    -- first all inside the element ends at the end tag
    have hreach : LaidOut (reach b.nodes inner start) start :=
      h.rests (.reach (g := (· ∈ inner)) (fun _ hc => hc) start) (fun c hc => hslack c (hmem c hc)) (Nat.le_refl _)
    have hnested := nested_reach hn hmem (Nat.le_refl start) hn.edge_le
    obtain ⟨n, hnode, hk⟩ := exists_node ((kindOf_reach b inner start id).trans hkind) (by simp)
    obtain ⟨m, hm, hmk⟩ := exists_node hkind (by simp)
    obtain ⟨hself, hending⟩ := hs.unended h hid hm hmk (hu id hid m hm)
    -- then the element gets its end tag
    have hle' : start ≤ t.stop := by omega
    refine hreach.ends ((hslack id hid).reach inner start) hnested.arena hnode hk
      { e with closed := true, endOpen := some start, endTagSpan := some t.span }
      (l := [⟨start, start + 2⟩, t.span])
      (fun _ => rfl) ?_ ?_ ?_ hle' (fun c hc a ha => ?_) rfl hself (fun p hp => ?_) rfl
    · simp [Element.ending, Element.endClose_of_ending hending, Element.endOpen_of_ending hending] at hending ⊢
      exact hending
    · simpa [Token.span] using hle
    · simp [Token.span]
      omega
    · have hchild := (hnested.arena.child hnode).mp hc
      have hlt := hnested.arena.child_lt hchild
      obtain ⟨k, hck, -⟩ := hchild
      have htop := top_lt_of_element hn hkind
      have := (hnested.inner hck (by omega)).2
      rw [spanAt_eq hck]
      simp [Token.span] at ha
      rcases ha with rfl | rfl
      · exact this
      · show k.span.stop ≤ t.start
        omega
    · cases (Element.endClose_of_ending hending).symm.trans hp

end nearest

theorem laidOut_close (hclosing : b.Closing s top i) (h : LaidOut b.nodes i) (hs : b.Started)
    (hkind : b.kindOf b.current = .element e) (hclose : e.endClose = none) (hstop : j = i + 1) :
    LaidOut (step s b ⟨.endTagClose, i, j, fault⟩ inDtd).nodes j := by
  obtain ⟨e₀, hkind₀, hclosed, hend⟩ := hclosing.kind
  obtain rfl := Kind.element.inj (hkind₀.symm.trans hkind)
  obtain ⟨n, hnode, hk⟩ := exists_node hkind (by simp)
  have hself := (h hnode hk).ended hend
  have hslack : b.Slack := by
    refine slack_of_around hclosing.nested.arena hclosing.nested.rightmost h hs (fun m e hm he => ?_) hclosing.around
    obtain rfl := Option.some.inj (hnode.symm.trans hm)
    obtain rfl := Kind.element.inj (hk.symm.trans he)
    exact ⟨hself, hclose⟩
  have hinner := (hclosing.nested.inner hnode hclosing.top_lt).2
  rw [step_endTagClose hkind hclosing.endTagOpen hclosed hend]
  refine h.ends (hslack b.current (mem_chain_self ..)) hclosing.nested.arena hnode hk { e₀ with endClose := some i }
    (l := [⟨i, i + 1⟩]) (fun _ => rfl) ?_ (List.pairwise_singleton ..) ?_ (by omega) (fun c hc a ha => ?_) rfl hself
    (fun p hp => ?_) hend
  · simp [Element.ending, hclose]
  · simpa using by omega
  · have hchild := (hclosing.nested.arena.child hnode).mp hc
    have hlt := hclosing.nested.arena.child_lt hchild
    have htop := hclosing.top_lt
    obtain ⟨k, hck, -⟩ := hchild
    rw [spanAt_eq hck, List.mem_singleton.mp ha]
    exact (hclosing.nested.inner hck (by omega)).2
  · obtain rfl : i = p := Option.some.inj hp
    show max n.span.stop j = i + 1
    omega

end Builder

end XmlAssist
