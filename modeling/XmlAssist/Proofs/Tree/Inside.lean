import XmlAssist.Proofs.Tree.Covering
import XmlAssist.Proofs.Tree.Tags
import XmlAssist.Tree.TagName

/-!
# What stands inside an element

The children of an element stand behind the name in its start tag (`stop_le_child`) and do not reach into its
end tag (`stop_le_or_le_child`). So the innermost node at the start of either name is the element itself
(`nodeAt_tagSpan`, `nodeAt_endTagSpan`).
-/

namespace XmlAssist

open Node
open Text (size isBoundary)
open Lexer (Leads)

variable {s text uri : String} {x y z : Lexer} {l m : List (Token × Lexer)} {b : Builder} {t : Token} {e : Element}
variable {id c i p : Nat} {sp : Span}

namespace Builder

theorem le_start_of_later (huri : Document.isDtdUri uri = false) (hl : Leads s .document l y)
    (hnone : (behind s l (start s false)).endTagOpen = none) (hc : (behind s l (start s false)).nodes.size ≤ c)
    (hlt : c < (Document.parse s uri).nodes.size) : y.pos ≤ ((Document.parse s uri).span c).start := by
  have hf := (follows_start s false).behind hl
  have hbefore := (covering_start s false).behind (follows_start s false) (Nat.zero_le _) hl
  have hcovering : (behind s l (start s false)).Covering (behind s l (start s false)).nodes.size y.pos :=
    ⟨hbefore.covers, fun hn hle => absurd (lt_size_of_getElem? hn) (Nat.not_lt_of_le hle),
      fun o ho => (by cases hnone.symm.trans ho), hbefore.contentStart⟩
  obtain ⟨z, hrest, -⟩ := Leads.exists_end s y hf.boundary
  have hend := (hcovering.behind hf (Nat.le_refl _) hrest).atEnd (s := s)
  have hn := Array.getElem?_eq_getElem hlt
  rw [Document.span_eq hn]
  exact hend.later ((congrArg (·[c]?) (parse_nodes huri hl)).symm.trans hn) hc

/-! ### The name of an end tag -/

/-- The element that the name of an end tag goes to. -/
def ended (s : String) (b : Builder) (t : Token) : Nat := (b.nearest? (t.written s)).getD b.nodes.size

theorem current_closeNearest : (closeNearest s b i t).current = b.ended s t := by
  rw [ended, nearest?]
  cases hfind : (chain b.nodes b.current).find? (b.isOpenAs (t.written s)) with
  | none => rw [closeNearest_of_none hfind, openNode_current, Option.getD_none]
  | some c =>
    obtain ⟨e, hkind, -⟩ := element_of_isOpenAs (List.find?_some hfind)
    simp only [closeNearest, hfind, closeAt_eq hkind, Option.getD_some]

theorem endTagOpen_closeNearest : (closeNearest s b i t).endTagOpen = b.endTagOpen := by
  cases hfind : (chain b.nodes b.current).find? (b.isOpenAs (t.written s)) with
  | none =>
    rw [closeNearest_of_none hfind]
    rfl
  | some c =>
    obtain ⟨e, hkind, -⟩ := element_of_isOpenAs (List.find?_some hfind)
    simp only [closeNearest, hfind, closeAt_eq hkind]
    rfl

theorem stop_le_of_ended_lt {n : Node} (h : ∀ c n, b.nodes[c]? = some n → 0 < c → n.span.stop ≤ i)
    (hc : b.ended s t < c) (hn : (closeNearest s b i t).nodes[c]? = some n) : n.span.stop ≤ i := by
  rw [ended, nearest?] at hc
  cases hfind : (chain b.nodes b.current).find? (b.isOpenAs (t.written s)) with
  | none =>
    rw [hfind, Option.getD_none] at hc
    rw [closeNearest_of_none hfind] at hn
    have hlt := lt_size_of_getElem? hn
    rw [openNode, append_nodes, size_grow] at hlt
    omega
  | some a =>
    obtain ⟨e, hkind, -⟩ := element_of_isOpenAs (List.find?_some hfind)
    rw [hfind, Option.getD_some] at hc
    simp only [closeNearest, hfind, closeAt_eq hkind] at hn
    obtain ⟨m, hm, ⟨rfl, -⟩ | ⟨-, rfl⟩⟩ := getElem?_modify_eq_some hn
    · exact absurd hc (Nat.lt_irrefl _)
    · rw [getElem?_reach] at hm
      obtain ⟨n, hold, rfl⟩ := Option.map_eq_some_iff.mp hm
      have hle := h c n hold (Nat.zero_lt_of_lt hc)
      split
      · exact Nat.max_le.mpr ⟨hle, Nat.le_refl _⟩
      · exact hle

end Builder

theorem ReadsTag.start_lt_stop (h : ReadsTag s l z m y) : (y.step s).1.span.start < (y.step s).1.span.stop := by
  have hboundary := h.leads.boundary (Text.isBoundary_zero s)
  show (y.step s).1.start < (y.step s).1.stop
  rw [Leads.start_step hboundary h.inside, Leads.stop_step hboundary h.inside]
  exact Leads.pos_lt_step hboundary h.inside

namespace Document

open Builder

variable {d : Document} {offset : Nat}

theorem element?_node (he : d.element? id = some e) :
    ∃ n, d.nodes[id]? = some n ∧ n.isAttribute = false := by
  obtain ⟨n, hn, hne⟩ := exists_node_of_element? he
  exact ⟨n, hn, by rw [isAttribute, Node.attribute?, kind_of_element? hne]; rfl⟩

/-- A node that contains an offset that none of its children contains is the innermost one there. -/
theorem Complete.nodeAt_eq (h : Complete d) (hid : ∃ n, d.nodes[id]? = some n ∧ n.isAttribute = false)
    (hstart : (d.span id).start ≤ offset) (hstop : offset < (d.span id).stop)
    (hchild : ∀ c, Child d.nodes id c → (d.span c).stop ≤ offset ∨ offset < (d.span c).start) :
    d.nodeAt offset = id := by
  have hin := Nat.lt_of_lt_of_le hstop (h.stop_le (lt_size_of_getElem? hid.choose_spec.1))
  have hmem := h.mem_chain_nodeAt hid hstart (.inl hstop)
  have hroot := lt_size_of_getElem? h.exists_root.choose_spec.1
  refine Decidable.byContradiction fun hne => ?_
  have hdesc : Descends (d.inward? offset) 0 (d.nodeAt offset) := h.descends 0 hroot
  obtain ⟨hnode, -⟩ := h.mem_chain_of_descends hdesc h.exists_root
  obtain ⟨c, hc, hmember⟩ := exists_child_of_mem_chain h.arena hnode hmem fun heq => hne heq.symm
  obtain ⟨hle, hlt⟩ := h.span_nodeAt (Nat.le_of_lt hin)
  obtain ⟨hcstart, hcstop⟩ := h.span_of_mem_chain hmember
  have hoffset : offset < (d.span (d.nodeAt offset)).stop :=
    hlt.resolve_right fun hend => Nat.ne_of_lt hin hend.1
  have hout := hchild c hc
  change (d.span c).start ≤ (d.span (d.nodeAt offset)).start at hcstart
  change (d.span (d.nodeAt offset)).stop ≤ (d.span c).stop at hcstop
  omega

theorem step_of_startTagName {b : Builder} {t : Token} (hkind : t.kind = .startTagName) (inDtd : Bool)
    (h : b.kindOf b.current = .element e) : b.step s t inDtd =
      b.update b.current (.element { e with tag := some (t.written s), tagSpan := some t.span }) t.stop := by
  obtain ⟨k, i, j, fault⟩ := t
  obtain rfl : k = .startTagName := hkind
  exact step_startTagName h

section element
variable (huri : isDtdUri uri = false) (he : (parse text uri).element? id = some e)
include huri he

/-- The children of an element stand behind the name in its start tag. -/
theorem stop_le_child (hsp : e.tagSpan = some sp) (hc : Child (parse text uri).nodes id c) :
    sp.stop ≤ ((parse text uri).span c).start := by
  obtain ⟨l, z, m, y, hread, hkind, rfl, -⟩ := exists_startTag huri he hsp
  have hf := (follows_start text false).behind hread.leads
  obtain ⟨e₁, he₁, -, hspan⟩ := names_of huri hread.leads hread.inside hkind
  obtain rfl := eq_of_tagSpan he₁ he hspan hsp
  -- the element is the last node where its name is read
  have hmode := (Lexer.mode_of_name hf.consistent hf.boundary hread.inside).1 hkind
  obtain ⟨hsteady, -⟩ := hf.fits.inTag (.inl hmode)
  obtain ⟨hlast, e₂, hcurrent, -⟩ := hf.detail.afterStartTagOpen hmode
  have hstep := step_of_startTagName (s := text) hkind (y.step text).2.inDtd hcurrent
  have hbehind : Builder.behind text (l ++ z.step text :: m ++ [y.step text]) (start text false) = _ :=
    (behind_append ..).trans hstep
  show (y.step text).1.stop ≤ _
  rw [Leads.stop_step hf.boundary hread.inside]
  refine le_start_of_later huri (hread.leads.append (.one hread.inside)) ?_ ?_ hc.lt_size
  · rw [hbehind]
    exact hsteady.endTagOpen
  · rw [hbehind]
    have hlt := (complete_parse text uri).arena.child_lt hc
    simp only [update, Builder.modify, Array.size_modify]
    omega

/-- The children of an element do not reach into its end tag. -/
theorem stop_le_or_le_child (hsp : e.endTagSpan = some sp) (hp : e.endOpen = some p)
    (hc : Child (parse text uri).nodes id c) :
    ((parse text uri).span c).stop ≤ p ∨ sp.stop ≤ ((parse text uri).span c).start := by
  obtain ⟨l, z, m, y, hread, hkind, rfl, hend⟩ := exists_endTag huri he hsp
  obtain rfl := Option.some.inj (hp.symm.trans hend)
  obtain ⟨a, e', he', hspan, -, ha⟩ := hread.closes huri hkind
  obtain rfl := eq_of_endTagSpan he' he hspan hsp
  have hf := (follows_start text false).behind hread.leads
  have hall := hread.leads.append (.one hread.inside)
  have hlt := (complete_parse text uri).arena.child_lt hc
  have hbehind : Builder.behind text (l ++ z.step text :: m ++ [y.step text]) (start text false) = _ :=
    (behind_append ..).trans (hread.step_eq hkind)
  have hopen := endTagOpen_of_step (s := text) (b := Builder.behind text l (start text false)) (z.step text).2.inDtd
    (hread.endTagOpen hkind)
  have hattribute : (Builder.behind text (l ++ z.step text :: m) (start text false)).openAttribute = none := by
    rw [hread.behind_eq, openAttribute_step (by rw [hread.endTagOpen hkind]; rintro ⟨⟩), hread.endTagOpen hkind]
    rfl
  rw [← hread.behind_eq, Leads.start_step hread.boundary hread.lt] at hopen
  have hmode := (Lexer.mode_of_name hf.consistent hf.boundary hread.inside).2 hkind
  obtain ⟨i, -, hpending⟩ := hf.fits.afterEndTagOpen hmode
  generalize Builder.behind text (l ++ z.step text :: m) (start text false) = b at *
  obtain rfl := Option.some.inj (hpending.endTagOpen.symm.trans hopen)
  rcases Nat.lt_or_ge c (Builder.behind text (l ++ z.step text :: m ++ [y.step text])
    (start text false)).nodes.size with hold | hnew
  · -- the children that are there have been left
    left
    obtain ⟨b', hnodes, hspares⟩ := exists_spares huri hall
    have hfall := (follows_start text false).behind hall
    rw [hbehind] at hspares hold hfall
    have hended : ended text { b with endTagOpen := none } (y.step text).1 < c := by
      rw [ha] at hlt
      exact hlt
    have hsame := hspares.node c hold (fun haround => ?_) ?_
    · have hn := Array.getElem?_eq_getElem hold
      rw [span_eq (hnodes ▸ hsame.trans hn)]
      refine stop_le_of_ended_lt (b := { b with endTagOpen := none })
        (fun c n hn hpos => (hpending.nested.inner hn ?_).2) hended hn
      rw [(outside_of_agrees hf.consistent (.inr (.inl hmode))).1]
      exact hpos
    · have hle := le_of_mem_chain (hfall.fits.mem_chain_of_around haround)
      rw [current_closeNearest] at hle
      exact Nat.not_lt_of_le hle hended
    · rw [openAttribute_closeNearest, show _ = none from hattribute]
      rintro ⟨⟩
  · right
    show (y.step text).1.stop ≤ _
    rw [Leads.stop_step hf.boundary hread.inside]
    refine le_start_of_later huri hall ?_ hnew hc.lt_size
    rw [hbehind, endTagOpen_closeNearest]

theorem stop_le_endOpen {sp' : Span} (hsp : e.tagSpan = some sp) (hsp' : e.endTagSpan = some sp')
    (hp : e.endOpen = some p) : sp.stop ≤ p ∧ p < sp'.start := by
  have hbefore := tagSpan_before_endTagSpan huri he hsp hsp'
  obtain ⟨l, z, m, y, hread, hkind, rfl, -⟩ := exists_startTag huri he hsp
  obtain ⟨l', z', m', y', hread', hkind', rfl, hend⟩ := exists_endTag huri he hsp'
  obtain rfl := Option.some.inj (hp.symm.trans hend)
  have hzero := Text.isBoundary_zero text
  have hy := hread.leads.boundary hzero
  have hy' := hread'.leads.boundary hzero
  have hstop : (y.step text).1.span.stop = (y.step text).2.pos := Leads.stop_step hy hread.inside
  have hstart : (y'.step text).1.span.start = y'.pos := Leads.start_step hy' hread'.inside
  rw [hstop, hstart] at hbefore ⊢
  have hlt := Nat.lt_of_lt_of_le (Leads.pos_lt_step hy hread.inside) hbefore
  refine ⟨?_, hread'.lt_name⟩
  have hle := hread'.le_bracket hread.leads hread.inside (by rw [hkind]; rintro ⟨⟩) hlt
  obtain ⟨r, -, hr⟩ := hread.leads.split hread'.before hzero hle
  cases hr with
  | here => cases hkind.symm.trans (hread'.endTagOpen hkind')
  | next _ hrest => exact hrest.pos_le (Leads.boundary_step hy hread.inside)

theorem nodeAt_tag (hsp : e.tagSpan = some sp ∨ e.endTagSpan = some sp) : (parse text uri).nodeAt sp.start = id := by
  have h := complete_parse text uri
  obtain ⟨n, hn, hne⟩ := exists_node_of_element? he
  have hspan := span_eq hn
  have hcovers := parse_covers text uri n (Array.mem_of_getElem? hn)
  have hinside := hcovers.inside sp (by
    rw [kind_of_element? hne]
    exact List.mem_append.mpr (hsp.imp (by simp [·]) (by simp [·])))
  have hlt : sp.start < sp.stop ∧ ∀ c, Child (parse text uri).nodes id c →
      ((parse text uri).span c).stop ≤ sp.start ∨ sp.start < ((parse text uri).span c).start := by
    rcases hsp with hsp | hsp
    · obtain ⟨l, z, m, y, hread, -, rfl, -⟩ := exists_startTag huri he hsp
      refine ⟨hread.start_lt_stop, fun c hc => .inr ?_⟩
      exact Nat.lt_of_lt_of_le hread.start_lt_stop (stop_le_child huri he hsp hc)
    · obtain ⟨l, z, m, y, hread, -, rfl, hend⟩ := exists_endTag huri he hsp
      have hstart : (y.step text).1.span.start = y.pos :=
        Leads.start_step (hread.leads.boundary (Text.isBoundary_zero text)) hread.inside
      refine ⟨hread.start_lt_stop, fun c hc => ?_⟩
      rcases stop_le_or_le_child huri he hsp hend hc with hle | hle
      · exact .inl (hstart ▸ Nat.le_trans hle (Nat.le_of_lt hread.lt_name))
      · exact .inr (Nat.lt_of_lt_of_le hread.start_lt_stop hle)
  exact h.nodeAt_eq (element?_node he) (hspan ▸ hinside.1) (hspan ▸ Nat.lt_of_lt_of_le hlt.1 hinside.2) hlt.2

end element

/-! ### The names that are found -/

theorem elementNear?_eq (he : d.element? (d.nodeAt offset) = some e) :
    d.elementNear? offset = some (d.nodeAt offset) := by
  obtain ⟨n, hn, hne⟩ := exists_node_of_element? he
  have helement : (d.node (d.nodeAt offset)).isElement = true := by
    rw [node_eq hn, isElement, hne]
    rfl
  rw [elementNear?, if_pos helement]

theorem tagNameAt?_eq (he : d.element? (d.nodeAt offset) = some e) :
    d.tagNameAt? offset =
      ((e.tagSpan.filter (·.touches offset)).map fun sp => ⟨d.nodeAt offset, sp, true⟩).or
        ((e.endTagSpan.filter (·.touches offset)).map fun sp => ⟨d.nodeAt offset, sp, false⟩) := by
  rw [tagNameAt?, elementNear?_eq he]
  show ((d.element? (d.nodeAt offset)).bind _) = _
  rw [he, Option.bind_some]
  cases e.tagSpan.filter (·.touches offset) <;> cases e.endTagSpan.filter (·.touches offset) <;> rfl

/-- The name in the start tag of an element, or else that in its end tag. -/
def nameIn (e : Element) (inStartTag : Bool) : Option Span := if inStartTag then e.tagSpan else e.endTagSpan

theorem nameIn_of_tagNameAt? {name : TagName} (h : d.tagNameAt? offset = some name) :
    ∃ e, d.element? name.element = some e ∧ nameIn e name.inStartTag = some name.span := by
  rw [tagNameAt?, Option.bind_eq_bind, Option.bind_eq_some_iff] at h
  obtain ⟨id, -, h⟩ := h
  rw [Option.bind_eq_bind, Option.bind_eq_some_iff] at h
  obtain ⟨e, he, h⟩ := h
  split at h
  · rename_i hspan
    obtain rfl := Option.some.inj h
    exact ⟨e, he, (Option.filter_eq_some_iff.mp hspan).1⟩
  · rename_i hspan
    obtain rfl := Option.some.inj h
    exact ⟨e, he, (Option.filter_eq_some_iff.mp hspan).1⟩
  · cases h

theorem isDtdUri_of_element? (he : (parse text uri).element? id = some e) : isDtdUri uri = false := by
  obtain ⟨n, hn, hne⟩ := exists_node_of_element? he
  have hplace := places_of_getElem? hn
  rw [kind_of_element? hne] at hplace
  exact file_eq_false (build_tidy text (isDtdUri uri)) hplace

/-- **The tags of an element are found at their names.** -/
theorem tagNameAt?_tag (he : (parse text uri).element? id = some e) {inStartTag : Bool}
    (hsp : nameIn e inStartTag = some sp) : (parse text uri).tagNameAt? sp.start = some ⟨id, sp, inStartTag⟩ := by
  have huri := isDtdUri_of_element? he
  have htouches (sp : Span) (hle : sp.start ≤ sp.stop) : sp.touches sp.start = true := by
    simp [Span.touches, hle]
  cases inStartTag with
  | true =>
    replace hsp : e.tagSpan = some sp := hsp
    have hnode := nodeAt_tag huri he (.inl hsp)
    have hle := (lies_tagSpan he sp (by simp [hsp])).start_le
    rw [tagNameAt?_eq (hnode ▸ he), hnode, hsp, Option.filter_some, if_pos (htouches sp hle)]
    rfl
  | false =>
    replace hsp : e.endTagSpan = some sp := hsp
    have hnode := nodeAt_tag huri he (.inr hsp)
    have hle := (lies_tagSpan he sp (by simp [hsp])).start_le
    have hnone : e.tagSpan.filter (·.touches sp.start) = none := by
      rw [Option.filter_eq_none_iff]
      intro sp' hsp' htouch
      obtain ⟨_, _, _, _, -, -, -, hend⟩ := exists_endTag huri he hsp
      obtain ⟨hstop, hlt⟩ := stop_le_endOpen huri he hsp' hsp hend
      simp only [Span.touches, Bool.and_eq_true, decide_eq_true_eq] at htouch
      omega
    rw [tagNameAt?_eq (hnode ▸ he), hnode, hnone, hsp, Option.filter_some, if_pos (htouches sp hle)]
    rfl

end Document

end XmlAssist
