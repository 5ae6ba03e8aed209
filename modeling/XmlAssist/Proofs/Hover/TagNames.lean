import XmlAssist.Hover.Show
import XmlAssist.Proofs.Lexer.Reaching
import XmlAssist.Proofs.Tree.Inside

/-!
# The names of tags under a cursor

For a hover the markup is read again from the start of the element or of its end tag, and may run into other
tags before it comes to the cursor. It finds what the tree says (`rescannedTag?_eq`): a name in another start
tag under the cursor belongs to an element inside, so that the cursor would be in that one, and the element
ends before the next end tag behind its own.
-/

namespace XmlAssist.Hover

open Node Document
open Text (isBoundary)
open Lexer (Leads)

variable {text uri : String} {offset id p : Nat} {e : Element} {l m : List (Token × Lexer)} {y z : Lexer}

theorem start_lt_offset (hread : ReadsTag text l z m y) (htouch : (y.step text).1.span.touches offset = true) :
    z.pos < offset := by
  have hstart := (Lexer.touches_iff.mp htouch).1
  have hname : (y.step text).1.span.start = y.pos :=
    Leads.start_step (hread.leads.boundary (Text.isBoundary_zero text)) hread.inside
  have hlt := hread.lt_name
  omega

section cursor
variable (huri : isDtdUri uri = false) (hle : offset ≤ (parse text uri).size)
variable (he : (parse text uri).element? ((parse text uri).nodeAt offset) = some e)
variable (hread : ReadsTag text l z m y) (htouch : (y.step text).1.span.touches offset = true)
include huri hle he hread htouch

theorem endTagSpan_at_cursor (htag : e.tag.isSome = true) (hp : e.endOpen = some p)
    (hkind : (y.step text).1.kind = .endTagName) (hbehind : p ≤ z.pos) :
    e.endTagSpan = some (y.step text).1.span := by
  obtain ⟨c, e', he', hspan, hopen, -⟩ := hread.closes huri hkind
  rcases Nat.eq_or_lt_of_le hbehind with rfl | hlt
  · obtain rfl := eq_of_endOpen he' he hopen hp
    obtain rfl := Option.some.inj (he.symm.trans he')
    exact hspan
  · -- the element ended before the other end tag
    have hstop := stop_le_of_endOpen huri he htag hp hread.before hread.lt (hread.endTagOpen hkind) hlt
    have hoffset := start_lt_offset hread htouch
    have hsize : (parse text uri).size = Text.size text := rfl
    have hlt := hread.lt
    rcases (complete_parse text uri).span_nodeAt hle with ⟨-, hin | ⟨heq, hend⟩⟩ <;> omega

/-- From its start on, a cursor in an element, but in front of its end tag, touches no name of a start tag but
its own. -/
theorem tagSpan_at_cursor {i : Nat} (hi : e.startOpen = some i)
    (hstart : ((parse text uri).span ((parse text uri).nodeAt offset)).start = i)
    (hbefore : ∀ p, e.endOpen = some p → offset < p) (hkind : (y.step text).1.kind = .startTagName)
    (hbehind : i ≤ z.pos) : e.tagSpan = some (y.step text).1.span := by
  have h := complete_parse text uri
  obtain ⟨c, e', he', hspan, hopen, hstart', hreach, hended⟩ := hread.opens huri hkind
  rcases Nat.eq_or_lt_of_le hbehind with rfl | hlt
  · obtain rfl := eq_of_startOpen he' he hopen hi
    obtain rfl := Option.some.inj (he.symm.trans he')
    exact hspan
  exfalso
  have hoffset := start_lt_offset hread htouch
  have hstop : offset ≤ (y.step text).1.stop := (Lexer.touches_iff.mp htouch).2
  have hnode := element?_node he
  have hnode' := element?_node he'
  -- the other element starts inside this one, so the cursor is not in it
  have hnot : ¬ (offset < ((parse text uri).span c).stop ∨
      (offset = ((parse text uri).span c).stop ∧ offset = (parse text uri).size ∧ 0 < offset)) := fun hin => by
    have hstarts := (h.span_of_mem_chain (h.mem_chain_nodeAt hnode' (by omega) hin)).1
    omega
  -- so it is left without an end at the end tag of one around it, which starts at the cursor
  have hends : (y.step text).1.stop = offset ∧ ((parse text uri).span c).stop = offset := by omega
  have hunended : e'.isUnended = true := by
    rw [← Bool.not_eq_false]
    intro hended'
    have hbehind := hended hended'
    omega
  obtain hend | ⟨a, ha, outer, houter, houterEnd, hbetween⟩ := stop_of_isUnended he' hunended
  · omega
  rw [hends.2] at houterEnd
  have hinside : offset < ((parse text uri).span ((parse text uri).nodeAt offset)).stop := by
    rcases h.span_nodeAt hle with ⟨-, hin | ⟨heq, -⟩⟩ <;> omega
  have hout : (parse text uri).nodeAt offset ∈ (parse text uri).ancestors c := by
    have hmem : (parse text uri).nodeAt offset ∈ chain (parse text uri).nodes ((parse text uri).nodeAt z.pos) :=
      h.mem_chain_nodeAt hnode (by omega) (.inl (by omega))
    have hmem' : c ∈ chain (parse text uri).nodes ((parse text uri).nodeAt z.pos) :=
      h.mem_chain_nodeAt hnode' (by omega) (.inl (by omega))
    rcases Nat.le_total ((parse text uri).nodeAt offset) c with hle | hle
    · have hchain := mem_chain_of_le hmem hmem' hle
      rw [chain_eq_cons, List.mem_cons] at hchain
      refine hchain.resolve_left fun heq => ?_
      rw [heq] at hstart
      omega
    · have hstarts := (h.span_of_mem_chain (mem_chain_of_le hmem' hmem hle)).1
      omega
  have hmem : a ∈ chain (parse text uri).nodes c := by
    rw [chain_eq_cons]
    exact List.mem_cons_of_mem _ ha
  have hmem' : (parse text uri).nodeAt offset ∈ chain (parse text uri).nodes c := by
    rw [chain_eq_cons]
    exact List.mem_cons_of_mem _ hout
  rcases Nat.lt_trichotomy a ((parse text uri).nodeAt offset) with hlt' | rfl | hlt'
  · -- that one is around this element, which ends at the cursor then
    have hchain := mem_chain_of_le hmem hmem' (Nat.le_of_lt hlt')
    rw [chain_eq_cons, List.mem_cons] at hchain
    have hcut := hbetween _ hout (hchain.resolve_left (Nat.ne_of_lt hlt')) e he
    omega
  · obtain rfl := Option.some.inj (he.symm.trans houter)
    exact Nat.lt_irrefl _ (hbefore offset houterEnd)
  · -- that one is inside this element, and the cursor is in it
    have hunended' : outer.isUnended = false := by
      rw [Element.isUnended, Element.hasEndTag, houterEnd, Option.isSome_some, Bool.not_true, Bool.and_false]
    have hreach' := lt_stop_of_ancestor huri hread hkind he' hspan ha houter hunended'
    have hstart'' := (h.span_of_mem_chain hmem).1
    have hfound : a ∈ chain (parse text uri).nodes ((parse text uri).nodeAt offset) :=
      h.mem_chain_nodeAt (element?_node houter) (by omega) (.inl (by omega))
    exact Nat.lt_irrefl _ (Nat.lt_of_lt_of_le hlt' (le_of_mem_chain hfound))

end cursor

section rescan
variable (huri : isDtdUri uri = false) (hle : offset ≤ (parse text uri).size)
variable (he : (parse text uri).element? ((parse text uri).nodeAt offset) = some e) (htag : e.tag.isSome = true)
include huri hle he htag

theorem filter_endTag (hp : e.endOpen = some p) :
    (Lexer.spanReaching? text .endTagName p offset).filter (·.touches offset) =
      e.endTagSpan.filter (·.touches offset) := by
  obtain ⟨sp, hsp⟩ := Option.isSome_iff_exists.mp ((Builder.spans_isSome huri he htag).2 (by rw [hp]; rfl))
  obtain ⟨l, z, m, y, hread, hkind, rfl, hz⟩ := exists_endTag huri he hsp
  obtain rfl := Option.some.inj (hp.symm.trans hz)
  have hbracket : (z.step text).1.kind = .endTagOpen := hread.endTagOpen hkind
  have hc := hread.before.consistent Lexer.consistent_document (Text.isBoundary_zero text)
  have hmode := (Lexer.mode_of_tagOpen hc hread.boundary hread.lt).2 hbracket
  refine Lexer.filter_spanReaching? hread.boundary hc (by simp [hbracket, Lexer.contentStarts]) hmode.2
    (by rintro ⟨⟩) (fun sp' hsp' _ => ⟨_, hread.mem_tokens, hkind, ?_⟩) fun q hq hname htouch => ?_
  · exact Option.some.inj (hsp.symm.trans hsp')
  · obtain ⟨l', z', m', y', hread', rfl, hle'⟩ := exists_readsTag_of_mem hread.before hread.lt (.inr hbracket) hq
      (.inr hname)
    exact endTagSpan_at_cursor huri hle he hread' htouch htag hp hname hle'

theorem filter_startTag (hstart : e.startOpen.isSome = true) (hbefore : ∀ p, e.endOpen = some p → offset < p) :
    (Lexer.spanReaching? text .startTagName ((parse text uri).span ((parse text uri).nodeAt offset)).start
      offset).filter (·.touches offset) = e.tagSpan.filter (·.touches offset) := by
  obtain ⟨sp, hsp⟩ := Option.isSome_iff_exists.mp ((Builder.spans_isSome huri he htag).1 hstart)
  obtain ⟨l, z, m, y, hread, hkind, rfl, hz, hstarts, -⟩ := exists_startTag huri he hsp
  have hbracket : (z.step text).1.kind = .startTagOpen := hread.startTagOpen hkind
  have hc := hread.before.consistent Lexer.consistent_document (Text.isBoundary_zero text)
  have hmode := (Lexer.mode_of_tagOpen hc hread.boundary hread.lt).1 hbracket
  rw [hstarts]
  refine Lexer.filter_spanReaching? hread.boundary hc (by simp [hbracket, Lexer.contentStarts]) hmode.2
    (by rintro ⟨⟩) (fun sp' hsp' _ => ⟨_, hread.mem_tokens, hkind, ?_⟩) fun q hq hname htouch => ?_
  · exact Option.some.inj (hsp.symm.trans hsp')
  · obtain ⟨l', z', m', y', hread', rfl, hle'⟩ := exists_readsTag_of_mem hread.before hread.lt (.inl hbracket) hq
      (.inl hname)
    exact tagSpan_at_cursor huri hle he hread' htouch hz hstarts hbefore hname hle'

end rescan

theorem filter_map_touches (o : Option Span) (inStart : Bool) :
    (o.map (·, inStart)).filter (fun found => found.1.touches offset) =
      (o.filter (·.touches offset)).map (·, inStart) := by
  cases o with
  | none => rfl
  | some sp =>
    rw [Option.map_some, Option.filter_some, Option.filter_some]
    show (if sp.touches offset = true then _ else _) = _
    split <;> rfl

section agrees
variable (huri : isDtdUri uri = false) (hle : offset ≤ (parse text uri).size)
variable (he : (parse text uri).element? ((parse text uri).nodeAt offset) = some e) (htag : e.tag.isSome = true)
include huri hle he htag

/-- In front of its end tag the cursor is in an element with a start tag: an end tag alone is all there is of its
element. -/
theorem startOpen_of_before (hbefore : ∀ p, e.endOpen = some p → offset < p) : e.startOpen.isSome = true := by
  cases hstart : e.startOpen with
  | some i => rfl
  | none =>
    have hend := (Builder.startOpen_or_endOpen huri he htag).resolve_left (by simp [hstart])
    obtain ⟨sp, hsp⟩ := Option.isSome_iff_exists.mp ((Builder.spans_isSome huri he htag).2 hend)
    obtain ⟨l, z, m, y, hread, hkind, rfl, hz⟩ := exists_endTag huri he hsp
    have hfirst := hread.start_of_alone huri hkind he hsp hstart
    have hnode := ((complete_parse text uri).span_nodeAt hle).1
    have hbefore := hbefore _ hz
    omega

omit hle htag in
theorem endTag_of_before (hbefore : ∀ p, e.endOpen = some p → offset < p) :
    e.endTagSpan.filter (·.touches offset) = none := by
  rw [Option.filter_eq_none_iff]
  intro sp hsp htouch
  obtain ⟨l, z, m, y, hread, hkind, rfl, hz⟩ := exists_endTag huri he hsp
  have hoffset := start_lt_offset hread htouch
  have hbefore := hbefore _ hz
  omega

omit hle in
theorem tag_of_behind (hboth : ¬ (e.hasStartTag = true ∧ e.hasEndTag = true ∧ e.startClose = none))
    (hp : e.endOpen = some p) (hbehind : p ≤ offset) : e.tagSpan.filter (·.touches offset) = none := by
  rw [Option.filter_eq_none_iff]
  intro sp hsp htouch
  have hclose : e.startClose.isSome = true := by
    refine Option.isSome_iff_ne_none.mpr fun hnone => hboth ⟨?_, ?_, hnone⟩
    · obtain ⟨_, _, _, _, -, -, -, hstart, -⟩ := exists_startTag huri he hsp
      rw [Element.hasStartTag, hstart]
      rfl
    · rw [Element.hasEndTag, hp]
      rfl
  have hlt := stop_lt_endOpen huri he htag hsp hclose hp
  have hstop := (Lexer.touches_iff.mp htouch).2
  omega

theorem rescannedTag?_eq (hboth : ¬ (e.hasStartTag = true ∧ e.hasEndTag = true ∧ e.startClose = none)) :
    rescannedTag? (parse text uri) ((parse text uri).nodeAt offset) e offset =
      ((parse text uri).tagNameAt? offset).map (fun t => (t.span, t.inStartTag)) := by
  rw [rescannedTag?, tagNameAt?_eq he]
  cases hend : e.endOpen.filter (· ≤ offset) with
  | some p =>
    obtain ⟨hp, hle'⟩ := Option.filter_eq_some_iff.mp hend
    show ((Lexer.spanReaching? text .endTagName p offset).map (·, false)).filter
      (fun found => found.1.touches offset) = _
    rw [filter_map_touches, filter_endTag huri hle he htag hp,
      tag_of_behind huri he htag hboth hp (of_decide_eq_true hle')]
    cases e.endTagSpan.filter (·.touches offset) <;> rfl
  | none =>
    have hbefore (p : Nat) (hp : e.endOpen = some p) : offset < p :=
      Nat.lt_of_not_le fun hle => Option.filter_eq_none_iff.mp hend p hp (decide_eq_true hle)
    show ((Lexer.spanReaching? text .startTagName _ offset).map (·, true)).filter
      (fun found => found.1.touches offset) = _
    rw [filter_map_touches, filter_startTag huri hle he htag (startOpen_of_before huri hle he htag hbefore) hbefore,
      endTag_of_before huri he hbefore]
    cases e.tagSpan.filter (·.touches offset) <;> rfl

end agrees

/-- **What is read again is what the tree says**: where the cursor is on no attribute, and in an element with a
name that does not have an end tag behind a start tag without `>`, the name under the cursor and its tag are
those of the tree, and there is none just where there is none in the tree. -/
theorem rescan_agrees {position : Position} (settings : Settings) (huri : isDtdUri uri = false)
    (hoffset : (parse text uri).offsetAt position = .ok offset)
    (hattr : (parse text uri).attributeAt? offset = none)
    (he : (parse text uri).element? ((parse text uri).nodeAt offset) = some e) (htag : e.tag.isSome = true)
    (hboth : ¬ (e.hasStartTag = true ∧ e.hasEndTag = true ∧ e.startClose = none)) :
    rescannedTag? (parse text uri) ((parse text uri).nodeAt offset) e offset =
        ((parse text uri).tagNameAt? offset).map (fun t => (t.span, t.inStartTag)) ∧
      ∃ r, XmlAssist.Request.ofPosition (parse text uri) position = .ok r ∧ r.offset = offset ∧
        target? settings r = ((parse text uri).tagNameAt? offset).map fun t =>
          (.tag, { r with range := ((parse text uri).rangeOf t.span).toOption, isOpen := t.inStartTag, settings }) := by
  have hle : offset ≤ (parse text uri).size := by
    obtain ⟨_, _, -, -, -, hboundary, -⟩ := LineIndex.offsetAt_eq_ok_iff.mp hoffset
    exact Text.le_size_of_isBoundary hboundary
  have hrescan := rescannedTag?_eq huri hle he htag hboth
  refine ⟨hrescan, { document := parse text uri, position, offset, node := (parse text uri).nodeAt offset }, ?_, rfl,
    ?_⟩
  · rw [XmlAssist.Request.ofPosition, hoffset]
    show Except.ok _ = _
    rw [hattr]
  · obtain ⟨n, hn, hne⟩ := exists_node_of_element? he
    have hnone : ((parse text uri).node ((parse text uri).nodeAt offset)).attribute? = none := by
      rw [node_eq hn, Node.attribute?, kind_of_element? hne]
    have hnamed : e.tag.isNone = false := by
      rw [← Option.not_isSome, htag]
      rfl
    simp only [target?, XmlAssist.Request.attribute?, XmlAssist.Request.element?, hnone, he, hnamed, hrescan,
      Option.map_map]
    rfl

/-- Behind the name of an end tag that closes an element around an unclosed one. -/
theorem rescan_agrees_end_tag : ∃ e, (parse "<a><b></a>" "file:///a.xml").element? 1 = some e ∧
    rescannedTag? (parse "<a><b></a>" "file:///a.xml") 1 e 9 = some (⟨8, 9⟩, false) := by
  have hnode : (parse "<a><b></a>" "file:///a.xml").nodeAt 9 = 1 := by decide +kernel
  have htag : (parse "<a><b></a>" "file:///a.xml").tagNameAt? 9 = some ⟨1, ⟨8, 9⟩, false⟩ := by decide +kernel
  have helement : ((parse "<a><b></a>" "file:///a.xml").element? 1).map (fun e => (e.tag, e.startClose)) =
      some (some "a", some 2) := by decide +kernel
  obtain ⟨e, he, hpair⟩ := Option.map_eq_some_iff.mp helement
  obtain ⟨hname, hclose⟩ := Prod.mk.inj hpair
  have hoffset : (parse "<a><b></a>" "file:///a.xml").offsetAt ⟨0, 9⟩ = .ok 9 := by decide +kernel
  have h := (rescan_agrees {} (by decide +kernel) hoffset (by decide +kernel)
    (hnode ▸ he) (by rw [hname]; rfl) (by rw [hclose]; exact fun h => nomatch h.2.2)).1
  rw [hnode, htag] at h
  exact ⟨e, he, h⟩

end XmlAssist.Hover
