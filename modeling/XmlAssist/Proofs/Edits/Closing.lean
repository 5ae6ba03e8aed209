import XmlAssist.Proofs.Completion.Counterpart
import XmlAssist.Proofs.Diagnostics.Count
import XmlAssist.Proofs.Edits.Appended
import XmlAssist.Proofs.Edits.Repair
import XmlAssist.Proofs.Tree.Unended

/-!
# Fixes of unclosed elements

An end tag that is put where an element is left without one closes that element, or one of the same name inside it, and
`/>` in the place of the `>` closes just that element. What stands in front of the change is read as before, and so is
what follows it; only the open tags differ. If the end tag of an element around it follows, it ends all of them with or
without the change (`Tally.reads_inner`), and an element that is never closed makes no difference to the others
(`Without.behind`). So each fix leaves one start tag less without an end (`fix_closes`).
-/

namespace XmlAssist

open Node
open Text (SameTo byte? size isBoundary bytesOf rest)
open Lexer (Leads cursor)

variable {s s' u v uri tag : String} {x y z w : Lexer} {l m r : List (Token × Lexer)} {n : Tally}
variable {id i i' p : Nat} {e : Element}

namespace Lexer

theorem yields_of_section? (h : x.mode.section? = none) : x.mode.yields = true := by
  cases hm : x.mode <;> simp_all [Mode.section?, Mode.yields]

section endTag
variable (hl : Leads s .document l x) (hlt : x.pos < size s) (hkind : (x.step s).1.kind = .endTagOpen)
include hl hlt hkind

theorem Leads.opensMarkup_endTagOpen : (lex s x).kind.opensMarkup = true := by
  rw [step_eq_lex (hl.boundary (Text.isBoundary_zero s)) hlt] at hkind
  rw [show (lex s x).kind = _ from hkind]
  rfl

theorem Leads.byte?_endTagOpen : byte? s x.pos = some 0x3C :=
  byte?_of_opensMarkup (hl.opensMarkup_endTagOpen hlt hkind)

theorem Leads.tokens_endTagOpen :
    x.mode.yields = true ∧ x.tokens s = (cursor .content x.pos x.back.spaced).tokens s := by
  have hzero := Text.isBoundary_zero s
  have hb := hl.boundary hzero
  have hc := hl.consistent consistent_document hzero
  have hbracket := hl.byte?_endTagOpen hlt hkind
  have hyields := yields_of_opensMarkup (hl.opensMarkup_endTagOpen hlt hkind)
  rw [step_eq_lex hb hlt] at hkind
  have hslash := slash_of_endTagOpen hc hkind
  have hlex := lex_endTagOpen_of_yields hc (hl.dtdFile_eq hzero consistent_document) hyields hbracket hslash
  have hlex' := lex_endTagOpen_of_yields (x := cursor .content x.pos x.back.spaced)
    ⟨by rintro ⟨⟩, by rintro ⟨⟩, rfl, rfl⟩ rfl rfl hbracket hslash
  have htokens := (Leads.of_lex hlex (by decide) (Nat.lt_add_of_pos_right (by decide))).tokens_eq hb
  have htokens' := (Leads.of_lex hlex' (by decide) (Nat.lt_add_of_pos_right (by decide))).tokens_eq hb
  exact ⟨hyields, htokens.trans htokens'.symm⟩

end endTag

end Lexer

namespace Tally

/-- What is counted in a text. -/
def ofText (s : String) : Tally := ({} : Tally).reads s (Lexer.document.tokens s)

/-- One start tag less lacks its end, and as many end tags stand alone. -/
def OneLess (n' n : Tally) : Prop := n'.unclosed = n.unclosed - 1 ∧ n'.unmatched = n.unmatched

theorem less_oneLess (n : Tally) : n.less.OneLess n := ⟨rfl, rfl⟩

theorem after_endTag_oneLess (h : some tag ∈ n.tags) : (n.after .endTagName tag).OneLess n := by
  obtain ⟨inner, outer, htags, hinner⟩ := exists_first h
  rw [after_endTag htags hinner]
  exact ⟨rfl, rfl⟩

theorem reads_behind (n : Tally) (spaced : Bool) (hi : isBoundary s i = true) (hi' : isBoundary s' i' = true)
    (hrest : rest s i = rest s' i') (htwo : 2 ≤ i) (htwo' : 2 ≤ i') :
    n.reads s' ((cursor .content i' spaced).tokens s') = n.reads s ((cursor .content i spaced).tokens s) := by
  obtain ⟨y, hy, hend⟩ := Leads.exists_end s (cursor .content i spaced) hi
  obtain ⟨l', y', hy', hend', hsame, -⟩ := hy.behind_change hi rfl hend hrest (.inr ⟨htwo, htwo'⟩)
    (Text.le_size_of_isBoundary hi') (by rintro ⟨⟩)
  have htokens : (cursor .content i' spaced).tokens s' = l' ++ y'.tokens s' := hy'.tokens_eq hi'
  rw [htokens, Lexer.tokens_at_end (Nat.le_of_eq hend'.symm), List.append_nil]
  exact reads_same hsame

theorem ofText_endTag (hl : Leads s .document l x) (hl' : Leads s' .document l x) (hsame : SameTo s s' x.pos)
    (hyields : x.mode.yields = true) (hstands : Text.Stands s' x.pos ("</" ++ (tag ++ ">")))
    (hname : Written.isName tag) : isBoundary s' (x.pos + size ("</" ++ (tag ++ ">"))) = true ∧
      ofText s' = ((({} : Tally).reads s l).after .endTagName tag).reads s'
        ((cursor .content (x.pos + size ("</" ++ (tag ++ ">"))) x.back.spaced).tokens s') := by
  have hzero := Text.isBoundary_zero s
  have hzero' := Text.isBoundary_zero s'
  have hstop := hstands.isBoundary_stop
  refine ⟨hstop, ?_⟩
  have htag := Lexer.leads_endTag (hl.consistent Lexer.consistent_document hzero)
    (hl.dtdFile_eq hzero Lexer.consistent_document) hyields hstands hname
  have hbefore := reads_same (n := {}) (hl.sameTokens_upTo hl' hsame hzero hzero' (Nat.le_refl _))
  rw [ofText, (hl'.append htag).tokens_eq hzero', reads_append, reads_append, hbefore, Text.size_append,
    Text.size_append, ← Nat.add_assoc, ← Nat.add_assoc]
  congr 1
  show (({} : Tally).reads s l).after .endTagName (Text.slice s' _ _) = _
  rw [hstands.right.left.slice]

end Tally

namespace LeftAt

variable (hl : Leads s .document l x) (h : LeftAt s l x tag)
  (hend : x.pos < size s ∨ (Builder.behind s l (Builder.start s false)).IsTerminated)
include hl h hend

/-- What stands in front of the place is read in every text that goes on with a bracket there. -/
theorem upTo (hsame : SameTo s s' x.pos) (hb' : byte? s' x.pos = some 0x3C) :
    Leads s' .document l x ∧ x.mode.yields = true := by
  cases h with
  | atEnd hstop =>
    have hterminated := hend.resolve_left (by rw [hstop]; exact Nat.lt_irrefl _)
    exact ⟨Builder.upToEnd hl hterminated (hstop ▸ hsame) (hstop ▸ hb'),
      Lexer.yields_of_section? (Builder.outside_of_terminated hl hterminated).1⟩
  | cut reads name =>
    have hbracket := hl.byte?_endTagOpen reads.lt (reads.endTagOpen name)
    exact ⟨hl.upTo hsame hbracket hb', (hl.tokens_endTagOpen reads.lt (reads.endTagOpen name)).1⟩

/-- **An end tag where an element is left** without one: one start tag less lacks its end. -/
theorem closes (hs : s = u ++ v) (hx : x.pos = size u) (hname : Written.isName tag) (htwo : 2 ≤ size u) :
    (Tally.ofText (u ++ ("</" ++ (tag ++ ">") ++ v))).OneLess (Tally.ofText s) := by
  have hsame : SameTo s (u ++ ("</" ++ (tag ++ ">") ++ v)) x.pos := by
    rw [hs, hx]
    exact Text.sameTo_append u v _
  have hstands := Text.stands_append u ("</" ++ (tag ++ ">")) v
  have hrest' := Lexer.rest_append_append u ("</" ++ (tag ++ ">")) v
  have hrest : rest s x.pos = bytesOf v := by rw [hs, hx, Lexer.rest_append]
  rw [← hx] at hstands hrest' htwo
  generalize u ++ ("</" ++ (tag ++ ">") ++ v) = s' at *
  have hzero := Text.isBoundary_zero s
  obtain ⟨_, hr⟩ := hstands.left.rest
  obtain ⟨hl', hyields⟩ := h.upTo hl hend hsame (Text.byte?_of_rest hr)
  obtain ⟨hb', hcount⟩ := Tally.ofText_endTag hl hl' hsame hyields hstands hname
  have hb := hl.boundary hzero
  rw [hcount, Tally.ofText, hl.tokens_eq hzero, Tally.reads_append]
  cases h with
  | atEnd hstop hisOpen =>
    -- nothing follows
    have hnil : bytesOf v = [] := by rw [← hrest, rest, hstop, ← Text.length_bytesOf, List.drop_length]
    have hle : size s' ≤ x.pos + size ("</" ++ (tag ++ ">")) := by
      rwa [hnil, rest, List.drop_eq_nil_iff, Text.length_bytesOf] at hrest'
    rw [Lexer.tokens_at_end (x := cursor .content _ _) hle, Lexer.tokens_at_end (Nat.le_of_eq hstop.symm)]
    exact Tally.after_endTag_oneLess hisOpen
  | @cut m y inner outer reads name tags others isOpen =>
    -- the end tag that follows ends something around the element
    have hspaces : Leads s x (x.step s :: m) y := .next reads.lt reads.spaces
    rw [Tally.reads_behind _ _ hb hb' (hrest.trans hrest'.symm) htwo (Nat.le_add_right_of_le htwo),
      ← (hl.tokens_endTagOpen reads.lt (reads.endTagOpen name)).2, hspaces.tokens_eq hb,
      (Leads.one reads.inside).tokens_eq (reads.leads.boundary hzero), List.singleton_append,
      Tally.reads_inner (reads.not_pairs name) name tags others isOpen]
    exact Tally.less_oneLess _

end LeftAt

namespace ReadsStartTag

variable (h : ReadsStartTag s l z m y r w)
include h

theorem leads_tag : Leads s y (y.step s :: r) w := .next h.inside h.tokens

theorem exists_split : ∃ u v, s = u ++ (">" ++ v) ∧ w.pos = size u := by
  have hzero := Text.isBoundary_zero s
  have hb := h.before_close.boundary hzero
  have hb' := h.behind_close.boundary hzero
  obtain ⟨hbyte, hstep⟩ := h.step_close
  rw [hstep] at hb'
  obtain ⟨u, g, v, rfl, hu, hg⟩ := Text.exists_split hb hb' (Nat.le_succ _)
  refine ⟨u, v, ?_, hu⟩
  rw [hu, Text.byte?_eq_head?, Lexer.rest_append, Text.bytesOf_append] at hbyte
  have hlength : (bytesOf g).length = 1 := by
    rw [Text.length_bytesOf]
    have hg : w.pos + 1 = size u + size g := hg
    omega
  obtain ⟨b, hbytes⟩ := List.length_eq_one_iff.mp hlength
  rw [hbytes] at hbyte
  obtain rfl := Option.some.inj hbyte
  rw [Text.eq_of_bytesOf_eq (hbytes.trans (by decide : [0x3E] = bytesOf ">"))]

theorem stop_ne_slash {q : Token × Lexer} (hq : q ∈ y.step s :: r) (hslash : byte? s q.2.pos = some 0x2F) :
    q.2.pos + 1 ≠ w.pos := by
  intro hpos
  have hzero := Text.isBoundary_zero s
  obtain ⟨l₁, l₂, hsplit⟩ := List.append_of_mem hq
  have htag := h.leads_tag
  rw [hsplit] at htag
  obtain ⟨a, ha, hrest⟩ := htag.of_append
  cases hrest with
  | next hlt hrest =>
    have hyb := h.leads.boundary hzero
    have hyc := h.leads.consistent Lexer.consistent_document hzero
    have hb := Leads.boundary_step (ha.boundary hyb) hlt
    have hlex := Lexer.lex_selfCloseInTag ((ha.consistent hyc hyb).step (ha.boundary hyb) hlt) (h.stays _ hq) hslash
      (hpos ▸ h.step_close.1)
    cases hrest with
    | here => exact absurd hpos (Nat.succ_ne_self _)
    | next hlt' hrest' =>
      have hle := hrest'.pos_le (Leads.boundary_step hb hlt')
      rw [Lexer.step_eq_lex hb hlt', hlex] at hle
      have : (a.step s).2.pos + 2 ≤ w.pos := hle
      omega

/-- A start tag without faults is read up to its `>` in every text that is the same up to there and goes on with
`/>`. -/
theorem upTo_slash (hfaults : ∀ q ∈ y.step s :: r, q.1.fault = none) (hsame : SameTo s s' w.pos)
    (hslash : byte? s' w.pos = some 0x2F) (hclose : byte? s' (w.pos + 1) = some 0x3E) :
    Leads s' .document (l ++ z.step s :: m ++ y.step s :: r) w := by
  have hzero := Text.isBoundary_zero s
  have hyb := h.leads.boundary hzero
  have hyc := h.leads.consistent Lexer.consistent_document hzero
  have hnext := Leads.boundary_step hyb h.inside
  have hyw := Nat.lt_of_lt_of_le (Leads.pos_lt_step hyb h.inside) (h.tokens.pos_le hnext)
  have hmode := (Lexer.mode_of_name hyc hyb h.inside).1 h.name
  refine (h.toReadsTag.upTo_name h.name hsame hyw).append (h.leads_tag.sameTo hsame hyb hyc
    (by rw [Lexer.inStartTag, hmode]) (fun q hq => h.stays q (List.mem_of_mem_dropLast hq))
    fun q hq => ⟨?_, ?_, ?_, ?_⟩)
  · obtain ⟨-, -, hle, hstop⟩ := h.leads_tag.bounds hyb hq
    refine (Nat.lt_or_eq_of_le (hstop ▸ hle)).imp_right fun heq => ?_
    exact ⟨heq, hfaults q hq, ⟨_, hslash, by decide, by decide⟩, fun _ => ⟨h.step_close.1, hslash, hclose⟩⟩
  · intro hlt hb
    exact Nat.lt_of_le_of_ne hlt (h.stop_ne_slash hq hb)
  · rw [hfaults q hq]
    rintro ⟨⟩
  · rcases List.mem_cons.mp hq with rfl | hq
    · show (y.step s).1.kind.inStartTag = true
      rw [h.name]
      rfl
    · exact h.tag_kinds q hq

end ReadsStartTag

namespace Builder

variable {b : Builder}

theorem opened_of_current (he : b.core b.current = some e) (hopen : e.closed = false) :
    ∃ outer, b.opened = (b.current, e) :: outer := by
  obtain ⟨outer, hchain, -⟩ := exists_chain_eq_cons b.nodes b.current
  exact ⟨_, by rw [opened, hchain, openAmong_cons he hopen]⟩

theorem Without.of_current {outer : List (Nat × Element)} (h : b.opened = (id, e) :: outer)
    (hnamed : e.tag.isSome = true) (written : String) : Without id b (b.tally.after .startTagSelfClose written) :=
  .inr ⟨[], outer, e, h, hnamed, by simp [Tally.after, tally, h, hnamed]⟩

theorem ended_of_closed (huri : Document.isDtdUri uri = false) (he : (Document.parse s uri).element? id = some e)
    (hstart : e.startOpen.isSome = true) (hclosed : e.closed = true) :
    e.selfClosed = true ∨ e.endOpen.isSome = true := by
  refine forall_element huri (Q := fun e => e.startOpen.isSome = true → e.closed = true →
    e.selfClosed = true ∨ e.endOpen.isSome = true) (fun x b t b' _ hacts hq => ?_) (fun e _ hnone hsome _ => ?_) he
    hstart hclosed
  · refine hacts.forall_core hq (fun e _ hnone hsome _ => ?_) (by rintro - ⟨⟩) (fun _ _ _ he => he)
      (fun _ _ _ _ _ _ => .inl rfl) (fun _ _ _ _ _ _ _ => .inr rfl) fun _ _ _ => .inr rfl
    rw [hnone] at hsome
    cases hsome
  · rw [hnone] at hsome
    cases hsome

end Builder

namespace ReadsStartTag

open Builder

variable (h : ReadsStartTag s l z m y r w) (hs : s = u ++ (">" ++ v)) (hw : w.pos = size u)
  (hfaults : ∀ q ∈ y.step s :: r, q.1.fault = none)
include h hs hw hfaults

theorem ofText_slash : ∃ written, Tally.ofText (u ++ ("/>" ++ v)) =
    ((({} : Tally).reads s (l ++ z.step s :: m ++ y.step s :: r)).after .startTagSelfClose written).reads s
      ((w.step s).2.tokens s) := by
  have hsame : SameTo s (u ++ ("/>" ++ v)) w.pos := by
    rw [hs, hw]
    exact Text.sameTo_append u _ _
  have hstands := Text.stands_append u "/>" v
  have hrest' := Lexer.rest_append_append u "/>" v
  have hrest : rest s (w.pos + size ">") = bytesOf v := by rw [hs, hw, Lexer.rest_append_append]
  rw [← hw] at hstands hrest'
  generalize u ++ ("/>" ++ v) = s' at *
  have hzero := Text.isBoundary_zero s
  have hzero' := Text.isBoundary_zero s'
  obtain ⟨_, hr⟩ := hstands.rest
  rw [show bytesOf "/>" = [0x2F, 0x3E] by decide] at hr
  have hslash := Text.byte?_of_rest hr
  have hclose := Text.byte?_of_rest (Text.rest_succ hr)
  -- the start tag is read as before, up to its end
  have hl := h.before_close
  have hl' := h.upTo_slash hfaults hsame hslash hclose
  have hbefore := Tally.reads_same (n := {}) (hl.sameTokens_upTo hl' hsame hzero hzero' (Nat.le_refl _))
  have hend := Leads.of_lex
    (Lexer.lex_selfCloseInTag (hl.consistent Lexer.consistent_document hzero) h.in_tag hslash hclose) (by decide)
    (Nat.lt_add_of_pos_right (by decide))
  -- and so is what follows
  have hpos : 0 < w.pos := hl.pos_pos fun hm => by
    have hin := h.in_tag
    rw [Lexer.inStartTag, hm] at hin
    cases hin
  have hb := h.behind_close.boundary hzero
  rw [h.step_close.2] at hb ⊢
  refine ⟨Text.slice s' w.pos (w.pos + 2), ?_⟩
  rw [Tally.ofText, (hl'.append hend).tokens_eq hzero', Tally.reads_append, Tally.reads_append, hbefore]
  exact Tally.reads_behind _ _ hb (hend.boundary (hl'.boundary hzero')) (hrest.trans hrest'.symm)
    (Nat.succ_le_succ hpos) (Nat.le_add_left ..)

/-- **A `/>` in the place of the `>`** of an element without an end: one start tag less lacks its end. -/
theorem selfCloses (huri : Document.isDtdUri uri = false)
    (hcurrent : (behind s (l ++ z.step s :: m ++ y.step s :: r) (start s false)).current = id)
    (he : (Document.parse s uri).element? id = some e) (hopen : e.closed = false) :
    (Tally.ofText (u ++ ("/>" ++ v))).OneLess (Tally.ofText s) := by
  have hall := h.behind_close
  obtain ⟨written, hcount⟩ := h.ofText_slash hs hw hfaults
  have htally := tally_behind hall
  rw [Tally.reads_append, Tally.reads_of_not_pairs (List.forall_mem_singleton.mpr (by rw [h.close]; rfl))] at htally
  -- behind the tag the element is open, so that it is left out in the other text
  obtain ⟨e₁, he₁, htag₁⟩ := h.current_named
  have hid := h.keeps_close.current.trans hcurrent
  obtain ⟨outer, hopened⟩ := opened_of_current he₁ (not_closed_of_element? huri hall he hopen (hid ▸ he₁))
  obtain ⟨y₂, hrest, -⟩ := Leads.exists_end s (w.step s).2 (hall.boundary (Text.isBoundary_zero s))
  have hwithout := Without.of_current (hid ▸ hopened) (by rw [htag₁]; rfl) written
  have hcounts := (hwithout.behind ((follows_start s false).behind hall) hrest fun e₂ he₂ =>
    not_closed_of_element? huri (hall.append hrest) he hopen (by rwa [behind_append])).counts
  rw [← behind_append, tally_behind (hall.append hrest), htally,
    ← hall.tokens_eq (Text.isBoundary_zero s)] at hcounts
  rw [hcount]
  exact hcounts

end ReadsStartTag

namespace Document

open Builder

variable {text : String} {sp : Span}

theorem two_le_stop (huri : isDtdUri uri = false) (he : (parse text uri).element? id = some e)
    (hsp : e.tagSpan = some sp) : 2 ≤ ((parse text uri).span id).stop := by
  obtain ⟨l, z, m, y, hread, -, rfl, -, -, hstop, -⟩ := exists_startTag huri he hsp
  have hname : y.pos < (y.step text).1.span.stop := by
    have hlt := hread.start_lt_stop
    rwa [show (y.step text).1.span.start = y.pos from
      Leads.start_step (hread.leads.boundary (Text.isBoundary_zero text)) hread.inside] at hlt
  have hbracket := hread.lt_name
  omega

/-- **An end tag at the end of an unclosed element** gives that element, or one of its name inside it, its end. -/
theorem oneLess_endTag (huri : isDtdUri uri = false) (he : (parse (u ++ v) uri).element? id = some e)
    (htag : e.tag = some tag) (hstart : e.startOpen.isSome = true) (hopen : e.closed = false)
    (hstop : ((parse (u ++ v) uri).span id).stop = Text.size u)
    (hend : Text.size u < Text.size (u ++ v) ∨ (parse (u ++ v) uri).IsTerminated) :
    (Tally.ofText (u ++ ("</" ++ (tag ++ ">") ++ v))).OneLess (Tally.ofText (u ++ v)) := by
  obtain ⟨sp, hsp⟩ := Option.isSome_iff_exists.mp ((spans_isSome huri he (by rw [htag]; rfl)).1 hstart)
  obtain ⟨l, x, hl, hx, hleft⟩ := exists_left huri he htag hstart hopen
  rw [hstop] at hx
  refine hleft.closes hl ?_ rfl hx (isName_tag huri he hstart htag) (hstop ▸ two_le_stop huri he hsp)
  rcases Nat.lt_or_ge x.pos (Text.size (u ++ v)) with hlt | hge
  · exact .inl hlt
  · refine .inr (isTerminated_behind huri (hend.resolve_left (by omega)) hl ?_)
    exact Nat.le_antisymm (Text.le_size_of_isBoundary (hl.boundary (Text.isBoundary_zero _))) hge

def Faultless (d : Document) (e : Element) : Prop :=
  ∀ t ∈ d.tokens, ∀ i ∈ e.startOpen, ∀ j ∈ e.startClose, i ≤ t.start → t.start ≤ j → t.fault = none

/-- **A `/>` in the place of the `>`** of an unclosed element gives that element its end, if its start tag is read
as before. -/
theorem oneLess_slash (huri : isDtdUri uri = false) (he : (parse text uri).element? id = some e)
    (htag : e.tag.isSome = true) (hstart : e.startOpen.isSome = true) (hclose : e.startClose = some p)
    (hopen : e.closed = false) (hself : e.selfClosed = false) :
    ∃ u v, text = u ++ (">" ++ v) ∧ p = Text.size u ∧
      ((parse text uri).Faultless e → (Tally.ofText (u ++ ("/>" ++ v))).OneLess (Tally.ofText text)) := by
  have hzero := Text.isBoundary_zero text
  obtain ⟨sp, hsp⟩ := Option.isSome_iff_exists.mp ((spans_isSome huri he htag).1 hstart)
  obtain ⟨l, z, m, y, r, w, hread, rfl, hz, hcurrent, -⟩ := exists_startTagClose huri he hsp hclose hself
  have hfaults (hfaultless : (parse text uri).Faultless e) : ∀ q ∈ y.step text :: r, q.1.fault = none := by
    intro q hq
    obtain ⟨hle, hlt, hle', -⟩ := hread.leads_tag.bounds (hread.leads.boundary hzero) hq
    have hbracket := hread.lt_name
    refine hfaultless q.1 ?_ z.pos hz w.pos hclose (by omega) (by omega)
    rw [tokens_parse, huri]
    refine List.mem_map_of_mem ?_
    show q ∈ Lexer.document.tokens text
    rw [hread.before_close.tokens_eq hzero]
    exact List.mem_append_left _ (List.mem_append_right _ hq)
  obtain ⟨u, v, rfl, hu⟩ := hread.exists_split
  exact ⟨u, v, rfl, hu, fun hfaultless => hread.selfCloses rfl hu (hfaults hfaultless) huri hcurrent he hopen⟩

end Document

namespace Diagnostics

open Document

variable {d : Document} {problem : Diagnostic} {settings : Settings}

/-- The problem is that the element `id`, which is `e`, has no end tag. -/
structure UnclosedAt (d : Document) (problem : Diagnostic) (id : Nat) (e : Element) : Prop where
  element : d.element? id = some e
  mem : problem ∈ ofElement d id e
  code : problem.code = some unclosedCode

theorem UnclosedAt.unended (h : UnclosedAt d problem id e) : ∃ tag, e.tag = some tag ∧ e.startOpen.isSome = true ∧
    e.selfClosed = false ∧ e.endOpen = none ∧ d.rangeOf (d.startTagSpan id e) = .ok problem.range := by
  have hmem := h.mem
  have hcode := h.code
  unfold ofElement at hmem
  split at hmem
  · cases hmem
  · rename_i tag htag
    split at hmem
    · rename_i hstart
      rcases List.mem_append.mp hmem with hmem | hmem
      · split at hmem
        · rename_i hun
          simp only [Bool.and_eq_true, Bool.not_eq_true', Element.hasEndTag, Option.isSome_eq_false_iff,
            Option.isNone_iff_eq_none] at hun
          exact ⟨tag, htag, hstart, hun.1, hun.2, (mem_errorAt hmem).1⟩
        · cases hmem
      · exact absurd (.inl hcode) (not_isAboutTag_of_mem_ofAttributes hmem)
    · split at hmem
      · rw [code_of_mem_errorAt hmem] at hcode
        simp [unclosedCode, unmatchedCode] at hcode
      · cases hmem

theorem exists_unclosedAt (h : problem ∈ ofSyntax d settings) (hcode : problem.code = some unclosedCode) :
    ∃ id e, UnclosedAt d problem id e := by
  obtain ⟨id, e, he, hmem⟩ := exists_element_of_isAboutTag h (.inl hcode)
  exact ⟨id, e, he, hmem, hcode⟩

/-- Where the action is done, one start tag less is reported for its end, and as many end tags for their start. -/
def Closes (d : Document) (settings : Settings) (action : CodeAction) : Prop :=
  action.edit.uri = d.uri ∧ ∃ text', d.edited action.edit.edits = .ok text' ∧
    countOf unclosedCode (ofSyntax (parse text' d.uri) settings) + 1 = countOf unclosedCode (ofSyntax d settings) ∧
    countOf unmatchedCode (ofSyntax (parse text' d.uri) settings) = countOf unmatchedCode (ofSyntax d settings)

theorem countOf_oneLess {text text' : String} (huri : isDtdUri uri = false)
    (h : (Tally.ofText text').OneLess (Tally.ofText text)) (settings : Settings) :
    countOf unclosedCode (ofSyntax (parse text' uri) settings) + 1 =
        countOf unclosedCode (ofSyntax (parse text uri) settings) ∧
      countOf unmatchedCode (ofSyntax (parse text' uri) settings) =
        countOf unmatchedCode (ofSyntax (parse text uri) settings) := by
  obtain ⟨hclosed, hmatched⟩ := h
  obtain ⟨hold, hold'⟩ := @countOf_parse text uri huri settings
  obtain ⟨hnew, hnew'⟩ := @countOf_parse text' uri huri settings
  simp only [Tally.ofText] at hclosed hmatched
  omega

end Diagnostics

namespace Participant.FromGrammar

open Document Diagnostics

variable {d : Document} {text : String} {problem : Diagnostic} {sp : Span} {range range' : Range}

def endTagFix (d : Document) (problem : Diagnostic) (tag : String) (range : Range) : CodeAction :=
  .quickFix ("Close with '</" ++ tag ++ ">'") problem d.uri range ("</" ++ tag ++ ">")

def slashFix (d : Document) (problem : Diagnostic) (range : Range) : CodeAction :=
  .quickFix "Close with '/>'" problem d.uri range "/>"

theorem fix_unclosed (hcode : problem.code = some unclosedCode) (hspan : d.spanOf problem.range = .ok sp)
    (hnode : d.nodeAt sp.start = id) (he : d.element? id = some e) (htag : e.tag = some tag) (hsp : e.tagSpan = some sp)
    (hclose : e.startClose = some p) (hstop : d.rangeOf ⟨(d.span id).stop, (d.span id).stop⟩ = .ok range)
    (hslash : d.rangeOf ⟨p, p + 1⟩ = .ok range') (cancel : Cancel) :
    (fix d problem cancel).items =
      endTagFix d problem tag range :: if (d.children id).isEmpty then [slashFix d problem range'] else [] := by
  rw [fix, hspan]
  simp only [hcode, if_pos, closeFixes, hnode, he, htag, hclose, hsp, ne_eq, not_true, if_false, hstop, hslash]
  split
  · rfl
  · rfl

theorem closes_endTag (problem : Diagnostic) (huri : isDtdUri uri = false) (he : (parse text uri).element? id = some e)
    (htag : e.tag = some tag) (hstart : e.startOpen.isSome = true) (hopen : e.closed = false) (settings : Settings) :
    ∃ range,
      (parse text uri).rangeOf ⟨((parse text uri).span id).stop, ((parse text uri).span id).stop⟩ =
        .ok range ∧
      (((parse text uri).span id).stop < Text.size text ∨ (parse text uri).IsTerminated →
        Closes (parse text uri) settings (endTagFix (parse text uri) problem tag range)) := by
  obtain ⟨l, x, hl, hx, -⟩ := exists_left huri he htag hstart hopen
  have hb := hl.boundary (Text.isBoundary_zero text)
  rw [hx] at hb
  obtain ⟨u, v, rfl, hu⟩ := Text.exists_append_of_isBoundary hb
  have hboundary := (Text.stands_append u "" v).isBoundary
  obtain ⟨range, hrange⟩ :
      ∃ range, (parse (u ++ ("" ++ v)) uri).rangeOf ⟨Text.size u, Text.size u⟩ = .ok range :=
    exists_rangeOf hboundary hboundary
  have hedited := edited_one (w := "</" ++ tag ++ ">") hrange
  rw [String.empty_append] at hrange hedited
  refine ⟨range, hu ▸ hrange, fun hend => ?_⟩
  have hless := oneLess_endTag huri he htag hstart hopen hu.symm (hu ▸ hend)
  rw [show "</" ++ (tag ++ ">") = "</" ++ tag ++ ">" from String.append_assoc.symm] at hless
  exact ⟨rfl, _, hedited, countOf_oneLess huri hless settings⟩

theorem closes_slash (problem : Diagnostic) (huri : isDtdUri uri = false) (he : (parse text uri).element? id = some e)
    (htag : e.tag.isSome = true) (hstart : e.startOpen.isSome = true) (hclose : e.startClose = some p)
    (hopen : e.closed = false) (hself : e.selfClosed = false) (settings : Settings) :
    ∃ range, (parse text uri).rangeOf ⟨p, p + 1⟩ = .ok range ∧
      ((parse text uri).Faultless e →
        Closes (parse text uri) settings (slashFix (parse text uri) problem range)) := by
  obtain ⟨u, v, rfl, rfl, hless⟩ := oneLess_slash huri he htag hstart hclose hopen hself
  have hstands := Text.stands_append u ">" v
  obtain ⟨range, hrange⟩ :
      ∃ range, (parse (u ++ (">" ++ v)) uri).rangeOf ⟨Text.size u, Text.size u + 1⟩ = .ok range :=
    exists_rangeOf hstands.isBoundary hstands.isBoundary_stop
  exact ⟨range, hrange, fun hfaults =>
    ⟨rfl, _, edited_one hrange, countOf_oneLess huri (hless hfaults) settings⟩⟩

/-- **The fixes of unclosed elements** close one element each. What is reported about a missing end tag is reported
about an element without one. If the start tag of that is closed, an end tag at the end of the element is offered, and
a `/>` as well if the element has no children. The end tag leaves one start tag less without an end and as many end
tags without a start, unless the text ends with the element and some comment, CDATA section, instruction or document
type of it lacks its end. So does the `/>`, if no token of the start tag has a fault. -/
theorem fix_closes (text uri : String) (settings : Settings) :
    (∀ problem ∈ ofSyntax (parse text uri) settings, problem.code = some unclosedCode →
      ∃ id e, UnclosedAt (parse text uri) problem id e) ∧
    ∀ problem id e, UnclosedAt (parse text uri) problem id e → e.startClose.isSome = true → ∀ cancel,
      ∃ tag endTag slash, e.tag = some tag ∧ endTag.title = "Close with '</" ++ tag ++ ">'" ∧
        slash.title = "Close with '/>'" ∧
        (fix (parse text uri) problem cancel).items =
          endTag :: (if ((parse text uri).children id).isEmpty then [slash] else []) ∧
        (((parse text uri).span id).stop < Text.size text ∨ (parse text uri).IsTerminated →
          Closes (parse text uri) settings endTag) ∧
        ((parse text uri).Faultless e → Closes (parse text uri) settings slash) := by
  refine ⟨fun _ h hcode => exists_unclosedAt h hcode, fun problem id e h hclose cancel => ?_⟩
  have he := h.element
  have huri := isDtdUri_of_element? he
  obtain ⟨tag, htag, hstart, hself, hend, hrange⟩ := h.unended
  have hnamed : e.tag.isSome = true := by rw [htag]; rfl
  obtain ⟨sp, hsp⟩ := Option.isSome_iff_exists.mp ((Builder.spans_isSome huri he hnamed).1 hstart)
  obtain ⟨p, hp⟩ := Option.isSome_iff_exists.mp hclose
  have hopen : e.closed = false := by
    refine Bool.eq_false_iff.mpr fun hclosed => ?_
    rcases Builder.ended_of_closed huri he hstart hclosed with hself' | hend'
    · cases hself.symm.trans hself'
    · rw [hend] at hend'
      cases hend'
  rw [startTagSpan, hsp, Option.getD_some] at hrange
  obtain ⟨range, hstop, hendTag⟩ := closes_endTag problem huri he htag hstart hopen settings
  obtain ⟨range', hslash, hclosing⟩ := closes_slash problem huri he hnamed hstart hp hopen hself settings
  have hitems := fix_unclosed h.code (spanOf_of_rangeOf hrange) (nodeAt_tag huri he (.inl hsp)) he htag hsp hp hstop
    hslash cancel
  exact ⟨tag, _, _, htag, rfl, rfl, hitems, hendTag, hclosing⟩

/-- An element that the end tag of the one around it cuts off. -/
theorem fix_closes_inner : ∃ problem ∈ ofSyntax (parse "<a><b></a>" "file:///a.xml") {},
    problem.code = some unclosedCode ∧ ∃ e, UnclosedAt (parse "<a><b></a>" "file:///a.xml") problem 2 e ∧
      e.startClose.isSome = true ∧ ((parse "<a><b></a>" "file:///a.xml").span 2).stop < Text.size "<a><b></a>" ∧
      (parse "<a><b></a>" "file:///a.xml").Faultless e ∧
      ∃ endTag slash, (fix (parse "<a><b></a>" "file:///a.xml") problem .never).items = [endTag, slash] ∧
        Closes (parse "<a><b></a>" "file:///a.xml") {} endTag ∧
        Closes (parse "<a><b></a>" "file:///a.xml") {} slash := by
  have hunclosed : UnclosedAt (parse "<a><b></a>" "file:///a.xml")
      { range := ⟨⟨0, 4⟩, ⟨0, 5⟩⟩, severity := .error, code := some unclosedCode,
        message := "The element type \"b\" must be terminated by the matching end-tag \"</b>\"." } 2
      { tag := some "b", tagSpan := some ⟨4, 5⟩, startOpen := some 3, startClose := some 5 } :=
    ⟨by decide +kernel, by decide +kernel, rfl⟩
  have hstop : ((parse "<a><b></a>" "file:///a.xml").span 2).stop < Text.size "<a><b></a>" := by decide +kernel
  have hfaultless : (parse "<a><b></a>" "file:///a.xml").Faultless
      { tag := some "b", tagSpan := some ⟨4, 5⟩, startOpen := some 3, startClose := some 5 } := by
    have hnone : ∀ t ∈ (parse "<a><b></a>" "file:///a.xml").tokens, t.fault = none := by decide +kernel
    exact fun t ht _ _ _ _ _ _ => hnone t ht
  obtain ⟨tag, endTag, slash, -, -, -, hitems, hendTag, hslash⟩ :=
    (fix_closes "<a><b></a>" "file:///a.xml" {}).2 _ _ _ hunclosed rfl .never
  refine ⟨_, by decide +kernel, rfl, _, hunclosed, rfl, hstop, hfaultless, endTag, slash, ?_, hendTag (.inl hstop),
    hslash hfaultless⟩
  rw [hitems, if_pos (by decide +kernel)]

end Participant.FromGrammar

end XmlAssist
