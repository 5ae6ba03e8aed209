import XmlAssist.Proofs.Tree.Offsets

/-!
# Offsets in the order of the text

Every token writes behind all that has been written, and only to elements that are open there. So along the tokens
the parts of each element stay in order (`InOrder.step`), whatever the text, and so they are in every document
(`Document.parse_inOrder`).
-/

namespace XmlAssist

open Node
open Text (size)
open Lexer (Reads Falls Leads)

namespace Lexer

variable {x y : Lexer} {pos : Nat} {spaced : Bool} {kind : Token.Kind}

theorem StartsContent.outside_endTag {mode : Mode} (h : StartsContent kind mode) (hk : kind ≠ .endTagOpen) :
    mode ≠ .afterEndTagOpen ∧ mode ≠ .inEndTag := by
  rcases h with ⟨-, rfl⟩ | h
  · constructor <;> rintro ⟨⟩
  · constructor <;> rintro rfl <;> simp [contentOpeners, hk] at h

theorem StartsDeclaration.outside_endTag {mode : Mode} (h : StartsDeclaration kind mode) :
    mode ≠ .afterEndTagOpen ∧ mode ≠ .inEndTag := by
  rcases h with ⟨-, rfl⟩ | h
  · constructor <;> rintro ⟨⟩
  · constructor <;> rintro rfl <;> simp [dtdOpeners] at h

theorem YieldsToDeclaration.outside_endTag (h : x.YieldsToDeclaration) :
    x.mode ≠ .afterEndTagOpen ∧ x.mode ≠ .inEndTag := by
  constructor <;> intro hmode <;> simp [YieldsToDeclaration, hmode] at h

theorem contentMode_outside_endTag (x : Lexer) :
    x.contentMode ≠ .afterEndTagOpen ∧ x.contentMode ≠ .inEndTag := by
  unfold contentMode
  split <;> constructor <;> rintro ⟨⟩

theorem tagMode_outside_endTag (x : Lexer) : x.tagMode ≠ .afterEndTagOpen ∧ x.tagMode ≠ .inEndTag := by
  unfold tagMode
  split <;> constructor <;> rintro ⟨⟩

theorem Reads.inEndTag (h : Reads x pos spaced kind y) (hmode : y.mode = .inEndTag) :
    (kind = .endTagName ∧ x.mode = .afterEndTagOpen) ∨
      ((kind = .blank ∨ kind = .unknown) ∧ x.mode = .inEndTag) := by
  cases h with
  | blank => exact .inr ⟨.inl rfl, hmode⟩
  | unknown => exact .inr ⟨.inr rfl, hmode⟩
  | endTagName hx => exact .inl ⟨rfl, hx⟩
  | content _ hk =>
    rw [moved_mode] at hmode
    subst hmode
    rcases hk with ⟨-, hk⟩ | hk
    · cases hk
    · simp [contentOpeners] at hk
  | declaration _ hk => exact absurd hmode hk.outside_endTag.2
  | attributeValue => exact absurd hmode x.tagMode_outside_endTag.2
  | commentClose | cdataClose | prologClose | instructionClose =>
    exact absurd hmode x.contentMode_outside_endTag.2
  | _ => cases hmode

end Lexer

namespace Builder

variable {s : String} {x y : Lexer} {l : List (Token × Lexer)} {b b' : Builder} {t : Token} {id o pos : Nat}
variable {e : Element} {spaced inDtd : Bool} {fault : Option Token.Fault} {kind : Token.Kind} {k : Kind}

theorem Follows.reads_behind {P : Lexer → Builder → Prop}
    (hstep : ∀ {x y : Lexer} {b : Builder} {pos : Nat} {spaced : Bool} {kind : Token.Kind}
        {fault : Option Token.Fault},
      Follows s x b → P x b → Reads x pos spaced kind y → x.pos < pos → pos ≤ size s →
      Lexer.Lengths ⟨kind, x.pos, pos, fault⟩ → Fits s y (step s b ⟨kind, x.pos, pos, fault⟩ y.inDtd) →
      P y (step s b ⟨kind, x.pos, pos, fault⟩ y.inDtd))
    (hfalls : ∀ {x y : Lexer} {b : Builder} {spaced : Bool}, Follows s x b → P x b → Falls x spaced y → P y b)
    (hf : Follows s x b) (h : P x b) (hl : Leads s x l y) : P y (Builder.behind s l b) := by
  induction hl generalizing b with
  | here => exact h
  | @next x y l hlt _ ih =>
    have hmoves := Lexer.moves_lex hf.boundary hlt
    have hnext := (hf.next hlt).2
    have hlen := Lexer.lengths_step hf.consistent hf.boundary hlt
    obtain ⟨z, spaced, hz, hreads⟩ := Lexer.lex_turns hf.consistent hlt
    have hsize := Text.le_size_of_isBoundary hnext.boundary
    refine ih hnext ?_
    rw [Lexer.step_eq_lex hf.boundary hlt] at hlen hnext hsize ⊢
    rcases hz with rfl | hbreak
    · exact hstep hf h hreads hmoves.ahead.1 hsize hlen hnext.fits
    · have hx := hbreak.pos_eq
      have hturn := hstep (hf.of_falls hbreak) (hfalls hf h hbreak) hreads (hx ▸ hmoves.ahead.1) hsize (hx ▸ hlen)
        (hx ▸ hnext.fits)
      exact hx ▸ hturn

/-- All that the elements have is in order, up to where the lexer is or to a `</` without a name. -/
structure InOrder (x : Lexer) (b : Builder) : Prop where
  laid : LaidOut b.nodes (b.endTagOpen.getD x.pos)
  pending : ∀ o, b.endTagOpen = some o → o + 2 ≤ x.pos
  starting : x.inStartTag = true → b.Starting
  ending : b.endTagOpen = none → x.mode = .inEndTag → ∀ e, b.kindOf b.current = .element e → e.endClose = none

theorem Fits.pending (h : Fits s x b) (ho : b.endTagOpen = some o) :
    ∃ edge ≤ x.pos, b.Pending s x.dtdFile.toNat o edge := by
  rcases h.mode_of_endTagOpen ho with hmode | hmode
  · obtain ⟨start, hlt, hpending⟩ := h.afterEndTagOpen hmode
    obtain rfl := Option.some.inj (ho.symm.trans hpending.endTagOpen)
    exact ⟨o, Nat.le_of_lt hlt, hpending⟩
  · rcases h.inEndTag hmode with ⟨start, -, hpending⟩ | hclosing
    · obtain rfl := Option.some.inj (ho.symm.trans hpending.endTagOpen)
      exact ⟨_, Nat.le_refl _, hpending⟩
    · cases hclosing.endTagOpen.symm.trans ho

theorem Fits.laid_nodes (h : Fits s x b) (hmode : x.mode ≠ .afterEndTagOpen ∧ x.mode ≠ .inEndTag)
    (hlaid : LaidOut b.nodes pos) : LaidOut b.nodes (b.endTagOpen.getD pos) := by
  cases ho : b.endTagOpen with
  | none => exact hlaid
  | some o => exact absurd (h.mode_of_endTagOpen ho) (by simp [hmode])

namespace InOrder

theorem of_falls (h : InOrder x b) (hf : Fits s x b) (hfalls : Falls x spaced y) : InOrder y b := by
  refine ⟨hfalls.pos_eq ▸ h.laid, hfalls.pos_eq ▸ h.pending, hfalls.inStartTag_eq ▸ h.starting,
    fun hnone hmode => ?_⟩
  cases hfalls with
  | endTag hx =>
    obtain ⟨_, -, hpending⟩ := hf.afterEndTagOpen hx
    cases hnone.symm.trans hpending.endTagOpen
  | backInTag =>
    rw [Lexer.moved_mode, Lexer.tagMode] at hmode
    split at hmode <;> cases hmode
  | startTag | instruction => cases hmode

section follows
variable (h : InOrder x b) (hf : Follows s x b)
include h hf

theorem slack : b.Slack := by
  have hphase := hf.fits.phase
  cases hmode : x.mode with
  | content | dtdContent | doctype _ =>
    simp only [Phase, hmode] at hphase
    exact slack_of_unclosed hphase.nested hphase.unclosed h.laid hf.started
  | afterEndTagOpen =>
    simp only [Phase, hmode] at hphase
    obtain ⟨_, -, hpending⟩ := hphase
    exact slack_of_unclosed hpending.nested hpending.unclosed h.laid hf.started
  | inEndTag =>
    simp only [Phase, hmode] at hphase
    rcases hphase with ⟨_, -, hpending⟩ | hclosing
    · exact slack_of_unclosed hpending.nested hpending.unclosed h.laid hf.started
    · refine slack_of_around hclosing.nested.arena hclosing.nested.rightmost h.laid hf.started (fun n e hn hkind => ?_)
        hclosing.around
      obtain ⟨e', he', -, hend⟩ := hclosing.kind
      obtain rfl := Kind.element.inj (he'.symm.trans ((kindOf_eq hn).trans hkind))
      exact ⟨(h.laid hn hkind).ended hend, h.ending hclosing.endTagOpen hmode _ he'⟩
  | declaration _ =>
    simp only [Phase, hmode] at hphase
    exact slack_of_unclosed hphase.steady.nested hphase.steady.unclosed h.laid hf.started
  | _ =>
    simp only [Phase, hmode] at hphase
    exact slack_of_unclosed hphase.1.nested hphase.1.unclosed h.laid hf.started

theorem rests {edge edge' : Nat} (hrests : Rests b.Around b.nodes b'.nodes) (hlaid : LaidOut b.nodes edge)
    (hle : edge ≤ edge') : LaidOut b'.nodes edge' :=
  hlaid.rests hrests (fun id hid => h.slack hf id (hf.fits.mem_chain_of_around hid)) hle

theorem laid_of_mode (hmode : x.mode ≠ .afterEndTagOpen ∧ x.mode ≠ .inEndTag) : LaidOut b.nodes x.pos := by
  cases ho : b.endTagOpen with
  | none => simpa [ho] using h.laid
  | some o => exact absurd (hf.fits.mode_of_endTagOpen ho) (by simp [hmode])

theorem laidOut_settle : LaidOut (b.settle x.pos).nodes x.pos := by
  rw [nodes_settle]
  cases ho : b.endTagOpen with
  | none =>
    rw [flushEndTag_eq ho]
    simpa [ho] using h.laid
  | some o =>
    obtain ⟨edge, -, hpending⟩ := hf.fits.pending ho
    have hlaid : LaidOut b.nodes o := by simpa [ho] using h.laid
    exact laidOut_flushEndTag hpending.nested.arena ho hlaid
      (fun _ _ => Started.ending hf.started hlaid hpending.unclosed) (h.pending o ho) nofun

theorem laidOut_beforeContent (hy : x.YieldsToContent) : LaidOut (b.beforeMarkup x.pos false).nodes x.pos := by
  have hstarted : (b.settle x.pos).Started :=
    fun id e he => hf.started id e ((hf.fits.quiet_settle x.pos).opened ▸ he)
  exact laidOut_beforeMarkup (h.laidOut_settle hf) (hf.fits.settled hf.consistent (.inl hy)) hstarted

theorem laidOut_beforeDeclaration (hy : x.YieldsToDeclaration) : LaidOut (b.beforeMarkup x.pos true).nodes x.pos := by
  have hstarted : (b.settle x.pos).Started :=
    fun id e he => hf.started id e ((hf.fits.quiet_settle x.pos).opened ▸ he)
  exact laidOut_beforeMarkup (h.laidOut_settle hf) (hf.fits.settled hf.consistent (.inr hy)) hstarted

theorem laidOut_content {mode : Lexer.Mode} (hy : x.YieldsToContent) (hk : Lexer.StartsContent kind mode)
    (hlt : x.pos < pos) (hend : kind ≠ .endTagOpen) :
    LaidOut (step s b ⟨kind, x.pos, pos, fault⟩ false).nodes pos := by
  obtain ⟨P, E, hrecords⟩ := hf.records
  obtain ⟨hsteady, -⟩ := hf.fits.beforeContent hf.consistent hy
  have hlaid := h.laidOut_beforeContent hf hy
  have hquiet := hf.fits.quiet_beforeContent hf.consistent hrecords hf.boundary hy
  have hstarted : (b.beforeMarkup x.pos false).Started := fun id e he => hf.started id e (hquiet.opened ▸ he)
  have hadd {k : Kind} (hnew : ∀ e, k = .element e →
      e.Laid ((b.beforeMarkup x.pos false).append k ⟨x.pos, pos⟩).nodes pos
        { span := ⟨x.pos, pos⟩, parent := some (b.beforeMarkup x.pos false).current, kind := k }) :
      LaidOut ((b.beforeMarkup x.pos false).append k ⟨x.pos, pos⟩).nodes pos :=
    laidOut_append hsteady.nested.arena hlaid (fun _ _ => hstarted.ending hlaid hsteady.unclosed) (Nat.le_refl _)
      (Nat.le_of_lt hlt) hnew
  have hother {k : Kind} (hk : k.core = none) :
      LaidOut ((b.beforeMarkup x.pos false).append k ⟨x.pos, pos⟩).nodes pos :=
    hadd fun e he => absurd he (ne_element hk e)
  rcases hk with ⟨rfl, rfl⟩ | hk
  · exact step_text ▸ hother rfl
  · simp only [Lexer.contentOpeners, List.map_cons, List.map_nil, List.mem_cons, Prod.mk.injEq,
      List.not_mem_nil, or_false] at hk
    rcases hk with ⟨rfl, rfl⟩ | ⟨rfl, rfl⟩ | ⟨rfl, rfl⟩ | ⟨rfl, rfl⟩ | ⟨rfl, rfl⟩ | ⟨rfl, rfl⟩
    · exact step_commentOpen ▸ hother rfl
    · exact step_cdataOpen ▸ hother rfl
    · exact step_doctypeOpen ▸ hother rfl
    · exact absurd rfl hend
    · exact step_instructionOpen ▸ hother rfl
    · rw [step_startTagOpen]
      refine hadd fun e he => ?_
      obtain rfl := Kind.element.inj he
      exact .of_bracket rfl rfl hlt

theorem laidOut_declaration {mode : Lexer.Mode} (hy : x.YieldsToDeclaration) (hk : Lexer.StartsDeclaration kind mode)
    (hle : x.pos ≤ pos) : LaidOut (step s b ⟨kind, x.pos, pos, fault⟩ true).nodes pos := by
  have hadd {c : Builder} (hsteady : c.Steady s x.dtdFile.toNat x.pos) (hlaid : LaidOut c.nodes x.pos)
      (hquiet : Quiet b c) {k : Kind} (hk : k.core = none) : LaidOut (c.append k ⟨x.pos, pos⟩).nodes pos :=
    laidOut_append hsteady.nested.arena hlaid (fun _ _ => Started.ending
      (fun id e he => hf.started id e (hquiet.opened ▸ he)) hlaid hsteady.unclosed) (Nat.le_refl _) hle
      fun e he => absurd he (ne_element hk e)
  have hmarkup {k : Kind} (hk : k.core = none) :
      LaidOut ((b.beforeMarkup x.pos true).append k ⟨x.pos, pos⟩).nodes pos :=
    hadd (hf.fits.beforeDeclaration hf.consistent hy).1 (h.laidOut_beforeDeclaration hf hy)
      (hf.fits.quiet_beforeDeclaration hf.consistent hy) hk
  have hopen (body : Declaration.Body) : LaidOut (b.openDeclaration ⟨kind, x.pos, pos, fault⟩ body).nodes pos := by
    have hsteady := (hf.fits.leaveDeclaration hy).1
    have hlaid : LaidOut b.leaveDeclaration.nodes x.pos :=
      nodes_leaveDeclaration b ▸ h.laid_of_mode hf hy.outside_endTag
    rw [openDeclaration, hsteady.leaveClosedElement_eq]
    exact hadd hsteady hlaid hf.fits.quiet_leaveDeclaration rfl
  rcases hk with ⟨rfl, rfl⟩ | hk
  · exact step_text ▸ hmarkup rfl
  · simp only [Lexer.dtdOpeners, List.map_cons, List.map_nil, List.mem_cons, Prod.mk.injEq,
      List.not_mem_nil, or_false] at hk
    rcases hk with ⟨rfl, rfl⟩ | ⟨rfl, rfl⟩ | ⟨rfl, rfl⟩ | ⟨rfl, rfl⟩ | ⟨rfl, rfl⟩ | ⟨rfl, rfl⟩
    · exact step_dtd ▸ hopen _
    · exact step_dtd ▸ hopen _
    · exact step_dtd ▸ hopen _
    · exact step_dtd ▸ hopen _
    · exact step_commentOpen ▸ hmarkup rfl
    · exact step_instructionOpen ▸ hmarkup rfl

theorem laid_rests (hmode : x.mode ≠ .afterEndTagOpen ∧ x.mode ≠ .inEndTag) (hle : x.pos ≤ pos)
    (hrests : Rests b.Around b.nodes b'.nodes) : LaidOut b'.nodes pos :=
  h.rests hf hrests (h.laid_of_mode hf hmode) hle

theorem laidOut_startTag (hr : Reads x pos spaced kind y)
    (hk : kind = .startTagName ∨ kind = .startTagClose ∨ kind = .startTagSelfClose) (hlt : x.pos < pos)
    (hlen : kind = .startTagSelfClose → pos = x.pos + 2) :
    LaidOut (step s b ⟨kind, x.pos, pos, fault⟩ inDtd).nodes pos := by
  have hin : x.mode = .afterStartTagOpen ∨ x.mode = .inTag := by
    cases hr with
    | startTagName hmode => exact .inl hmode
    | startTagClose hmode | startTagSelfClose hmode => exact .inr hmode
    | content _ h => rcases hk with rfl | rfl | rfl <;> simp [Lexer.StartsContent, Lexer.contentOpeners] at h
    | declaration _ h => rcases hk with rfl | rfl | rfl <;> simp [Lexer.StartsDeclaration, Lexer.dtdOpeners] at h
    | _ => simp at hk
  obtain ⟨hsteady, -⟩ := hf.fits.inTag (by rcases hin with hmode | hmode <;> simp [hmode])
  have hlaid := h.laid_of_mode hf (by rcases hin with hmode | hmode <;> simp [hmode])
  have hstart := h.starting (by rcases hin with hmode | hmode <;> simp [Lexer.inStartTag, hmode])
  obtain ⟨e, hkind⟩ : ∃ e, b.kindOf b.current = .element e := by
    obtain ⟨n, e, hn, he, -⟩ := hstart
    exact ⟨e, (kindOf_eq hn).trans he⟩
  rcases hk with rfl | rfl | rfl
  · obtain ⟨hlast, e', he', htag, -⟩ := hf.detail.afterStartTagOpen hr.mode_of_startTagName
    exact laidOut_startTagName hsteady.unclosed hf.started hlaid hstart he' hsteady.nested hlast htag (Nat.le_of_lt hlt)
  · exact laidOut_startTagClose hsteady.unclosed hf.started hlaid hstart hkind hsteady.nested hlt
  · exact laidOut_startTagSelfClose hsteady.unclosed hf.started hlaid hstart hkind hsteady.nested (hlen rfl)

theorem laidOut_attribute (hr : Reads x pos spaced kind y) (hk : kind = .attributeName ∨ kind = .attributeValue)
    (hle : x.pos ≤ pos) : LaidOut (step s b ⟨kind, x.pos, pos, fault⟩ inDtd).nodes pos := by
  have hin : x.mode = .inTag ∨ x.mode = .inProlog ∨ x.mode = .beforeAttributeValue := by
    cases hr with
    | attributeName hmode => exact hmode.imp_right .inl
    | attributeValue hmode => exact .inr (.inr hmode)
    | content _ h => rcases hk with rfl | rfl <;> simp [Lexer.StartsContent, Lexer.contentOpeners] at h
    | declaration _ h => rcases hk with rfl | rfl <;> simp [Lexer.StartsDeclaration, Lexer.dtdOpeners] at h
    | _ => simp at hk
  have hsteady := hf.fits.inTag (by rcases hin with hmode | hmode | hmode <;> simp [hmode])
  have howns : Owns x.inProlog (b.kindOf b.current) := by
    rcases hin with hmode | hmode | hmode
    · exact hf.detail.owns (.inl hmode)
    · exact hf.detail.owns (.inr hmode)
    · exact (hf.detail.awaits (.inr hmode)).1
  have hlaid := h.laid_of_mode hf (by rcases hin with hmode | hmode | hmode <;> simp [hmode])
  have hstart (e : Element) (he : b.kindOf b.current = .element e) : b.Starting := by
    refine h.starting ?_
    have hprolog : x.inProlog = false := by
      rw [he, Owns] at howns
      split at howns
      · obtain ⟨p, hp, -⟩ := howns
        cases hp
      · exact Bool.eq_false_iff.mpr ‹_›
    have hagrees := hf.consistent.mode
    rcases hin with hmode | hmode | hmode
    · simp [Lexer.inStartTag, hmode]
    · simp [Lexer.Agrees, hmode, hprolog] at hagrees
    · simp [Lexer.inStartTag, hmode, hprolog]
  rcases hk with rfl | rfl
  · exact step_attributeName ▸
      laidOut_attributeName hsteady.1.unclosed hf.started hlaid hstart hsteady.1.nested hle howns
  · have hawaits : b.Awaits := by
      cases hr with
      | attributeValue hmode => exact (hf.detail.awaits (.inr hmode)).2
      | content _ h => simp [Lexer.StartsContent, Lexer.contentOpeners] at h
      | declaration _ h => simp [Lexer.StartsDeclaration, Lexer.dtdOpeners] at h
    exact step_attributeValue ▸
      laidOut_attributeValue hsteady.1.unclosed hf.started hlaid hstart hsteady.1.nested hle hsteady.2 hawaits

theorem laid_endTagName (hmode : x.mode = .afterEndTagOpen) (hlt : x.pos < pos) (hsize : pos ≤ size s) :
    LaidOut (step s b ⟨.endTagName, x.pos, pos, fault⟩ inDtd).nodes
      ((step s b ⟨.endTagName, x.pos, pos, fault⟩ inDtd).endTagOpen.getD pos) := by
  obtain ⟨start, hstart, hpending⟩ := hf.fits.afterEndTagOpen hmode
  have hlaid : LaidOut b.nodes start := by simpa [hpending.endTagOpen] using h.laid
  have hclosing := hpending.endTag (t := ⟨.endTagName, x.pos, pos, fault⟩) (Nat.lt_trans hstart hlt) hsize
  rw [step_endTagName, hclosing.endTagOpen,
    show endTag s b _ = closeNearest s { b with endTagOpen := none } start _ from endTag_eq hpending.endTagOpen]
  exact laidOut_closeNearest (b := { b with endTagOpen := none }) hpending.unclosed hf.started hlaid hpending.nested
    (h.pending start hpending.endTagOpen) (Nat.le_of_lt hlt)

theorem laidOut_endTagClose (hmode : x.mode = .inEndTag) (hlen : pos = x.pos + 1) :
    LaidOut (step s b ⟨.endTagClose, x.pos, pos, fault⟩ inDtd).nodes pos := by
  rcases hf.fits.inEndTag hmode with ⟨start, -, hpending⟩ | hclosing
  · have hlaid : LaidOut b.nodes start := by simpa [hpending.endTagOpen] using h.laid
    have hstart := h.pending start hpending.endTagOpen
    rw [step_endTagClose_of_some hpending.endTagOpen]
    refine laidOut_flushEndTag hpending.nested.arena hpending.endTagOpen hlaid
      (fun _ _ => Started.ending hf.started hlaid hpending.unclosed) (by omega) fun p hp => ?_
    obtain rfl := Option.some.inj hp
    exact ⟨hstart, hlen⟩
  · obtain ⟨e, hkind, -⟩ := hclosing.kind
    have hlaid : LaidOut b.nodes x.pos := by simpa [hclosing.endTagOpen] using h.laid
    exact laidOut_close hclosing hlaid hf.started hkind (h.ending hclosing.endTagOpen hmode e hkind) hlen

theorem laid_unknown (hmode : x.mode = .inEndTag) (hle : x.pos ≤ pos) (hsize : pos ≤ size s) :
    LaidOut (step s b ⟨.unknown, x.pos, pos, fault⟩ inDtd).nodes
      ((step s b ⟨.unknown, x.pos, pos, fault⟩ inDtd).endTagOpen.getD pos) := by
  rcases hf.fits.inEndTag hmode with ⟨start, -, hpending⟩ | hclosing
  · have hlaid : LaidOut b.nodes start := by simpa [hpending.endTagOpen] using h.laid
    rw [(hpending.unknown fault inDtd hle hsize).1.endTagOpen]
    exact h.rests hf rests_unknown hlaid (Nat.le_refl _)
  · have hlaid : LaidOut b.nodes x.pos := by simpa [hclosing.endTagOpen] using h.laid
    have hsame : step s b ⟨.unknown, x.pos, pos, fault⟩ inDtd = b := hclosing.unknown fault inDtd
    rw [hsame, hclosing.endTagOpen]
    exact hlaid.mono hle

theorem laid_step (hr : Reads x pos spaced kind y) (hlt : x.pos < pos) (hsize : pos ≤ size s)
    (hlen : Lexer.Lengths ⟨kind, x.pos, pos, fault⟩)
    (hnext : Fits s y (step s b ⟨kind, x.pos, pos, fault⟩ y.inDtd)) :
    LaidOut (step s b ⟨kind, x.pos, pos, fault⟩ y.inDtd).nodes
      ((step s b ⟨kind, x.pos, pos, fault⟩ y.inDtd).endTagOpen.getD pos) := by
  have hle := Nat.le_of_lt hlt
  have hdone (hmode : y.mode ≠ .afterEndTagOpen ∧ y.mode ≠ .inEndTag)
      (hlaid : LaidOut (step s b ⟨kind, x.pos, pos, fault⟩ y.inDtd).nodes pos) := hnext.laid_nodes hmode hlaid
  have hread := hr
  cases hr with
  | blank =>
    show LaidOut b.nodes (b.endTagOpen.getD pos)
    refine h.laid.mono ?_
    cases b.endTagOpen with
    | none => exact hle
    | some o => exact Nat.le_refl o
  | @content _ mode hy hk =>
    have hin : ({ x with inProlog := false, inSubset := false }.moved pos spaced mode).inDtd = false := by
      simp [Lexer.inDtd, hf.consistent.dtdFile_of_yieldsToContent hy]
    by_cases hend : kind = .endTagOpen
    · subst hend
      rw [hin, step_endTagOpen]
      exact h.laidOut_beforeContent hf hy
    · exact hdone (hk.outside_endTag hend) (by rw [hin]; exact h.laidOut_content hf hy hk hlt hend)
  | declaration hy hk =>
    exact hdone hk.outside_endTag
      (hf.consistent.inDtd_of_yieldsToDeclaration hy ▸ h.laidOut_declaration hf hy hk hle)
  | startTagName =>
    exact hdone (by constructor <;> rintro ⟨⟩) (h.laidOut_startTag hf hread (by simp) hlt (by rintro ⟨⟩))
  | startTagClose =>
    exact hdone (by constructor <;> rintro ⟨⟩) (h.laidOut_startTag hf hread (by simp) hlt (by rintro ⟨⟩))
  | startTagSelfClose =>
    exact hdone (by constructor <;> rintro ⟨⟩) (h.laidOut_startTag hf hread (by simp) hlt hlen.selfClose)
  | endTagName hmode => exact h.laid_endTagName hf hmode hlt hsize
  | endTagClose hmode =>
    exact hdone (by constructor <;> rintro ⟨⟩) (h.laidOut_endTagClose hf hmode (hlen.endTagClose rfl))
  | unknown hmode =>
    rcases hmode with hmode | hmode | hmode
    · exact hdone (by simp [hmode]) (h.laid_rests hf (by simp [hmode]) hle rests_unknown)
    · exact hdone (by simp [hmode]) (h.laid_rests hf (by simp [hmode]) hle rests_unknown)
    · exact h.laid_unknown hf hmode hle hsize
  | attributeName => exact hdone (by constructor <;> rintro ⟨⟩) (h.laidOut_attribute hf hread (by simp) hle)
  | assign hmode =>
    exact hdone (by constructor <;> rintro ⟨⟩)
      (h.laid_rests hf (by simp [hmode]) hle (step_assign ▸ rests_assign))
  | attributeValue => exact hdone x.tagMode_outside_endTag (h.laidOut_attribute hf hread (by simp) hle)
  | commentText hmode | cdataText hmode | prologName hmode | instructionTarget hmode | instructionContent hmode =>
    exact hdone (by constructor <;> rintro ⟨⟩)
      (h.laid_rests hf (by simp [hmode]) hle (rests_sectionToken (by simp)))
  | commentClose hmode | cdataClose hmode | instructionClose hmode | prologClose hmode =>
    exact hdone x.contentMode_outside_endTag (h.laid_rests hf (by simp [hmode]) hle (rests_sectionToken (by simp)))
  | subsetOpen hmode | doctypeClose hmode | declarationClose hmode =>
    exact hdone (by constructor <;> rintro ⟨⟩)
      (h.laid_rests hf (by simp [hmode]) hle (step_dtd ▸ rests_dtdToken (by simp) (by simp)))
  | subsetClose hy =>
    exact hdone (by constructor <;> rintro ⟨⟩)
      (h.laid_rests hf hy.outside_endTag hle (step_dtd ▸ rests_dtdToken (by simp) (by simp)))
  | doctypeParameter hmode hk | declarationParameter hmode hk =>
    refine hdone (by constructor <;> rintro ⟨⟩)
      (h.laid_rests hf (by simp [hmode]) hle (step_dtd ▸ rests_dtdToken ?_ ⟨?_, ?_, ?_, ?_⟩))
    all_goals
      rintro rfl
      revert hk
      decide

/-- **A token keeps all that the elements have in order.** -/
theorem step (hr : Reads x pos spaced kind y) (hlt : x.pos < pos) (hsize : pos ≤ size s)
    (hlen : Lexer.Lengths ⟨kind, x.pos, pos, fault⟩)
    (hnext : Fits s y (step s b ⟨kind, x.pos, pos, fault⟩ y.inDtd)) :
    InOrder y (Builder.step s b ⟨kind, x.pos, pos, fault⟩ y.inDtd) where
  laid := by
    have hpos : y.pos = pos := by cases hr <;> rfl
    rw [hpos]
    exact h.laid_step hf hr hlt hsize hlen hnext
  pending o ho := by
    have hpos : y.pos = pos := by cases hr <;> rfl
    rw [hpos]
    have hwaits (hopen : b.endTagOpen = some o) : o + 2 ≤ pos := Nat.le_trans (h.pending o hopen) (Nat.le_of_lt hlt)
    rcases hnext.mode_of_endTagOpen ho with hmode | hmode
    · rcases hr.afterEndTagOpen hmode with rfl | ⟨rfl, -⟩
      · rw [step_endTagOpen] at ho
        obtain rfl := Option.some.inj ho
        exact Nat.le_of_eq (hlen.endTagOpen rfl).symm
      · exact hwaits ho
    · rcases hr.inEndTag hmode with ⟨rfl, hx⟩ | ⟨rfl | rfl, hx⟩
      · obtain ⟨start, hstart, hpending⟩ := hf.fits.afterEndTagOpen hx
        rw [step_endTagName, (hpending.endTag (t := ⟨.endTagName, x.pos, pos, fault⟩) (Nat.lt_trans hstart hlt)
          hsize).endTagOpen] at ho
        cases ho
      · exact hwaits ho
      · rcases hf.fits.inEndTag hx with ⟨start, -, hpending⟩ | hclosing
        · rw [(hpending.unknown fault _ (Nat.le_of_lt hlt) hsize).1.endTagOpen] at ho
          exact hwaits (hpending.endTagOpen.trans ho)
        · rw [hclosing.unknown fault _] at ho
          exact hwaits ho
  starting hin := starting_step h.starting hf.consistent hr hin
  ending hnone hmode e he := by
    rcases hr.inEndTag hmode with ⟨rfl, hx⟩ | ⟨rfl | rfl, hx⟩
    · obtain ⟨start, -, hpending⟩ := hf.fits.afterEndTagOpen hx
      have hlaid : LaidOut b.nodes start := by simpa [hpending.endTagOpen] using h.laid
      rw [step_endTagName, show endTag s b _ = closeNearest s { b with endTagOpen := none } start _ from
        endTag_eq hpending.endTagOpen] at he
      exact endClose_closeNearest (b := { b with endTagOpen := none }) hpending.unclosed hf.started hlaid he
    · exact h.ending hnone hx e he
    · rcases hf.fits.inEndTag hx with ⟨start, -, hpending⟩ | hclosing
      · rw [(hpending.unknown fault _ (Nat.le_of_lt hlt) hsize).1.endTagOpen] at hnone
        cases hnone
      · rw [hclosing.unknown fault _] at he
        exact h.ending hclosing.endTagOpen hx e he

theorem laidOut_atEnd (hpos : x.pos = size s) : LaidOut (atEnd s b).nodes (size s) := by
  have hreach {c : Builder} (hslack : c.Slack) (hlaid : LaidOut c.nodes (size s)) :
      LaidOut ((chain c.nodes c.current).foldl (fun b id => b.extend id (size s)) c).nodes (size s) := by
    rw [foldl_extend]
    exact hlaid.rests (.reach (fun _ hc => hc) (size s)) hslack (Nat.le_refl _)
  have hlaid := h.laid
  unfold atEnd
  dsimp only
  cases ho : b.endTagOpen with
  | none =>
    rw [flushEndTag_eq ho]
    rw [ho, Option.getD_none, hpos] at hlaid
    exact hreach (h.slack hf) hlaid
  | some o =>
    obtain ⟨edge, hedge, hpending⟩ := hf.fits.pending ho
    rw [ho, Option.getD_some] at hlaid
    have hle := h.pending o ho
    rw [hpos] at hedge hle
    have hflush : LaidOut (b.flushEndTag (size s) none).nodes (size s) :=
      laidOut_flushEndTag hpending.nested.arena ho hlaid
        (fun _ _ => Started.ending hf.started hlaid hpending.unclosed) hle nofun
    have hsteady : (b.flushEndTag (size s) none).Steady s x.dtdFile.toNat (size s) :=
      hpending.flush (by omega) hedge (Nat.le_refl _) none
    have hquiet : Quiet b (b.flushEndTag (size s) none) := quiet_flushEndTag hpending.nested (size s) none
    exact hreach (slack_of_unclosed hsteady.nested hsteady.unclosed hflush
      fun id e he => hf.started id e (hquiet.opened ▸ he)) hflush

end follows

end InOrder

theorem inOrder_start (s : String) (dtdFile : Bool) :
    InOrder (if dtdFile then .declarations else .document) (start s dtdFile) := by
  have hnone {id : Nat} {n : Node} {e : Element} (hn : (start s dtdFile).nodes[id]? = some n)
      (hkind : n.kind = .element e) : False := by
    have hcore := core_of_kindOf ((kindOf_eq hn).trans hkind)
    rw [core_start] at hcore
    cases hcore
  refine ⟨fun id n e hn hkind => (hnone hn hkind).elim, fun o ho => ?_, fun hin => ?_, fun _ hmode => ?_⟩
  · cases dtdFile <;> cases ho
  · cases dtdFile <;> cases hin
  · cases dtdFile <;> cases hmode

/-! ## Values of attributes -/

/-- The value of an attribute stands behind its name and its `=`. -/
structure Valued (x : Lexer) (b : Builder) : Prop where
  values : ∀ (id : Nat) (a : Attribute) (sp : Span), b.kindOf id = .attribute a → a.valueSpan = some sp →
    a.nameSpan.stop < sp.start
  assigned : x.mode = .beforeAttributeValue → ∀ (id : Nat) (a : Attribute), b.openAttribute = some id →
    b.kindOf id = .attribute a → a.nameSpan.stop < x.pos

theorem Follows.nameSpan_le (hf : Follows s x b) {a : Attribute} (hkind : b.kindOf id = .attribute a) :
    a.nameSpan.stop ≤ x.pos := by
  obtain ⟨P, E, hrecords⟩ := hf.records
  obtain ⟨n, hn, hk⟩ := exists_node hkind (by simp)
  exact ((hrecords.sound id n hn).kind.spans a.nameSpan (by simp [hk, Kind.spans])).stop_le

theorem Valued.of_falls (h : Valued x b) (hfalls : Falls x spaced y) : Valued y b := by
  refine ⟨h.values, fun hmode => ?_⟩
  cases hfalls with
  | backInTag =>
    rw [Lexer.moved_mode, Lexer.tagMode] at hmode
    split at hmode <;> cases hmode
  | startTag | endTag | instruction => cases hmode

theorem attribute_of_step {a' : Attribute} (hkind : (step s b t inDtd).kindOf id = .attribute a') :
    (∃ a, b.kindOf id = .attribute a ∧ a'.nameSpan = a.nameSpan ∧ (a'.valueSpan = a.valueSpan ∨
      (b.openAttribute = some id ∧ t.kind = .attributeValue ∧ a'.valueSpan = some t.span))) ∨
      (t.kind = .attributeName ∧ a'.valueSpan = none) := by
  have hchanges := changes_step s b t inDtd
  rcases Nat.lt_or_ge id b.nodes.size with hid | hid
  · have hold := hchanges.old id hid
    rw [hkind] at hold
    generalize b.kindOf id = k at hold
    cases hold with
    | value hopen hvalue => exact .inl ⟨_, rfl, rfl, .inr ⟨hopen, hvalue, rfl⟩⟩
    | inner _ hother => cases hother
    | _ => exact .inl ⟨_, rfl, rfl, .inl rfl⟩
  · have hnew := hchanges.new id hid
    rw [hkind] at hnew
    cases hnew with
    | inner hother => cases hother
    | _ => exact .inr ⟨‹_›, rfl⟩

theorem Valued.step (h : Valued x b) (hf : Follows s x b) (hr : Reads x pos spaced kind y) (hlt : x.pos < pos) :
    Valued y (step s b ⟨kind, x.pos, pos, fault⟩ y.inDtd) where
  values id a' sp hkind hsp := by
    rcases attribute_of_step hkind with ⟨a, hk, hname, hsame | ⟨hopen, hvalue, hnew⟩⟩ | ⟨-, hnone⟩
    · exact hname ▸ h.values id a sp hk (hsame.symm.trans hsp)
    · obtain rfl : kind = .attributeValue := hvalue
      obtain rfl : Span.mk x.pos pos = sp := Option.some.inj (hnew.symm.trans hsp)
      exact hname ▸ h.assigned hr.mode_of_attributeValue.1 id a hopen hk
    · cases hnone.symm.trans hsp
  assigned hmode id a' hopen hkind := by
    have hpos : y.pos = pos := by cases hr <;> rfl
    rw [hpos]
    have hblank : kind ≠ .attributeName := by
      rintro rfl
      rw [hr.mode_of_attributeName.2] at hmode
      cases hmode
    rcases attribute_of_step hkind with ⟨a, hk, hname, -⟩ | ⟨hnew, -⟩
    · exact hname ▸ Nat.lt_of_le_of_lt (hf.nameSpan_le hk) hlt
    · exact absurd hnew hblank

theorem valued_start (s : String) (dtdFile : Bool) :
    Valued (if dtdFile then .declarations else .document) (start s dtdFile) := by
  have hnone (id : Nat) (a : Attribute) : (start s dtdFile).kindOf id ≠ .attribute a := by
    cases dtdFile with
    | false => rcases id with _ | id <;> rintro ⟨⟩
    | true => rcases id with _ | _ | id <;> rintro ⟨⟩
  exact ⟨fun id a _ hkind => absurd hkind (hnone id a), fun _ id a _ hkind => absurd hkind (hnone id a)⟩

end Builder

namespace Document

open Builder (start behind atEnd)

variable {text uri : String} {d : Document} {id : Nat} {e : Element}

/-- The parts that a document keeps of its elements are in the order of the text. -/
structure OffsetsInOrder (d : Document) : Prop where
  start : ∀ id e p, d.element? id = some e → e.startOpen = some p → (d.span id).start = p
  name : ∀ id e p sp, d.element? id = some e → e.startOpen = some p → e.tagSpan = some sp → p < sp.start
  attributesBehindName : ∀ id e sp, d.element? id = some e → e.tagSpan = some sp →
    ∀ a ∈ e.attributes, sp.stop ≤ (d.span a).start
  attributes : ∀ id e, d.element? id = some e →
    e.attributes.toList.Pairwise fun a b => (d.span a).stop ≤ (d.span b).start
  values : ∀ id e a x sp, d.element? id = some e → a ∈ e.attributes → (d.node a).attribute? = some x →
    x.valueSpan = some sp → x.nameSpan.stop < sp.start
  startClose : ∀ id e p, d.element? id = some e → e.startClose = some p →
    ∀ a ∈ e.attributes, (d.span a).stop ≤ p
  attributesBeforeChildren : ∀ id e, d.element? id = some e →
    ∀ a ∈ e.attributes, ∀ c ∈ d.children id, (d.span a).stop ≤ (d.span c).start
  childrenBehindStartTag : ∀ id e, d.element? id = some e →
    ∀ c ∈ d.children id, d.startTagStop id e ≤ (d.span c).start
  childrenBeforeEndTag : ∀ id e p, d.element? id = some e → e.endOpen = some p →
    ∀ c ∈ d.children id, (d.span c).stop ≤ p
  endOpen : ∀ id e sp p, d.element? id = some e → e.tagSpan = some sp → e.endOpen = some p → sp.stop ≤ p
  endName : ∀ id e p sp, d.element? id = some e → e.endOpen = some p →
    e.endTagSpan = some sp → p + 2 ≤ sp.start
  endClose : ∀ id e sp p, d.element? id = some e → e.endTagSpan = some sp → e.endClose = some p → sp.stop ≤ p
  stopOfSelfClosed : ∀ id e, d.element? id = some e → e.selfClosed = true →
    ∃ p, e.startClose = some p ∧ (d.span id).stop = p + 2
  stopOfClosed : ∀ id e p, d.element? id = some e → e.endClose = some p → (d.span id).stop = p + 1
  apart : ∀ id e offset, d.element? id = some e → e.startClose.isSome = true ∨ e.endOpen = none →
    ¬ (d.isInStartTag id e offset = true ∧ d.isInEndTag id e offset = true)

theorem laidOut_parse (text uri : String) : LaidOut (parse text uri).nodes (Text.size text) := by
  have hf := Builder.follows_start text (isDtdUri uri)
  obtain ⟨y, hl, hpos⟩ := Leads.exists_end text _ hf.boundary
  have hin := Builder.Follows.reads_behind (P := Builder.InOrder)
    (fun hf h hr hlt hsize hlen hnext => h.step hf hr hlt hsize hlen hnext) (fun hf h => h.of_falls hf.fits) hf
    (Builder.inOrder_start text (isDtdUri uri)) hl
  have hlaid := hin.laidOut_atEnd (hf.behind hl) hpos
  rw [parse, Builder.build_eq, Builder.run_eq_behind hl hf.boundary hpos]
  exact hlaid

theorem valued_parse (text uri : String) {n : Node} {a : Attribute} {sp : Span}
    (hn : (parse text uri).nodes[id]? = some n) (hk : n.kind = .attribute a)
    (hsp : a.valueSpan = some sp) : a.nameSpan.stop < sp.start := by
  have hf := Builder.follows_start text (isDtdUri uri)
  obtain ⟨y, hl, hpos⟩ := Leads.exists_end text _ hf.boundary
  rw [parse, Builder.build_eq, Builder.run_eq_behind hl hf.boundary hpos] at hn
  generalize (if isDtdUri uri = true then Lexer.declarations else Lexer.document).tokens text = l at hl hn
  have hvalued := Builder.Follows.reads_behind (P := Builder.Valued) (fun hf h hr hlt _ _ _ => h.step hf hr hlt)
    (fun _ h => h.of_falls) hf (Builder.valued_start text (isDtdUri uri)) hl
  have hretains := Builder.retains_atEnd text (behind text l (start text (isDtdUri uri)))
  have hkind := (Builder.kindOf_eq hn).trans hk
  rcases Nat.lt_or_ge id (behind text l (start text (isDtdUri uri))).nodes.size with hid | hid
  · exact hvalued.values id a sp ((hretains.old id hid).symm.trans hkind) hsp
  · have hplain := hretains.new id hid
    rw [hkind] at hplain
    exact hplain.elim

section parts
variable {n : Node} {edge : Nat} (h : e.Laid d.nodes edge n)
include h

/-- Of two parts of an element, the one that stands before the other in the list ends before that starts. -/
theorem stop_le_start {l r : List Span} (hparts : e.opening d.nodes ++ e.ending = l ++ r) {a b : Span} (ha : a ∈ l)
    (hb : b ∈ r) : a.stop ≤ b.start := by
  have hordered := h.ordered
  rw [hparts] at hordered
  exact (List.pairwise_append.mp hordered).2.2 a ha b hb

theorem start_lt_tagSpan {p : Nat} {sp : Span} (hp : e.startOpen = some p) (hsp : e.tagSpan = some sp) :
    p < sp.start := by
  refine stop_le_start h (l := [⟨p, p + 1⟩]) (r := sp :: (e.attributes.toList.map (spanAt d.nodes) ++
    (e.startClose.map fun p => ⟨p, if e.selfClosed then p + 2 else p + 1⟩).toList ++ e.ending)) ?_
    (List.mem_singleton_self _) List.mem_cons_self
  simp [Element.opening, hp, hsp]

theorem tagSpan_le_attribute {a : Nat} {sp : Span} (hsp : e.tagSpan = some sp) (ha : a ∈ e.attributes) :
    sp.stop ≤ (d.span a).start := by
  refine stop_le_start h (l := (e.startOpen.map fun p => ⟨p, p + 1⟩).toList ++ [sp])
    (r := e.attributes.toList.map (spanAt d.nodes) ++
      ((e.startClose.map fun p => ⟨p, if e.selfClosed then p + 2 else p + 1⟩).toList ++ e.ending)) ?_
    (List.mem_append_right _ (List.mem_singleton_self _))
    (List.mem_append_left _ (List.mem_map_of_mem (by simpa using ha)))
  simp [Element.opening, hsp]

theorem attributes_pairwise : e.attributes.toList.Pairwise fun a b => (d.span a).stop ≤ (d.span b).start := by
  have hopening := (List.pairwise_append.mp h.ordered).1
  rw [Element.opening] at hopening
  exact List.pairwise_map.mp (List.pairwise_append.mp (List.pairwise_append.mp hopening).1).2.1

theorem attribute_le_startClose {a p : Nat} (hp : e.startClose = some p) (ha : a ∈ e.attributes) :
    (d.span a).stop ≤ p := by
  refine stop_le_start h (b := ⟨p, if e.selfClosed then p + 2 else p + 1⟩)
    (l := (e.startOpen.map fun p => ⟨p, p + 1⟩).toList ++ e.tagSpan.toList ++
      e.attributes.toList.map (spanAt d.nodes))
    (r := ⟨p, if e.selfClosed then p + 2 else p + 1⟩ :: e.ending) ?_
    (List.mem_append_right _ (List.mem_map_of_mem (by simpa using ha))) List.mem_cons_self
  simp [Element.opening, hp]

theorem opening_le_endOpen {a : Span} {p : Nat} (ha : a ∈ e.opening d.nodes)
    (hp : e.endOpen = some p) : a.stop ≤ p :=
  stop_le_start h (b := ⟨p, p + 2⟩) rfl ha (by simp [Element.ending, hp])

theorem endOpen_le_endTagSpan {p : Nat} {sp : Span} (hp : e.endOpen = some p) (hsp : e.endTagSpan = some sp) :
    p + 2 ≤ sp.start := by
  refine stop_le_start h (a := ⟨p, p + 2⟩) (l := e.opening d.nodes ++ [⟨p, p + 2⟩])
    (r := sp :: (e.endClose.map fun p => ⟨p, p + 1⟩).toList) ?_
    (List.mem_append_right _ (List.mem_singleton_self _))
    List.mem_cons_self
  simp [Element.ending, hp, hsp]

theorem endTagSpan_le_endClose {p : Nat} {sp : Span} (hsp : e.endTagSpan = some sp) (hp : e.endClose = some p) :
    sp.stop ≤ p := by
  refine stop_le_start h (b := ⟨p, p + 1⟩)
    (l := e.opening d.nodes ++ ((e.endOpen.map fun p => ⟨p, p + 2⟩).toList ++ [sp]))
    (r := [⟨p, p + 1⟩]) ?_
    (List.mem_append_right _ (List.mem_append_right _ (List.mem_singleton_self _)))
    (List.mem_singleton_self _)
  simp [Element.ending, hp, hsp]

theorem not_in_both {offset : Nat} (hclosed : e.startClose.isSome = true ∨ e.endOpen = none) :
    ¬ (d.isInStartTag id e offset = true ∧ d.isInEndTag id e offset = true) := by
  rintro ⟨hstart, hend⟩
  rw [isInEndTag] at hend
  cases hopen : e.endOpen with
  | none => simp [hopen] at hend
  | some p =>
    obtain ⟨q, hq⟩ := Option.isSome_iff_exists.mp (hclosed.resolve_right (by simp [hopen]))
    have hle := opening_le_endOpen h (a := ⟨q, if e.selfClosed then q + 2 else q + 1⟩)
      (by simp [Element.opening, hq]) hopen
    have hqp : q < p := by
      dsimp only at hle
      split at hle <;> omega
    rw [hopen] at hend
    rw [isInStartTag, hq] at hstart
    split at hstart
    · simp at hstart hend
      omega
    · cases hstart

end parts

theorem startTagStop_le {n : Node} {edge c : Nat} (hn : (parse text uri).nodes[id]? = some n)
    (h : e.Laid (parse text uri).nodes edge n) (hc : c ∈ (parse text uri).children id) :
    (parse text uri).startTagStop id e ≤ ((parse text uri).span c).start := by
  have hmem : c ∈ n.children := by simpa [children_eq hn] using hc
  unfold startTagStop
  cases hclose : e.startClose with
  | some p =>
    have hle := h.behind ⟨p, if e.selfClosed then p + 2 else p + 1⟩ (by simp [Element.opening, hclose]) c hmem
    dsimp only at hle ⊢
    split at hle <;> simp_all <;> exact hle
  | none =>
    cases hkids : (parse text uri).children id with
    | nil => simp [hkids] at hc
    | cons first rest =>
      have hdisjoint := disjoint_parse text uri id
      rw [hkids] at hc hdisjoint
      rcases List.mem_cons.mp hc with rfl | hrest
      · exact Nat.le_refl _
      · have hfirst : ((parse text uri).span first).start ≤ ((parse text uri).span first).stop := by
          cases hm : (parse text uri).nodes[first]? with
          | none => rw [Document.span, node_eq_default hm]; exact Nat.le_refl 0
          | some m => exact span_eq hm ▸ (bounds_parse text uri first m hm).1
        exact Nat.le_trans hfirst ((List.pairwise_cons.mp hdisjoint).1 c hrest)

theorem exists_node_of_attribute? {a : Attribute} (h : (d.node id).attribute? = some a) :
    ∃ n, d.nodes[id]? = some n ∧ n.kind = .attribute a := by
  cases hn : d.nodes[id]? with
  | none =>
    rw [node_eq_default hn] at h
    cases h
  | some n =>
    refine ⟨n, rfl, ?_⟩
    rw [node_eq hn, Node.attribute?] at h
    split at h
    · rename_i hk
      rw [hk, Option.some.inj h]
    · cases h

/-- **The offsets of every element are in the order of the text**, whatever the text and the address. -/
theorem parse_inOrder (text uri : String) : (parse text uri).OffsetsInOrder := by
  have hlaid {id : Nat} {e : Element} (he : (parse text uri).element? id = some e) :
      ∃ n, (parse text uri).nodes[id]? = some n ∧ e.Laid (parse text uri).nodes (Text.size text) n := by
    obtain ⟨n, hn, hne⟩ := exists_node_of_element? he
    exact ⟨n, hn, laidOut_parse text uri hn (kind_of_element? hne)⟩
  refine ⟨fun id e p he hp => ?_, fun id e p sp he hp hsp => ?_, fun id e sp he hsp a ha => ?_, fun id e he => ?_,
    fun id e a x sp he ha hx hsp => ?_, fun id e p he hp a ha => ?_, fun id e he a ha c hc => ?_,
    fun id e he c hc => ?_, fun id e p he hp c hc => ?_, fun id e sp p he hsp hp => ?_, fun id e p sp he hp hsp => ?_,
    fun id e sp p he hsp hp => ?_, fun id e he hself => ?_, fun id e p he hp => ?_, fun id e offset he hclosed => ?_⟩
  all_goals obtain ⟨n, hn, h⟩ := hlaid he
  · exact span_eq hn ▸ h.start p hp
  · exact start_lt_tagSpan h hp hsp
  · exact tagSpan_le_attribute h hsp ha
  · exact attributes_pairwise h
  · obtain ⟨m, hm, hk⟩ := exists_node_of_attribute? hx
    exact valued_parse text uri hm hk hsp
  · exact attribute_le_startClose h hp ha
  · have hmem : spanAt (parse text uri).nodes a ∈ e.opening (parse text uri).nodes := by
      simpa [Element.opening] using .inr (.inr (.inl ⟨a, ha, rfl⟩))
    exact h.behind _ hmem c (by simpa [children_eq hn] using hc)
  · exact startTagStop_le hn h hc
  · exact h.inside c (by simpa [children_eq hn] using hc) ⟨p, p + 2⟩ (by simp [Element.ending, hp])
  · exact opening_le_endOpen h (by simp [Element.opening, hsp]) hp
  · exact endOpen_le_endTagSpan h hp hsp
  · exact endTagSpan_le_endClose h hsp hp
  · obtain ⟨p, hp, hstop⟩ := h.selfClosed hself
    exact ⟨p, hp, span_eq hn ▸ hstop⟩
  · exact span_eq hn ▸ h.endClose p hp
  · exact not_in_both h hclosed

end Document

end XmlAssist
