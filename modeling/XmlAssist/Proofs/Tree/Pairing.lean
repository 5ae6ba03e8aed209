import XmlAssist.Proofs.Tree.Elements

/-!
# How tags open and close elements

Every token that can be read does one of six things to the open elements (`Acts`). Most are quiet;
a `<` opens an element, the name behind it names that element, and `/>` closes it; the name of an
end tag closes the nearest open element of that name and leaves all inside it without an end, or
stands alone where there is no such element. `acts_step` reads this off the builder. Whatever is
said about the pairing of tags rests on it and never opens the builder again.
-/

namespace XmlAssist

open Node
open Text (size isBoundary)
open Lexer (Reads Falls)

def Token.written (s : String) (t : Token) : String := Text.slice s t.start t.stop

/-- Tokens of the kind open, name or close elements. -/
def Token.Kind.pairs : Token.Kind → Bool
  | .startTagOpen | .startTagName | .startTagSelfClose | .endTagName => true
  | _ => false

theorem Lexer.Reads.afterStartTagOpen {x y : Lexer} {pos : Nat} {spaced : Bool} {kind : Token.Kind}
    (h : Reads x pos spaced kind y) (hmode : y.mode = .afterStartTagOpen) :
    kind = .startTagOpen ∨ (kind = .blank ∧ x.mode = .afterStartTagOpen) := by
  cases h with
  | blank => exact .inr ⟨rfl, hmode⟩
  | unknown hx =>
    rw [moved_mode] at hmode
    rw [hmode] at hx
    simp at hx
  | content _ hk =>
    rw [moved_mode] at hmode
    subst hmode
    rcases hk with ⟨-, hk⟩ | hk
    · cases hk
    · exact .inl (by simpa [contentOpeners] using hk)
  | declaration _ hk =>
    rw [moved_mode] at hmode
    subst hmode
    rcases hk with ⟨-, hk⟩ | hk
    · cases hk
    · simp [dtdOpeners] at hk
  | attributeValue =>
    rw [moved_mode, tagMode] at hmode
    split at hmode <;> cases hmode
  | commentClose | cdataClose | prologClose | instructionClose =>
    rw [moved_mode, contentMode] at hmode
    split at hmode <;> cases hmode
  | _ => cases hmode

namespace Builder

variable {s : String} {top edge start : Nat} {x y : Lexer} {b b' : Builder} {P E : List Part}
variable {pos : Nat} {spaced : Bool} {mode : Lexer.Mode} {kind : Token.Kind} {k : Kind}
variable {fault : Option Token.Fault} {inDtd : Bool} {e : Element} {t : Token}

/-- What the token does to the open elements. -/
inductive Acts (s : String) (b : Builder) (t : Token) (b' : Builder) : Prop where
  | quiet (kind : t.kind.pairs = false) (same : Quiet b b')
  | opens (kind : t.kind = .startTagOpen) (frame : Frame none b b')
      (opened : b'.opened = (b'.current, { startOpen := some t.start }) :: b.opened)
      (new : b.nodes.size ≤ b'.current)
      (fresh : ∀ id e, b.nodes.size ≤ id → id ≠ b'.current → b'.core id = some e →
        e.tag = none ∧ e.startOpen = none)
  | names {e : Element} {outer : List (Nat × Element)} (kind : t.kind = .startTagName)
      (frame : Frame (some b.current) b b') (size : b'.nodes.size = b.nodes.size)
      (last : b.current + 1 = b.nodes.size) (before : b.opened = (b.current, e) :: outer)
      (unnamed : e.tag = none)
      (opened : b'.opened =
        (b.current, { e with tag := some (t.written s), tagSpan := some t.span }) :: outer)
  | closes {e : Element} {outer : List (Nat × Element)} (kind : t.kind = .startTagSelfClose)
      (frame : Frame (some b.current) b b') (size : b'.nodes.size = b.nodes.size)
      (before : b.opened = (b.current, e) :: outer) (opened : b'.opened = outer)
      (core : b'.core b.current = some { e with selfClosed := true, closed := true })
  | ends (start : Nat) {inner outer : List (Nat × Element)} {id : Nat} {e : Element}
      (kind : t.kind = .endTagName) (frame : Frame (some id) b b')
      (size : b'.nodes.size = b.nodes.size) (before : b.opened = inner ++ (id, e) :: outer)
      (unclosed : ∀ c ∈ chain b.nodes b.current, ∀ e, b.core c = some e → e.closed = false)
      (others : ∀ c ∈ inner, c.2.tag ≠ some (t.written s)) (tag : e.tag = some (t.written s))
      (opened : b'.opened = outer)
      (core : b'.core id =
        some { e with closed := true, endOpen := some start, endTagSpan := some t.span })
      (stop : ∀ c ∈ inner, b'.stopOf c.1 = start)
  | stray (start : Nat) (kind : t.kind = .endTagName) (frame : Frame none b b')
      (size : b'.nodes.size = b.nodes.size + 1)
      (others : ∀ c ∈ chain b.nodes b.current, ∀ e, b.core c = some e → e.tag ≠ some (t.written s))
      (opened : b'.opened = b.opened)
      (chain : chain b'.nodes b.nodes.size = b.nodes.size :: chain b.nodes b.current)
      (core : b'.core b.nodes.size = some (strayElement (t.written s) start t))

theorem Acts.of_same {c : Builder} (h : Acts s b t b') (hnodes : c.nodes = b.nodes)
    (hcurrent : c.current = b.current) : Acts s c t b' := by
  have hsame : Quiet c b := .of_same hnodes.symm hcurrent.symm
  obtain ⟨nodes, current, _, _, _, _, _⟩ := b
  obtain ⟨nodes', current', _, _, _, _, _⟩ := c
  obtain rfl : nodes' = nodes := hnodes
  obtain rfl : current' = current := hcurrent
  cases h with
  | quiet hk hq => exact .quiet hk (hsame.trans hq)
  | opens hk hf h₁ h₂ h₃ => exact .opens hk (hsame.frame hf) h₁ h₂ h₃
  | names hk hf h₁ h₂ h₃ h₄ h₅ => exact .names hk (hsame.frame hf) h₁ h₂ h₃ h₄ h₅
  | closes hk hf h₁ h₂ h₃ h₄ => exact .closes hk (hsame.frame hf) h₁ h₂ h₃ h₄
  | ends o hk hf h₁ h₂ h₃ h₄ h₅ h₆ h₇ h₈ =>
    exact .ends o hk (hsame.frame hf) h₁ h₂ h₃ h₄ h₅ h₆ h₇ h₈
  | stray o hk hf h₁ h₂ h₃ h₄ h₅ => exact .stray o hk (hsame.frame hf) h₁ h₂ h₃ h₄ h₅

/-! ## Start tags -/

theorem core_closed_of_unclosed (h : Unclosed b.nodes b.current) :
    ∀ c ∈ chain b.nodes b.current, ∀ e, b.core c = some e → e.closed = false := by
  intro c hc e he
  obtain ⟨e', hkind, rfl⟩ := core_eq_some.mp he
  obtain ⟨n, hn, hk⟩ := exists_node hkind (by simp)
  have hclosed := h c hc n hn
  rw [hk] at hclosed
  exact hclosed

theorem acts_startTagOpen (hq : Quiet b b') (h : Nested s top b'.nodes b'.current edge)
    (ht : t.kind = .startTagOpen) :
    Acts s b t (b'.openNode (.element { startOpen := some t.start }) t.span) := by
  have hbare : (Kind.element { startOpen := some t.start }).Bare := rfl
  have hframe : Frame none b' (b'.openNode (.element { startOpen := some t.start }) t.span) :=
    frame_openNode h hbare
  refine .opens ht (hq.frame hframe) ?_ ?_ fun id e hle hne he => ?_
  · rw [opened_openNode h hbare, openAmong_cons core_openNode rfl, hq.opened, openNode_current]
    rfl
  · rw [openNode_current]
    exact hq.size_le
  · have hlt := lt_size_of_core he
    rw [show (b'.openNode _ _).nodes.size = b'.nodes.size + 1 from size_grow ..] at hlt
    rw [openNode_current] at hne
    have hlt' : id < b'.nodes.size := by omega
    exact hq.fresh id e hle ((hframe.core id hlt' nofun).symm.trans he)

section current
variable {e' : Element} (hkind : b.kindOf b.current = .element e)
variable (hattr : e'.attributes = e.attributes) (stop : Nat)
include hkind hattr

theorem alike_current : (b.kindOf b.current).Alike (.element e') := by
  rw [hkind]
  exact hattr

theorem frame_update : Frame (some b.current) b (b.update b.current (.element e') stop) := by
  refine frame_modify (fun n hn => ?_) (.inl (mem_chain_self ..))
  have halike := alike_current hkind hattr
  rw [kindOf_eq hn] at halike
  exact halike.sameLinks _

theorem opened_update (hclosed : e.closed = false) :
    ∃ outer, b.opened = (b.current, e.core) :: outer ∧
      (b.update b.current (.element e') stop).opened =
        (b.update b.current (.element e') stop).openAmong [b.current] ++ outer := by
  obtain ⟨outer, hchain, houter⟩ := exists_chain_eq_cons b.nodes b.current
  have hlinks := relinks_update (alike_current hkind hattr) stop
  have hsame : (b.update b.current (.element e') stop).openAmong outer = b.openAmong outer :=
    openAmong_congr fun c hc => core_modify_of_ne (Nat.ne_of_gt (houter c hc))
  refine ⟨b.openAmong outer, ?_, ?_⟩
  · rw [opened, hchain, openAmong_cons (core_of_kindOf hkind) hclosed]
  · show openAmong _ (chain _ b.current) = _
    rw [hlinks.chain, hchain, ← hsame]
    exact List.filterMap_append (l := [b.current])

end current

theorem size_update (id : Nat) (k : Kind) (stop : Nat) :
    (b.update id k stop).nodes.size = b.nodes.size := by
  simp [Builder.update, Builder.modify]

theorem acts_startTagName (hkind : b.kindOf b.current = .element e) (hclosed : e.closed = false)
    (htag : e.tag = none) (hlast : b.current + 1 = b.nodes.size) (ht : t.kind = .startTagName) :
    Acts s b t (b.update b.current
      (.element { e with tag := some (t.written s), tagSpan := some t.span }) t.stop) := by
  generalize he' : { e with tag := some (t.written s), tagSpan := some t.span } = e'
  have hattr : e'.attributes = e.attributes := by rw [← he']
  obtain ⟨outer, hbefore, hafter⟩ := opened_update hkind hattr t.stop hclosed
  have hkind' : (b.update b.current (.element e') t.stop).kindOf b.current = .element e' :=
    kindOf_update hkind (by simp)
  refine .names ht (frame_update hkind hattr t.stop) (size_update ..) hlast hbefore htag ?_
  rw [hafter, openAmong_cons (core_of_kindOf hkind') (by rw [← he']; exact hclosed), ← he']
  rfl

theorem acts_startTagSelfClose (ha : Arena b.nodes) (hkind : b.kindOf b.current = .element e)
    (hclosed : e.closed = false) (ht : t.kind = .startTagSelfClose) :
    Acts s b t (b.update b.current
      (.element { e with startClose := some t.start, selfClosed := true, closed := true })
      t.stop).leave := by
  generalize he' : { e with startClose := some t.start, selfClosed := true, closed := true } = e'
  have hattr : e'.attributes = e.attributes := by rw [← he']
  have hclosed' : e'.core.closed = true := by rw [← he']; rfl
  obtain ⟨outer, hbefore, hafter⟩ := opened_update hkind hattr t.stop hclosed
  have hkind' : (b.update b.current (.element e') t.stop).kindOf b.current = .element e' :=
    kindOf_update hkind (by simp)
  have hcore := core_of_kindOf hkind'
  have hleave : Quiet (b.update b.current (.element e') t.stop)
      (b.update b.current (.element e') t.stop).leave := by
    refine quiet_leave ?_ hkind' (by simp) fun _ h => Option.some.inj h ▸ hclosed'
    exact ha.of_relinks (relinks_update (alike_current hkind hattr) t.stop)
  refine .closes ht ((frame_update hkind hattr t.stop).of_nodes rfl) (size_update ..) hbefore ?_ ?_
  · rw [hleave.opened, hafter, openAmong_cons_of_closed]
    · rfl
    · intro _ h
      exact Option.some.inj (hcore.symm.trans h) ▸ hclosed'
  · refine hcore.trans ?_
    rw [← he']
    rfl

/-! ## The name of an end tag -/

theorem size_reach (nodes : Array Node) (ids : List Nat) (stop : Nat) :
    (reach nodes ids stop).size = nodes.size := by
  induction ids generalizing nodes with
  | nil => rfl
  | cons id ids ih => exact (ih _).trans Array.size_modify

theorem stopOf_reach {ids : List Nat} {c : Nat} (h : Nested s top b.nodes b.current start)
    (hc : c ∈ ids) (hcore : b.core c = some e) (hb : b'.nodes = reach b.nodes ids start) :
    b'.stopOf c = start := by
  obtain ⟨e', hkind, -⟩ := core_eq_some.mp hcore
  obtain ⟨n, hn, -⟩ := exists_node hkind (by simp)
  have hstop := (h.inner hn (top_lt_of_element h hkind)).2
  rw [stopOf, hb, getElem?_reach, hn]
  simp [hc, Span.extendTo, Nat.max_eq_right hstop]

theorem tag_ne_of_isOpenAs {name : String} {c : Nat} (h : b.isOpenAs name c = false)
    (hcore : b.core c = some e) (hclosed : e.closed = false) : e.tag ≠ some name := by
  obtain ⟨e', hkind, rfl⟩ := core_eq_some.mp hcore
  intro htag
  have hopen : b.isOpenAs name c = true := by
    simp only [isOpenAs, hkind]
    rw [show e'.closed = false from hclosed, show e'.tag = some name from htag]
    simp
  rw [h] at hopen
  cases hopen

/-- The builder behind the name of an end tag that starts at `start`. -/
def closeNearest (s : String) (b : Builder) (start : Nat) (t : Token) : Builder :=
  match (chain b.nodes b.current).find? (b.isOpenAs (t.written s)) with
  | some id =>
    b.closeAt ((chain b.nodes b.current).takeWhile (!b.isOpenAs (t.written s) ·)) id start t
  | none => b.openNode (.element (strayElement (t.written s) start t)) ⟨start, t.stop⟩

theorem opened_append {inner outer : List Nat} {id : Nat}
    (hchain : chain b.nodes b.current = inner ++ id :: outer) (hkind : b.kindOf id = .element e)
    (hclosed : e.closed = false) :
    b.opened = b.openAmong inner ++ (id, e.core) :: b.openAmong outer := by
  rw [opened, hchain, ← openAmong_cons (core_of_kindOf hkind) hclosed]
  exact List.filterMap_append

theorem opened_close {inner outer : List Nat} {id : Nat} {e' : Element}
    (hchain : chain b.nodes b.current = inner ++ id :: outer) (hkind : b.kindOf id = .element e)
    (hattr : e'.attributes = e.attributes) (hclosed : e'.closed = true) (stop : Nat) :
    Frame (some id) b { b.update id (.element e') stop with current := id } ∧
      { b.update id (.element e') stop with current := id }.opened = b.openAmong outer ∧
      { b.update id (.element e') stop with current := id }.core id = some e'.core := by
  have halike : (b.kindOf id).Alike (.element e') := by
    rw [hkind]
    exact hattr
  have hid : id ∈ chain b.nodes b.current := by simp [hchain]
  have hframe : Frame (some id) b (b.update id (.element e') stop) := by
    refine frame_modify (fun n hn => ?_) (.inl hid)
    rw [kindOf_eq hn] at halike
    exact halike.sameLinks _
  have hcore : { b.update id (.element e') stop with current := id }.core id = some e'.core :=
    core_of_kindOf (kindOf_update hkind (by simp))
  refine ⟨hframe.of_nodes rfl, ?_, hcore⟩
  obtain ⟨outer', hcons, houter⟩ := exists_chain_eq_cons b.nodes id
  obtain ⟨-, rfl⟩ := List.cons.inj (hcons.symm.trans (chain_of_append hchain))
  rw [opened]
  show openAmong _ (chain (b.update id (.element e') stop).nodes id) = _
  rw [(relinks_update halike stop).chain, hcons, openAmong_cons_of_closed]
  · exact openAmong_congr fun c hc => core_modify_of_ne (Nat.ne_of_gt (houter c hc))
  · intro _ h
    obtain rfl := Option.some.inj (hcore.symm.trans h)
    exact hclosed

theorem closeAt_eq {inner : List Nat} {id : Nat} (hkind : b.kindOf id = .element e) :
    b.closeAt inner id start t =
      { { b with nodes := reach b.nodes inner start }.update id (.element
          { e with closed := true, endOpen := some start, endTagSpan := some t.span }) t.stop with
        current := id } := by
  rw [closeAt, foldl_extend, kindOf_reach, hkind]

section nearest
variable (h : Nested s top b.nodes b.current start) (hunclosed : Unclosed b.nodes b.current)
variable (ht : t.kind = .endTagName)
include h hunclosed ht

theorem acts_closeAt {inner outer : List Nat} {id : Nat}
    (hchain : chain b.nodes b.current = inner ++ id :: outer)
    (hinner : ∀ c ∈ inner, b.isOpenAs (t.written s) c = false)
    (hkind : b.kindOf id = .element e) (hclosed : e.closed = false)
    (htag : e.tag = some (t.written s)) : Acts s b t (b.closeAt inner id start t) := by
  have hmem : ∀ c ∈ inner, c ∈ chain b.nodes b.current := fun c hc => by
    rw [hchain]
    exact List.mem_append_left _ hc
  have hne : ∀ c ∈ inner, id ≠ c := fun c hc heq => by
    have hsorted := chain_pairwise b.nodes b.current
    rw [hchain, List.pairwise_append] at hsorted
    exact Nat.lt_irrefl _ (heq ▸ hsorted.2.2 c hc id List.mem_cons_self)
  have hlt : ∀ c ∈ outer, c < b.nodes.size := fun c hc => by
    obtain ⟨n, hn, -⟩ := h.current_node
    exact lt_size_of_mem_chain (lt_size_of_getElem? hn) (by simp [hchain, hc])
  -- first all inside the element ends at the end tag, which changes nothing else
  have hextend := quiet_foldl_extend hmem start
  rw [foldl_extend] at hextend
  have hchain' : chain (reach b.nodes inner start) b.current = inner ++ id :: outer := by
    rwa [(relinks_reach _ _ _).chain]
  -- then the element gets its end tag
  rw [closeAt_eq hkind]
  generalize he' :
    { e with closed := true, endOpen := some start, endTagSpan := some t.span } = e'
  have hattr : e'.attributes = e.attributes := by rw [← he']
  have hclosed' : e'.closed = true := by rw [← he']
  obtain ⟨hframe, hopened, hcore⟩ :=
    opened_close hchain' ((kindOf_reach b inner start id).trans hkind) hattr hclosed' t.stop
  refine .ends start ht (hextend.frame hframe) ?_ (opened_append hchain hkind hclosed)
    (core_closed_of_unclosed hunclosed) ?_ htag (hopened.trans ?_) (hcore.trans ?_) ?_
  · exact (size_update ..).trans (size_reach ..)
  · rintro ⟨d, e'⟩ hd
    obtain ⟨hd, hcore, hclosed⟩ := mem_openAmong.mp hd
    exact tag_ne_of_isOpenAs (hinner d hd) hcore hclosed
  · exact openAmong_congr fun d hd => hextend.core d (hlt d hd) nofun
  · rw [← he']
    rfl
  · rintro ⟨d, e'⟩ hd
    obtain ⟨hd, hcore, -⟩ := mem_openAmong.mp hd
    exact (stopOf_modify_of_ne (hne d hd)).trans (stopOf_reach h hd hcore rfl)

theorem acts_stray (hnone : ∀ c ∈ chain b.nodes b.current, b.isOpenAs (t.written s) c = false) :
    Acts s b t (b.openNode (.element (strayElement (t.written s) start t)) ⟨start, t.stop⟩) := by
  have hbare : (Kind.element (strayElement (t.written s) start t)).Bare := rfl
  refine .stray start ht (frame_openNode h hbare) (size_grow ..) (fun c hc e he => ?_) ?_
    (chain_openNode h hbare) core_openNode
  · exact tag_ne_of_isOpenAs (hnone c hc) he (core_closed_of_unclosed hunclosed c hc e he)
  · rw [opened_openNode h hbare, openAmong_cons_of_closed]
    · rfl
    · intro e he
      obtain rfl := Option.some.inj (core_openNode.symm.trans he)
      rfl

theorem acts_closeNearest : Acts s b t (closeNearest s b start t) := by
  unfold closeNearest
  split
  · rename_i id hid
    obtain ⟨hopen, inner, outer, hchain, hinner⟩ := List.find?_eq_some_iff_append.mp hid
    obtain ⟨e, hkind, hclosed, htag⟩ := element_of_isOpenAs hopen
    have htake : (chain b.nodes b.current).takeWhile (!b.isOpenAs (t.written s) ·) = inner := by
      rw [hchain, List.takeWhile_append_of_pos hinner]
      simp [hopen]
    rw [htake]
    exact acts_closeAt h hunclosed ht hchain (by simpa using hinner) hkind hclosed htag
  · rename_i hnone
    refine acts_stray h hunclosed ht fun c hc => ?_
    simpa using List.find?_eq_none.mp hnone c hc

end nearest

theorem acts_endTag (h : b.Pending s top start start) (ht : t.kind = .endTagName) :
    Acts s b t (endTag s b t) := by
  have hacts := acts_closeNearest (b := { b with endTagOpen := none }) h.nested h.unclosed ht
  rw [show endTag s b t = closeNearest s { b with endTagOpen := none } start t from
    endTag_eq h.endTagOpen]
  exact hacts.of_same rfl rfl

/-! ## New markup -/

theorem Fits.acts_content (hc : x.Consistent) (h : Fits s x b) (hr : b.Records s x.pos P E)
    (hx : isBoundary s x.pos = true) (hy : x.YieldsToContent) (hk : Lexer.StartsContent kind mode)
    (hin : inDtd = false) :
    Acts s b ⟨kind, x.pos, pos, fault⟩ (Builder.step s b ⟨kind, x.pos, pos, fault⟩ inDtd) := by
  subst hin
  obtain ⟨hsteady, -⟩ := h.beforeContent hc hy
  have hbefore := h.quiet_beforeContent hc hr hx hy
  have hopen (k : Kind) (hk : k.Bare) (hnone : k.core = none) :
      Quiet b ((b.beforeMarkup x.pos false).openNode k ⟨x.pos, pos⟩) :=
    hbefore.trans (quiet_openNode hsteady.nested hk hnone)
  rcases hk with ⟨rfl, rfl⟩ | hk
  · rw [step_text]
    exact .quiet rfl (hbefore.trans (quiet_append hsteady.nested trivial (forall_core rfl)))
  · simp only [Lexer.contentOpeners, List.map_cons, List.map_nil, List.mem_cons, Prod.mk.injEq,
      List.not_mem_nil, or_false] at hk
    rcases hk with ⟨rfl, rfl⟩ | ⟨rfl, rfl⟩ | ⟨rfl, rfl⟩ | ⟨rfl, rfl⟩ | ⟨rfl, rfl⟩ | ⟨rfl, rfl⟩
    · rw [step_commentOpen]
      exact .quiet rfl (hopen _ trivial rfl)
    · rw [step_cdataOpen]
      exact .quiet rfl (hopen _ trivial rfl)
    · rw [step_doctypeOpen]
      exact .quiet rfl ((hopen (.doctype {}) trivial rfl).trans (.of_same rfl rfl))
    · rw [step_endTagOpen]
      exact .quiet rfl (hbefore.trans (.of_same rfl rfl))
    · rw [step_instructionOpen]
      exact .quiet rfl (hopen _ rfl rfl)
    · rw [step_startTagOpen]
      exact acts_startTagOpen (t := ⟨.startTagOpen, x.pos, pos, fault⟩) hbefore hsteady.nested rfl

theorem Fits.quiet_openDeclaration (h : Fits s x b) (hy : x.YieldsToDeclaration)
    (body : Declaration.Body) : Quiet b (b.openDeclaration t body) := by
  have hsteady := (h.leaveDeclaration hy).1
  unfold openDeclaration
  rw [hsteady.leaveClosedElement_eq]
  have hopen : Quiet b (b.leaveDeclaration.openNode (.declaration { body }) t.span) :=
    h.quiet_leaveDeclaration.trans (quiet_openNode hsteady.nested trivial rfl)
  exact hopen.trans (.of_same rfl rfl)

theorem Fits.acts_declaration (hc : x.Consistent) (h : Fits s x b) (hy : x.YieldsToDeclaration)
    (hk : Lexer.StartsDeclaration kind mode) (hin : inDtd = true) :
    Acts s b ⟨kind, x.pos, pos, fault⟩ (Builder.step s b ⟨kind, x.pos, pos, fault⟩ inDtd) := by
  subst hin
  obtain ⟨hsteady, -⟩ := h.beforeDeclaration hc hy
  have hbefore := h.quiet_beforeDeclaration hc hy
  have hopen (k : Kind) (hk : k.Bare) (hnone : k.core = none) :
      Quiet b ((b.beforeMarkup x.pos true).openNode k ⟨x.pos, pos⟩) :=
    hbefore.trans (quiet_openNode hsteady.nested hk hnone)
  rcases hk with ⟨rfl, rfl⟩ | hk
  · rw [step_text]
    exact .quiet rfl (hbefore.trans (quiet_append hsteady.nested trivial (forall_core rfl)))
  · simp only [Lexer.dtdOpeners, List.map_cons, List.map_nil, List.mem_cons, Prod.mk.injEq,
      List.not_mem_nil, or_false] at hk
    rcases hk with ⟨rfl, rfl⟩ | ⟨rfl, rfl⟩ | ⟨rfl, rfl⟩ | ⟨rfl, rfl⟩ | ⟨rfl, rfl⟩ | ⟨rfl, rfl⟩
    · rw [step_dtd]
      exact .quiet rfl (h.quiet_openDeclaration hy _)
    · rw [step_dtd]
      exact .quiet rfl (h.quiet_openDeclaration hy _)
    · rw [step_dtd]
      exact .quiet rfl (h.quiet_openDeclaration hy _)
    · rw [step_dtd]
      exact .quiet rfl (h.quiet_openDeclaration hy _)
    · rw [step_commentOpen]
      exact .quiet rfl (hopen _ trivial rfl)
    · rw [step_instructionOpen]
      exact .quiet rfl (hopen _ rfl rfl)

/-! ## Inside a tag -/

theorem core_withAttribute {id : Nat} {k' : Kind} (h : withAttribute id k = some k') :
    k'.core = k.core := by
  cases k with
  | element e =>
    obtain rfl := Option.some.inj h
    rfl
  | instruction i =>
    simp only [withAttribute] at h
    split at h
    · obtain rfl := Option.some.inj h
      rfl
    · cases h
  | _ => cases h

theorem quiet_attributeName {inProlog : Bool} (h : Nested s top b.nodes b.current edge)
    (ho : Owns inProlog (b.kindOf b.current)) : Quiet b (attributeName s b t) := by
  obtain ⟨k, hk, -⟩ := ho.withAttribute (s := s) b.nodes.size (Nat.le_refl 0)
  obtain ⟨m, hm, -⟩ := h.current_node
  rw [attributeName_eq hk]
  rw [kindOf_eq hm] at hk
  exact quiet_grow (f := withKind k t.stop) (n := attributeNode s t b.current)
    (adds_attribute h.rightmost hm hk) (core_withAttribute hk) (forall_core rfl) rfl
    (.inl rfl)

theorem quiet_assign (h : b.Awaits) : Quiet b (assign b t) := by
  obtain ⟨id, a, hid, -, hkind, -⟩ := h
  rw [assign_eq hid hkind]
  have hmark : Quiet b (b.modify id (markDelimiter a)) := by
    refine quiet_modify (fun n hn => ?_) (fun n hn => ?_) (.inr (by rw [core, hkind]; rfl))
    all_goals rw [kindOf_eq hn] at hkind
    · exact Kind.Alike.sameLinks (by rw [hkind]; trivial) n.span
    · rw [hkind]
      rfl
  exact hmark.trans (quiet_extend (.inl (mem_chain_self ..)))

theorem quiet_attributeValue (h : b.Awaits) : Quiet b (attributeValue s b t) := by
  obtain ⟨id, a, hid, -, hkind, -⟩ := h
  rw [attributeValue_eq hid hkind]
  have hforget : Quiet b { b with openAttribute := none } := .of_same rfl rfl
  have hkind' : { b with openAttribute := none }.kindOf id = .attribute a := hkind
  have hvalue : Quiet { b with openAttribute := none } ({ b with openAttribute := none }.update id
      (.attribute (a.withValue (Text.slice s t.start t.stop) t.span)) t.stop) := by
    refine quiet_update ?_ ?_ (.inr ?_)
    · rw [hkind']
      trivial
    · rw [hkind']
      rfl
    · rw [core, hkind']
      rfl
  exact (hforget.trans hvalue).trans (quiet_extend (.inl (mem_chain_self ..)))

theorem quiet_unknown {i j : Nat} : Quiet b (step s b ⟨.unknown, i, j, fault⟩ inDtd) := by
  cases hkind : b.kindOf b.current with
  | element e =>
    simp only [step, tagToken, hkind]
    split
    · exact quiet_extend (.inl (mem_chain_self ..))
    · exact .refl b
  | _ =>
    simp only [step, tagToken, hkind]
    exact .refl b

theorem quiet_startTagClose {i j : Nat} (hkind : b.kindOf b.current = .element e) :
    Quiet b (step s b ⟨.startTagClose, i, j, fault⟩ inDtd) := by
  rw [step_startTagClose hkind]
  have hforget : Quiet b { b with openAttribute := none } := .of_same rfl rfl
  exact hforget.trans (quiet_adjust (b := { b with openAttribute := none }) hkind rfl rfl)

theorem Closing.quiet_endTagClose {i j : Nat} (h : b.Closing s top edge) :
    Quiet b (step s b ⟨.endTagClose, i, j, fault⟩ inDtd) := by
  obtain ⟨e, hkind, hclosed, hend⟩ := h.kind
  rw [step_endTagClose hkind h.endTagOpen hclosed hend]
  refine quiet_finish h.nested.arena hkind rfl (by simp) rfl fun _ he => ?_
  obtain rfl := Option.some.inj he
  exact hclosed

theorem Pending.quiet_endTagClose {i j : Nat} (h : b.Pending s top start edge) :
    Quiet b (step s b ⟨.endTagClose, i, j, fault⟩ inDtd) := by
  simp only [step, tagToken, h.endTagOpen, Option.isSome_some, if_true]
  exact quiet_flushEndTag h.nested _ _

/-! ## Inside other markup -/

section sections
variable {i j : Nat} {c : Enclosed} {p : Instruction} (ha : Arena b.nodes)

theorem quiet_enclosedText (hc : b.kindOf b.current = .comment c ∨ b.kindOf b.current = .cdata c)
    (hk : kind = .commentText ∨ kind = .cdataText) :
    Quiet b (step s b ⟨kind, i, j, fault⟩ inDtd) := by
  rcases hc with hc | hc
  · rw [step_text_of_comment hc hk]
    exact quiet_adjust hc trivial rfl
  · rw [step_text_of_cdata hc hk]
    exact quiet_adjust hc trivial rfl

include ha in
theorem quiet_enclosedClose (hc : b.kindOf b.current = .comment c ∨ b.kindOf b.current = .cdata c)
    (hk : kind = .commentClose ∨ kind = .cdataClose) :
    Quiet b (step s b ⟨kind, i, j, fault⟩ inDtd) := by
  rcases hc with hc | hc
  · rw [step_close_of_comment hc hk]
    exact quiet_finish ha hc trivial (by simp) rfl (forall_core rfl)
  · rw [step_close_of_cdata hc hk]
    exact quiet_finish ha hc trivial (by simp) rfl (forall_core rfl)

include ha in
theorem quiet_instructionClose (hp : b.kindOf b.current = .instruction p)
    (hk : kind = .instructionClose ∨ kind = .prologClose) :
    Quiet b (step s b ⟨kind, i, j, fault⟩ inDtd) := by
  rw [step_close_of_instruction hp hk]
  have hforget : Quiet b { b with openAttribute := none } := .of_same rfl rfl
  exact hforget.trans (quiet_finish (b := { b with openAttribute := none }) ha hp ⟨rfl, id⟩ (by simp)
    rfl (forall_core rfl))

end sections

/-! ## Inside a document type -/

theorem Records.quiet_onDoctype (h : b.Records s edge P E) (g : Doctype → Doctype) :
    Quiet b (b.onDoctype t g) := by
  unfold Builder.onDoctype
  split
  · rename_i id hid
    obtain ⟨d, hd⟩ := h.kindOf_doctype hid
    rw [hd]
    exact quiet_update (by rw [hd]; trivial) (by rw [hd]; rfl) (.inr (by rw [core, hd]; rfl))
  · exact .refl b

theorem Records.quiet_doctypeClose (h : b.Records s edge P E) (hs : b.Steady s 0 edge)
    (hd : AtDoctype false true false b) : Quiet b (dtdToken s b .doctypeClose t inDtd) := by
  simp only [dtdToken, leaveDeclaration_eq hs.declaration]
  have hon := h.quiet_onDoctype (t := t) fun d => { d with closed := true }
  have hkeeps := keeps_onDoctype (b := b) (t := t) (g := fun d => { d with closed := true })
  cases hi : b.doctype with
  | none => exact .refl b
  | some i =>
    obtain ⟨-, -, hcurrent⟩ := hd i hi
    obtain rfl := Option.some.inj hcurrent
    obtain ⟨d, hkind⟩ := h.kindOf_doctype hi
    refine hon.trans (quiet_goTo (k := .doctype { d with closed := true })
      (hs.nested.arena.of_relinks hkeeps.links) ?_ (by simp) (forall_core rfl) rfl ?_)
    · rw [hkeeps.current]
      simp only [Builder.onDoctype, hi, hkind]
      exact kindOf_update hkind (by simp)
    · rw [hkeeps.current]

theorem Records.quiet_doctypeParameter {k : Token.DtdKind} (h : b.Records s edge P E)
    (hnone : b.declaration = none) (hk : k ∈ Lexer.doctypeParameters) :
    Quiet b (dtdToken s b k t inDtd) := by
  have hon (k : Token.DtdKind) := h.quiet_onDoctype (t := t) (addDoctypeParameter k (parameter s t))
  simp only [Lexer.doctypeParameters, List.mem_cons, List.not_mem_nil, or_false] at hk
  rcases hk with rfl | rfl | rfl | rfl | rfl | rfl
  case inr.inr.inr.inr.inr =>
    simp only [dtdToken, Builder.unrecognized, hnone, Option.none_or]
    split
    · rename_i id hid
      obtain ⟨d, hd⟩ := h.kindOf_doctype hid
      rw [hd]
      exact quiet_update (by rw [hd]; trivial) (by rw [hd]; rfl) (.inr (by rw [core, hd]; rfl))
    · exact .refl b
  all_goals exact hon _

theorem Declaring.quiet_close (h : b.Declaring s top edge) :
    Quiet b (dtdToken s b .declarationClose t inDtd) := by
  obtain ⟨d, hd⟩ := h.kind
  have hstep : dtdToken s b .declarationClose t inDtd =
      ({ b with declaration := none }.update b.current (.declaration { d with closed := true })
        t.stop).leave := by
    simp only [dtdToken, h.declaration, hd]
    rfl
  have hforget : Quiet b { b with declaration := none } := .of_same rfl rfl
  rw [hstep]
  exact hforget.trans (quiet_finish (b := { b with declaration := none }) h.steady.nested.arena hd
    trivial (by simp) rfl (forall_core rfl))

theorem Declaring.quiet_step {k : Token.DtdKind} (h : b.Declaring s top edge)
    (hk : k ∈ Lexer.declarationParameters) : Quiet b (dtdToken s b k t inDtd) := by
  obtain ⟨d, hd⟩ := h.kind
  have hparameter (k : Token.DtdKind) : Quiet b (declarationParameter s b k t) := by
    rw [declarationParameter_eq h.declaration hd]
    have hmark : Quiet b (b.markContent k t) :=
      .of_same (markContent_nodes k t) (markContent_current k t)
    have hd' : (b.markContent k t).kindOf (b.markContent k t).current = .declaration d := by
      rwa [kindOf, markContent_nodes, markContent_current]
    have hadjust (d' : Declaration) : Quiet (b.markContent k t) ((b.markContent k t).update
        (b.markContent k t).current (.declaration d') t.stop) := quiet_adjust hd' trivial rfl
    rw [markContent_current] at hadjust
    exact hmark.trans (hadjust _)
  simp only [Lexer.declarationParameters, List.mem_cons, List.not_mem_nil, or_false] at hk
  rcases hk with rfl | rfl | rfl | rfl | rfl | rfl | rfl | rfl | rfl | rfl | rfl | rfl | rfl | rfl |
    rfl | rfl | rfl | rfl | rfl | rfl | rfl | rfl
  case inr.inr.inr.inr.inr.inr.inr.inr.inr.inr.inr.inr.inr.inr.inr.inr.inr.inr.inr.inr.inr =>
    simp only [dtdToken, Builder.unrecognized, h.declaration, Option.some_or, hd]
    exact quiet_adjust hd trivial rfl
  all_goals exact hparameter _

/-! ## A step -/

/-- An element whose `<` is all that has been read has no name. -/
def Unnamed (x : Lexer) (b : Builder) : Prop :=
  x.mode = .afterStartTagOpen → ∀ e, b.core b.current = some e → e.tag = none

theorem Fits.acts_startTagName (hf : Fits s x b) (hd : Detail x b) (hu : Unnamed x b)
    (hmode : x.mode = .afterStartTagOpen) :
    Acts s b ⟨.startTagName, x.pos, pos, fault⟩
      (Builder.step s b ⟨.startTagName, x.pos, pos, fault⟩ inDtd) := by
  obtain ⟨hsteady, -⟩ := hf.inTag (.inl hmode)
  obtain ⟨hlast, e, hkind, -⟩ := hd.afterStartTagOpen hmode
  have hcore := core_of_kindOf hkind
  have hclosed := core_closed_of_unclosed hsteady.unclosed _ (mem_chain_self ..) _ hcore
  rw [step_startTagName hkind]
  exact Builder.acts_startTagName (t := ⟨.startTagName, x.pos, pos, fault⟩) hkind hclosed
    (hu hmode e.core hcore) hlast rfl

theorem Fits.acts_startTagSelfClose (hc : x.Consistent) (hf : Fits s x b) (hd : Detail x b)
    (hmode : x.mode = .inTag) :
    Acts s b ⟨.startTagSelfClose, x.pos, pos, fault⟩
      (Builder.step s b ⟨.startTagSelfClose, x.pos, pos, fault⟩ inDtd) := by
  obtain ⟨hsteady, -⟩ := hf.inTag (.inr (.inl hmode))
  obtain ⟨e, hkind⟩ := hd.inTag hc hmode
  have hclosed := core_closed_of_unclosed hsteady.unclosed _ (mem_chain_self ..) _
    (core_of_kindOf hkind)
  rw [step_startTagSelfClose hkind]
  exact (Builder.acts_startTagSelfClose (b := { b with openAttribute := none })
    (t := ⟨.startTagSelfClose, x.pos, pos, fault⟩) hsteady.nested.arena hkind hclosed rfl).of_same rfl rfl

theorem Records.quiet_close_doctype {stage : Lexer.DoctypeStage} (hc : x.Consistent) (hf : Fits s x b)
    (h : b.Records s x.pos P E) (hmode : x.mode = .doctype stage) :
    Quiet b (Builder.step s b ⟨.dtd .doctypeClose, x.pos, pos, fault⟩ inDtd) := by
  have hsteady := hf.inDoctype hmode
  have hd := hf.doctype
  have hm := hc.mode
  simp only [Lexer.Agrees, hmode] at hm
  have hfile := Lexer.dtdFile_eq_false hm.2.1
  rw [hmode, hfile] at hd
  rw [hfile] at hsteady
  rw [step_dtd]
  exact h.quiet_doctypeClose hsteady hd.weaken

/-- **Every token that can be read does one of six things to the open elements.** -/
theorem acts_step (hc : x.Consistent) (hf : Fits s x b) (hd : Detail x b) (hu : Unnamed x b)
    (h : b.Records s x.pos P E) (hr : Reads x pos spaced kind y) (hx : isBoundary s x.pos = true) :
    Acts s b ⟨kind, x.pos, pos, fault⟩ (step s b ⟨kind, x.pos, pos, fault⟩ y.inDtd) := by
  obtain ⟨edge, hn⟩ := hf.nested
  cases hr with
  | blank => exact .quiet rfl (.refl b)
  | content hy hk =>
    have hfile := hc.dtdFile_of_yieldsToContent hy
    exact hf.acts_content hc h hx hy hk (by simp [Lexer.inDtd, hfile])
  | declaration hy hk =>
    exact hf.acts_declaration hc hy hk (hc.inDtd_of_yieldsToDeclaration hy)
  | startTagName hmode => exact hf.acts_startTagName hd hu hmode
  | startTagClose hmode =>
    obtain ⟨e, hkind⟩ := hd.inTag hc hmode
    exact .quiet rfl (quiet_startTagClose hkind)
  | startTagSelfClose hmode => exact hf.acts_startTagSelfClose hc hd hmode
  | endTagName hmode =>
    obtain ⟨start, -, hpending⟩ := hf.afterEndTagOpen hmode
    rw [step_endTagName]
    exact acts_endTag (t := ⟨.endTagName, x.pos, pos, fault⟩) hpending rfl
  | endTagClose hmode =>
    rcases hf.inEndTag hmode with ⟨start, -, hpending⟩ | hclosing
    · exact .quiet rfl hpending.quiet_endTagClose
    · exact .quiet rfl hclosing.quiet_endTagClose
  | unknown => exact .quiet rfl quiet_unknown
  | attributeName hmode =>
    rw [step_attributeName]
    exact .quiet rfl (quiet_attributeName hn (hd.owns hmode))
  | assign hmode =>
    rw [step_assign]
    exact .quiet rfl (quiet_assign (hd.awaits (.inl hmode)).2)
  | attributeValue hmode =>
    rw [step_attributeValue]
    exact .quiet rfl (quiet_attributeValue (hd.awaits (.inr hmode)).2)
  | commentText hmode =>
    obtain ⟨-, c, hkind⟩ := hf.inEnclosed (.inl hmode)
    exact .quiet rfl (quiet_enclosedText hkind (.inl rfl))
  | cdataText hmode =>
    obtain ⟨-, c, hkind⟩ := hf.inEnclosed (.inr hmode)
    exact .quiet rfl (quiet_enclosedText hkind (.inr rfl))
  | commentClose hmode =>
    obtain ⟨-, c, hkind⟩ := hf.inEnclosed (.inl hmode)
    exact .quiet rfl (quiet_enclosedClose hn.arena hkind (.inl rfl))
  | cdataClose hmode =>
    obtain ⟨-, c, hkind⟩ := hf.inEnclosed (.inr hmode)
    exact .quiet rfl (quiet_enclosedClose hn.arena hkind (.inr rfl))
  | prologName hmode =>
    obtain ⟨-, -, p, hkind, -⟩ := hf.afterInstructionOpen hmode
    rw [step_prologName hkind]
    exact .quiet rfl (quiet_adjust hkind ⟨rfl, fun _ => rfl⟩ rfl)
  | prologClose hmode =>
    obtain ⟨p, hkind, -⟩ := hd.inProlog hc hmode
    exact .quiet rfl (quiet_instructionClose hn.arena hkind (.inr rfl))
  | instructionTarget hmode =>
    obtain ⟨-, -, p, hkind, hprolog⟩ := hf.afterInstructionOpen hmode
    rw [step_instructionTarget hkind]
    exact .quiet rfl (quiet_adjust hkind ⟨rfl, by simp [hprolog]⟩ rfl)
  | instructionContent hmode =>
    obtain ⟨-, p, hkind⟩ := hf.inInstruction hmode
    rw [step_instructionContent hkind]
    exact .quiet rfl (quiet_adjust hkind ⟨rfl, fun hprolog => hprolog⟩ rfl)
  | instructionClose hmode =>
    obtain ⟨-, p, hkind⟩ := hf.inInstruction hmode
    exact .quiet rfl (quiet_instructionClose hn.arena hkind (.inl rfl))
  | subsetOpen =>
    rw [step_dtd]
    exact .quiet rfl (h.quiet_onDoctype _)
  | subsetClose =>
    rw [step_dtd]
    exact .quiet rfl (hf.quiet_leaveDeclaration.trans (h.leaveDeclaration.quiet_onDoctype _))
  | doctypeClose hmode => exact .quiet rfl (h.quiet_close_doctype hc hf hmode)
  | doctypeParameter hmode hk =>
    rw [step_dtd]
    exact .quiet rfl (h.quiet_doctypeParameter (hf.inDoctype hmode).declaration hk)
  | declarationClose hmode =>
    rw [step_dtd]
    exact .quiet rfl (hf.inDeclaration hmode).quiet_close
  | declarationParameter hmode hk =>
    rw [step_dtd]
    exact .quiet rfl ((hf.inDeclaration hmode).quiet_step hk)

theorem Acts.core_current (h : Acts s b t b') (ht : t.kind = .startTagOpen) :
    b'.core b'.current = some { startOpen := some t.start } := by
  cases h with
  | quiet hk => simp [ht, Token.Kind.pairs] at hk
  | opens _ _ hopened =>
    refine (mem_opened.mp ?_).2.1
    rw [hopened]
    exact List.mem_cons_self
  | names hk | closes hk | ends _ hk | stray _ hk =>
    rw [ht] at hk
    cases hk

theorem Unnamed.of_falls (hf : Falls x spaced y) : Unnamed y b := by
  intro hmode
  cases hf with
  | startTag | endTag | instruction => cases hmode
  | backInTag =>
    rw [Lexer.moved_mode, Lexer.tagMode] at hmode
    split at hmode <;> cases hmode

theorem Unnamed.acts_step (h : Unnamed x b) (hc : x.Consistent) (hf : Fits s x b) (hd : Detail x b)
    (hrecords : b.Records s x.pos P E) (hr : Reads x pos spaced kind y)
    (hx : isBoundary s x.pos = true) :
    Acts s b ⟨kind, x.pos, pos, fault⟩ (step s b ⟨kind, x.pos, pos, fault⟩ y.inDtd) ∧
      Unnamed y (step s b ⟨kind, x.pos, pos, fault⟩ y.inDtd) := by
  have ha : Acts s b ⟨kind, x.pos, pos, fault⟩ (step s b ⟨kind, x.pos, pos, fault⟩ y.inDtd) :=
    Builder.acts_step hc hf hd h hrecords hr hx
  refine ⟨ha, fun hmode e he => ?_⟩
  rcases hr.afterStartTagOpen hmode with rfl | ⟨rfl, hx⟩
  · obtain rfl := Option.some.inj ((ha.core_current rfl).symm.trans he)
    rfl
  · exact h hx e he

/-! ## The whole text -/

/-- The builder has come as far as the lexer, and its elements are as their tags say. -/
structure Follows (s : String) (x : Lexer) (b : Builder) : Prop where
  boundary : isBoundary s x.pos = true
  consistent : x.Consistent
  fits : Fits s x b
  detail : Detail x b
  records : ∃ P E, b.Records s x.pos P E
  unnamed : Unnamed x b
  started : ∀ id e, (id, e) ∈ b.opened →
    e.startOpen.isSome = true ∧ e.endOpen = none ∧ e.selfClosed = false
  tagged : ∀ id e, b.core id = some e → e.startOpen.isSome = true → e.tag.isSome = true →
    e.tagSpan.isSome = true

theorem Acts.started (h : Acts s b t b') (hs : ∀ id e, (id, e) ∈ b.opened →
      e.startOpen.isSome = true ∧ e.endOpen = none ∧ e.selfClosed = false) :
    ∀ id e, (id, e) ∈ b'.opened →
      e.startOpen.isSome = true ∧ e.endOpen = none ∧ e.selfClosed = false := by
  intro id e he
  cases h with
  | quiet _ hq => exact hs id e (hq.opened ▸ he)
  | opens _ _ hopened =>
    rw [hopened, List.mem_cons] at he
    rcases he with he | he
    · obtain ⟨-, rfl⟩ := Prod.mk.inj he
      exact ⟨rfl, rfl, rfl⟩
    · exact hs id e he
  | names _ _ _ _ hbefore _ hopened =>
    rw [hbefore] at hs
    rw [hopened, List.mem_cons] at he
    rcases he with he | he
    · have hcurrent := hs _ _ List.mem_cons_self
      obtain ⟨-, rfl⟩ := Prod.mk.inj he
      exact hcurrent
    · exact hs id e (List.mem_cons_of_mem _ he)
  | closes _ _ _ hbefore hopened =>
    rw [hbefore] at hs
    exact hs id e (List.mem_cons_of_mem _ (hopened ▸ he))
  | ends _ _ _ _ hbefore _ _ _ hopened =>
    rw [hbefore] at hs
    exact hs id e (List.mem_append_right _ (List.mem_cons_of_mem _ (hopened ▸ he)))
  | stray _ _ _ _ _ hopened => exact hs id e (hopened ▸ he)

theorem core_of_opened {id : Nat} {l r : List (Nat × Element)} (h : b.opened = l ++ (id, e) :: r) :
    b.core id = some e := (mem_opened.mp (h ▸ by simp)).2.1

/-- What holds of every element, of each new one and of each open one that gets its name or its end holds of all
elements behind the token. -/
theorem Acts.forall_core {Q : Element → Prop} (h : Acts s b t b') (hs : ∀ id e, b.core id = some e → Q e)
    (hnameless : ∀ e, e.tag = none → e.startOpen = none → Q e) (hopens : Q { startOpen := some t.start })
    (hnames : ∀ id e, (id, e) ∈ b.opened → Q e → Q { e with tag := some (t.written s), tagSpan := some t.span })
    (hcloses : ∀ id e, (id, e) ∈ b.opened → Q e → Q { e with selfClosed := true, closed := true })
    (hends : ∀ id e start, (id, e) ∈ b.opened → Q e →
      Q { e with closed := true, endOpen := some start, endTagSpan := some t.span })
    (hstray : ∀ start, Q (strayElement (t.written s) start t)) : ∀ id e, b'.core id = some e → Q e := by
  intro id e he
  have hlt := lt_size_of_core he
  cases h with
  | quiet _ hq =>
    rcases Nat.lt_or_ge id b.nodes.size with hid | hid
    · exact hs id e (hq.core id hid (by rintro ⟨⟩) ▸ he)
    · obtain ⟨htag, hstart⟩ := hq.fresh id e hid he
      exact hnameless e htag hstart
  | opens _ hf hopened _ hfresh =>
    by_cases hcurrent : id = b'.current
    · obtain rfl := Option.some.inj ((core_of_opened (l := []) hopened).symm.trans (hcurrent ▸ he))
      exact hopens
    · rcases Nat.lt_or_ge id b.nodes.size with hid | hid
      · exact hs id e (hf.core id hid (by rintro ⟨⟩) ▸ he)
      · obtain ⟨htag, hstart⟩ := hfresh id e hid hcurrent he
        exact hnameless e htag hstart
  | names _ hf hsize _ hbefore _ hopened =>
    by_cases hcurrent : b.current = id
    · obtain rfl := Option.some.inj ((core_of_opened (l := []) hopened).symm.trans (hcurrent ▸ he))
      exact hnames b.current _ (by simp [hbefore]) (hs _ _ (core_of_opened (l := []) hbefore))
    · exact hs id e (hf.core id (hsize ▸ hlt) (by simpa using hcurrent) ▸ he)
  | closes _ hf hsize hbefore _ hcore =>
    by_cases hcurrent : b.current = id
    · obtain rfl := Option.some.inj (hcore.symm.trans (hcurrent ▸ he))
      exact hcloses b.current _ (by simp [hbefore]) (hs _ _ (core_of_opened (l := []) hbefore))
    · exact hs id e (hf.core id (hsize ▸ hlt) (by simpa using hcurrent) ▸ he)
  | @ends start _ _ a _ _ hf hsize hbefore _ _ _ _ hcore =>
    by_cases hid : a = id
    · obtain rfl := Option.some.inj (hcore.symm.trans (hid ▸ he))
      exact hends a _ start (by simp [hbefore]) (hs _ _ (core_of_opened hbefore))
    · exact hs id e (hf.core id (hsize ▸ hlt) (by simpa using hid) ▸ he)
  | stray start _ hf hsize _ _ _ hcore =>
    by_cases hid : id = b.nodes.size
    · obtain rfl := Option.some.inj (hcore.symm.trans (hid ▸ he))
      exact hstray start
    · exact hs id e (hf.core id (by omega) (by rintro ⟨⟩) ▸ he)

theorem Acts.tagged (h : Acts s b t b') (hs : ∀ id e, b.core id = some e →
      e.startOpen.isSome = true → e.tag.isSome = true → e.tagSpan.isSome = true) :
    ∀ id e, b'.core id = some e →
      e.startOpen.isSome = true → e.tag.isSome = true → e.tagSpan.isSome = true := by
  refine h.forall_core hs (fun e htag _ _ hsome => ?_) (fun _ hsome => ?_) (fun _ _ _ _ _ _ => rfl)
    (fun _ _ _ he => he) (fun _ _ _ _ he => he) fun _ hsome => ?_
  · rw [htag] at hsome
    cases hsome
  · cases hsome
  · cases hsome

theorem Acts.endTagged (h : Acts s b t b') (hopened : ∀ id e, (id, e) ∈ b.opened → e.endOpen = none)
    (hs : ∀ id e, b.core id = some e →
      e.endOpen.isSome = true → e.tag.isSome = true → e.endTagSpan.isSome = true) :
    ∀ id e, b'.core id = some e →
      e.endOpen.isSome = true → e.tag.isSome = true → e.endTagSpan.isSome = true := by
  refine h.forall_core hs (fun e htag _ _ hsome => ?_) (fun hsome => ?_) (fun id e hmem _ hsome => ?_)
    (fun _ _ _ he => he) (fun _ _ _ _ _ _ _ => rfl) fun _ _ _ => rfl
  · rw [htag] at hsome
    cases hsome
  · cases hsome
  · rw [hopened id e hmem] at hsome
    cases hsome

theorem Follows.of_falls (h : Follows s x b) (hf : Falls x spaced y) : Follows s y b where
  boundary := hf.pos_eq ▸ h.boundary
  consistent := h.consistent.of_falls hf
  fits := h.fits.of_falls (Text.le_size_of_isBoundary h.boundary) hf
  detail := h.detail.of_falls h.consistent hf
  records := hf.pos_eq ▸ h.records
  unnamed := .of_falls hf
  started := h.started
  tagged := h.tagged

theorem Follows.next (h : Follows s x b) (hlt : x.pos < size s) :
    Acts s b (x.step s).1 (Builder.step s b (x.step s).1 (x.step s).2.inDtd) ∧
      Follows s (x.step s).2 (Builder.step s b (x.step s).1 (x.step s).2.inDtd) := by
  obtain ⟨P, E, hrecords⟩ := h.records
  have hmoves := Lexer.moves_lex h.boundary hlt
  obtain ⟨hc', -, hf'⟩ := h.fits.next h.boundary hlt h.consistent
  obtain ⟨hr', hd'⟩ := hrecords.next h.boundary hlt h.consistent h.fits h.detail
  obtain ⟨z, spaced, hz, hreads⟩ := Lexer.lex_turns h.consistent hlt
  have hstep := Lexer.step_eq_lex h.boundary hlt
  -- a construct that breaks off is left for another mode at the same place
  have hacts : Acts s b (x.step s).1 (Builder.step s b (x.step s).1 (x.step s).2.inDtd) ∧
      Unnamed (x.step s).2 (Builder.step s b (x.step s).1 (x.step s).2.inDtd) := by
    rw [hstep]
    rcases hz with rfl | hfalls
    · exact h.unnamed.acts_step h.consistent h.fits h.detail hrecords hreads h.boundary
    · have hu : Unnamed z b := .of_falls hfalls
      have hx := h.boundary
      rw [← hfalls.pos_eq] at hrecords hx ⊢
      exact hu.acts_step (h.consistent.of_falls hfalls)
        (h.fits.of_falls (Nat.le_of_lt hlt) hfalls) (h.detail.of_falls h.consistent hfalls)
        hrecords hreads hx
  refine ⟨hacts.1, ?_, hc', hf', hd', ⟨_, _, hr'⟩, hacts.2, hacts.1.started h.started,
    hacts.1.tagged h.tagged⟩
  rw [hstep]
  exact hmoves.ahead.2

/-- The builder behind all tokens of the text from `x` on. -/
def run (s : String) (x : Lexer) (b : Builder) : Builder :=
  (x.tokens s).foldl (fun b (t, x) => step s b t x.inDtd) b

theorem run_of_lt (hx : isBoundary s x.pos = true) (hlt : x.pos < size s) (b : Builder) :
    run s x b = run s (x.step s).2 (step s b (x.step s).1 (x.step s).2.inDtd) := by
  rw [run, tokens_of_lt hx hlt]
  rfl

theorem run_of_ge (hge : size s ≤ x.pos) (b : Builder) : run s x b = b := by
  rw [run, Lexer.tokens_at_end hge]
  rfl

theorem Follows.pos_lt (h : Follows s x b) (hlt : x.pos < size s) : x.pos < (x.step s).2.pos := by
  rw [Lexer.step_eq_lex h.boundary hlt]
  exact (Lexer.moves_lex h.boundary hlt).ahead.1

theorem Follows.run {Q : Builder → Prop} (x : Lexer) (b : Builder) (h : Follows s x b) (hq : Q b)
    (hstep : ∀ x b t b', Follows s x b → Acts s b t b' → Q b → Q b') :
    ∃ y, y.pos = size s ∧ Follows s y (Builder.run s x b) ∧ Q (Builder.run s x b) := by
  rcases Nat.lt_or_ge x.pos (size s) with hlt | hge
  · obtain ⟨hacts, hnext⟩ := h.next hlt
    have hahead := h.pos_lt hlt
    rw [run_of_lt h.boundary hlt]
    exact Follows.run (x.step s).2 _ hnext (hstep x b _ _ h hacts hq) hstep
  · rw [run_of_ge hge]
    exact ⟨x, Nat.le_antisymm (Text.le_size_of_isBoundary h.boundary) hge, h, hq⟩
termination_by size s - x.pos
decreasing_by omega

theorem core_start (s : String) (dtdFile : Bool) (id : Nat) : (Builder.start s dtdFile).core id = none := by
  cases dtdFile with
  | false => rcases id with _ | id <;> rfl
  | true => rcases id with _ | _ | id <;> rfl

theorem follows_start (s : String) (dtdFile : Bool) :
    Follows s (if dtdFile then Lexer.declarations else Lexer.document) (Builder.start s dtdFile) := by
  have hnone {id : Nat} {e : Element} : (Builder.start s dtdFile).core id ≠ some e := by
    rw [core_start]
    nofun
  have hopened : ∀ id e, (id, e) ∈ (Builder.start s dtdFile).opened →
      e.startOpen.isSome = true ∧ e.endOpen = none ∧ e.selfClosed = false :=
    fun id e he => absurd (mem_opened.mp he).2.1 hnone
  cases dtdFile with
  | false =>
    exact ⟨Text.isBoundary_zero s, ⟨nofun, nofun, rfl, rfl⟩, fits_document s, trivial,
      ⟨_, _, records_start s false⟩, nofun, hopened, fun id e he => absurd he hnone⟩
  | true =>
    exact ⟨Text.isBoundary_zero s, ⟨fun _ => rfl, nofun, rfl, rfl⟩, fits_declarations s, trivial,
      ⟨_, _, records_start s true⟩, nofun, hopened, fun id e he => absurd he hnone⟩

/-! ## The end of the text -/

/-- The builder at the end of the text, where all that is open ends. -/
def atEnd (s : String) (b : Builder) : Builder :=
  let b := b.flushEndTag (size s) none
  (chain b.nodes b.current).foldl (fun b id => b.extend id (size s)) b

theorem build_eq (s : String) (dtdFile : Bool) : build s dtdFile =
    (atEnd s (run s (if dtdFile then Lexer.declarations else Lexer.document)
      (Builder.start s dtdFile))).nodes := rfl

theorem Fits.quiet_atEnd (h : Fits s x b) : Quiet b (atEnd s b) := by
  obtain ⟨edge, hn⟩ := h.nested
  exact (quiet_flushEndTag hn (size s) none).trans (quiet_foldl_extend (fun _ hc => hc) (size s))

theorem Fits.stopOf_atEnd {id : Nat} (h : Fits s x b) (hpos : x.pos = size s)
    (hid : (id, e) ∈ b.opened) : (atEnd s b).stopOf id = size s := by
  obtain ⟨edge, hn⟩ := h.nested
  rw [← (quiet_flushEndTag hn (size s) none).opened] at hid
  obtain ⟨hmem, hcore, -⟩ := mem_opened.mp hid
  refine stopOf_reach (h.nested_flushEndTag hpos) hmem hcore ?_
  rw [atEnd, foldl_extend]

end Builder

end XmlAssist
