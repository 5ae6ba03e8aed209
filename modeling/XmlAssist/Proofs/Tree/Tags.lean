import XmlAssist.Proofs.Edits.Reading
import XmlAssist.Proofs.Tree.Fate
import XmlAssist.Proofs.Tree.Keeping
import XmlAssist.Proofs.Tree.Leaves

/-!
# Where the tags of an element stand

The name of a tag is read behind the bracket of that tag, with nothing but white space between them
(`ReadsTag`). So the tree shows the place of every tag: an element with a named start tag starts at the bracket
of that tag (`ReadsTag.opens`), an end tag starts at its own bracket (`ReadsTag.closes`), and an element
reaches at least as far as the tokens that are about it.
-/

namespace XmlAssist

open Node
open Text (size isBoundary)
open Lexer (Leads)

variable {s uri : String} {x y z : Lexer} {l m : List (Token × Lexer)} {b : Builder} {t : Token} {e : Element}
variable {id c i stop : Nat} {k : Kind}

theorem Lexer.Leads.eq_of_pos {l' : List (Token × Lexer)} (h : Leads s x l y) (h' : Leads s x l' z)
    (hx : isBoundary s x.pos = true) (heq : y.pos = z.pos) : y = z := by
  obtain ⟨r, -, hr⟩ := h.split h' hx (Nat.le_of_eq heq)
  cases hr with
  | here => rfl
  | next hlt hrest =>
    have hy := h.boundary hx
    have hstep := Leads.pos_lt_step hy hlt
    have hle := hrest.pos_le (Leads.boundary_step hy hlt)
    omega

namespace Builder

/-! ## How far an element reaches -/

theorem le_stopOf_update (hid : id < b.nodes.size) : stop ≤ (b.update id k stop).stopOf id := by
  have hget : (b.update id k stop).nodes[id]? =
      some { b.nodes[id] with kind := k, span := b.nodes[id].span.extendTo stop } := by
    simp only [update, modify, Array.getElem?_modify, if_pos, Array.getElem?_eq_getElem hid, Option.map_some]
  rw [stopOf, hget]
  exact Nat.le_max_right ..

theorem closeNearest_of_none (h : b.nearest? (t.written s) = none) : closeNearest s b i t =
    b.openNode (.element (strayElement (t.written s) i t)) ⟨i, t.stop⟩ := by
  rw [nearest?] at h
  rw [closeNearest, h]

/-- The name of an end tag changes at most the nearest open element of that name, which then reaches the end of
the name. -/
theorem stop_of_closeNearest (hid : id < b.nodes.size)
    (hne : (closeNearest s b i t).core id ≠ b.core id) : t.stop ≤ (closeNearest s b i t).stopOf id := by
  cases hfind : (chain b.nodes b.current).find? (b.isOpenAs (t.written s)) with
  | none =>
    refine absurd ?_ hne
    rw [closeNearest_of_none hfind, core, kindOf_openNode_eq, if_neg (Nat.ne_of_lt hid)]
    rfl
  | some c =>
    obtain ⟨e, hkind, -⟩ := element_of_isOpenAs (List.find?_some hfind)
    simp only [closeNearest, hfind, closeAt_eq hkind] at hne ⊢
    by_cases hc : c = id
    · subst hc
      exact le_stopOf_update (by rwa [size_reach])
    · refine absurd ?_ hne
      refine (core_modify_of_ne (b := { b with nodes := reach b.nodes _ i }) hc).trans ?_
      rw [core, kindOf_reach]
      rfl

theorem endOpen_of_closeNearest : ∃ e, (closeNearest s b i t).core
    ((b.nearest? (t.written s)).getD b.nodes.size) = some e ∧ e.endOpen = some i := by
  rw [nearest?]
  cases hfind : (chain b.nodes b.current).find? (b.isOpenAs (t.written s)) with
  | none =>
    rw [closeNearest_of_none hfind, Option.getD_none]
    exact ⟨_, core_openNode, rfl⟩
  | some c =>
    obtain ⟨e, hkind, -⟩ := element_of_isOpenAs (List.find?_some hfind)
    simp only [closeNearest, hfind, closeAt_eq hkind, Option.getD_some]
    have hreach (ids : List Nat) : ({ b with nodes := reach b.nodes ids i } : Builder).kindOf c = .element e :=
      (kindOf_reach b ids i c).trans hkind
    exact ⟨_, core_of_kindOf (kindOf_update (hreach _) (by rintro ⟨⟩)), rfl⟩

theorem Follows.stop_of_core_ne (h : Follows s x b) (hlt : x.pos < size s) (hid : id < b.nodes.size)
    (hne : (step s b (x.step s).1 (x.step s).2.inDtd).core id ≠ b.core id) :
    (x.step s).1.stop ≤ (step s b (x.step s).1 (x.step s).2.inDtd).stopOf id := by
  obtain ⟨hacts, -⟩ := h.next hlt
  have hcurrent (hframe : Frame (some b.current) b (step s b (x.step s).1 (x.step s).2.inDtd)) : id = b.current := by
    refine Decidable.byContradiction fun hid' => hne (hframe.core id hid fun heq => hid' ?_)
    exact (Option.some.inj heq).symm
  have hmode := Lexer.mode_of_name h.consistent h.boundary hlt
  generalize (x.step s).2.inDtd = inDtd at *
  generalize (x.step s).1 = t at *
  obtain ⟨kind, i, j, fault⟩ := t
  cases hacts with
  | quiet _ hsame => exact absurd (hsame.core id hid (by rintro ⟨⟩)) hne
  | opens _ hframe => exact absurd (hframe.core id hid (by rintro ⟨⟩)) hne
  | stray _ _ hframe => exact absurd (hframe.core id hid (by rintro ⟨⟩)) hne
  | names hkind hframe _ _ hbefore =>
    cases hkind
    obtain rfl := hcurrent hframe
    obtain ⟨e', hcore, -⟩ := core_eq_some.mp (core_of_opened (l := []) hbefore)
    rw [step_startTagName hcore]
    exact le_stopOf_update hid
  | closes hkind hframe _ hbefore =>
    cases hkind
    obtain rfl := hcurrent hframe
    obtain ⟨e', hcore, -⟩ := core_eq_some.mp (core_of_opened (l := []) hbefore)
    rw [step_startTagSelfClose hcore]
    exact le_stopOf_update (b := { b with openAttribute := none }) hid
  | ends _ hkind =>
    cases hkind
    obtain ⟨start, -, hpending⟩ := h.fits.afterEndTagOpen (hmode.2 rfl)
    have hstep : step s b ⟨.endTagName, i, j, fault⟩ inDtd =
        closeNearest s { b with endTagOpen := none } start ⟨.endTagName, i, j, fault⟩ :=
      step_endTagName.trans (endTag_eq hpending.endTagOpen)
    rw [hstep] at hne ⊢
    exact stop_of_closeNearest (b := { b with endTagOpen := none }) hid hne

theorem Spares.stopOf_le {b b' : Builder} (h : Spares b b') (hid : id < b.nodes.size) :
    b.stopOf id ≤ b'.stopOf id := by
  obtain ⟨m, hm, -, -, hstop⟩ := h.fixed id _ (Array.getElem?_eq_getElem hid)
  rw [stopOf, stopOf, hm, Array.getElem?_eq_getElem hid]
  exact hstop

/-! ## From some tokens to the whole document -/

section whole
variable (huri : Document.isDtdUri uri = false) (hl : Leads s .document l y)
include huri hl

theorem parse_nodes : (Document.parse s uri).nodes =
    (atEnd s (behind s (y.tokens s) (behind s l (start s false)))).nodes := by
  obtain ⟨z, hrest, hpos⟩ := Leads.exists_end s y (hl.boundary (Text.isBoundary_zero s))
  rw [← behind_append, Document.parse, huri, build_eq_behind (hl.append hrest) hpos]

theorem exists_spares : ∃ b', b'.nodes = (Document.parse s uri).nodes ∧ Spares (behind s l (start s false)) b' :=
  ⟨_, (parse_nodes huri hl).symm, (spares_behind s (y.tokens s) _).trans (spares_atEnd s _)⟩

theorem span_parse (hid : id < (behind s l (start s false)).nodes.size) :
    (∀ n, (behind s l (start s false)).nodes[id]? = some n →
        ((Document.parse s uri).span id).start = n.span.start) ∧
      (behind s l (start s false)).stopOf id ≤ ((Document.parse s uri).span id).stop := by
  obtain ⟨b', hnodes, hspares⟩ := exists_spares huri hl
  refine ⟨fun n hn => ?_, ?_⟩
  · obtain ⟨m, hm, -, hstart, -⟩ := hspares.fixed id n hn
    rw [Document.span_eq (hnodes ▸ hm), hstart]
  · rw [← Document.stopOf_eq hnodes]
    exact hspares.stopOf_le hid

/-- **A node that has been left** is in the document as it is. -/
theorem parse_spared (hid : id < (behind s l (start s false)).nodes.size)
    (hout : id ∉ chain (behind s l (start s false)).nodes (behind s l (start s false)).current)
    (hattr : ∀ a, (behind s l (start s false)).kindOf id ≠ .attribute a) :
    (Document.parse s uri).nodes[id]? = (behind s l (start s false)).nodes[id]? := by
  rw [parse_nodes huri hl]
  exact (((follows_start s false).behind hl).spared ((attributive_start s false).behind l) hid hout hattr _).2.1

end whole

/-- Behind some tokens of a text, the nodes stand where they stand in the document, and its elements are
elements. -/
theorem outline_parse (huri : Document.isDtdUri uri = false) (hl : Leads s .document l y)
    (hid : id < (behind s l (start s false)).nodes.size) :
    chain (Document.parse s uri).nodes id = chain (behind s l (start s false)).nodes id ∧
      ∀ e, (Document.parse s uri).element? id = some e →
        ∃ e₀, (behind s l (start s false)).core id = some e₀ := by
  have hf := (follows_start s false).behind hl
  obtain ⟨z, hrest, -⟩ := Leads.exists_end s y hf.boundary
  generalize hb : behind s l (start s false) = b at *
  obtain ⟨hfz, hlt, hchain, hcore⟩ := hf.behind_keeps (Q := fun b' => id < b'.nodes.size ∧
    chain b'.nodes id = chain b.nodes id ∧ ∀ e, b'.core id = some e → ∃ e₀, b.core id = some e₀) hrest
    ⟨hid, rfl, fun e he => ⟨e, he⟩⟩ fun x b₁ t b' _ hacts ⟨hlt, hchain, hcore⟩ => by
      obtain ⟨_, hframe, -⟩ := hacts.kept
      refine ⟨Nat.lt_of_lt_of_le hlt hframe.size_le, (hframe.chain id hlt).trans hchain, fun e he => ?_⟩
      obtain ⟨e₁, he₁, -⟩ := hacts.exists_core hlt he
      exact hcore e₁ he₁
  have hend := hfz.fits.quiet_atEnd
  have hnodes := parse_nodes huri hl
  rw [hb] at hnodes
  refine ⟨?_, fun e he => ?_⟩
  · rw [hnodes, hend.chain id hlt, hchain]
  · have he' := Document.core_eq_element? hnodes.symm id
    rw [he, hend.core id hlt (by rintro ⟨⟩)] at he'
    exact hcore _ he'

theorem forall_element (huri : Document.isDtdUri uri = false) {Q : Element → Prop}
    (hstep : ∀ x b t b', Follows s x b → Acts s b t b' → (∀ id e, b.core id = some e → Q e) →
      ∀ id e, b'.core id = some e → Q e) (hnameless : ∀ e, e.tag = none → e.startOpen = none → Q e)
    (he : (Document.parse s uri).element? id = some e) : Q e.core := by
  obtain ⟨z, hl, hpos⟩ := Leads.exists_end s .document (Text.isBoundary_zero s)
  obtain ⟨hfz, hall⟩ := (follows_start s false).behind_keeps (Q := fun b => ∀ id e, b.core id = some e → Q e) hl
    (fun id e he => by rw [core_start] at he; cases he) hstep
  have hquiet := hfz.fits.quiet_atEnd
  have hnodes : (Document.parse s uri).nodes = (atEnd s (behind s (Lexer.document.tokens s) (start s false))).nodes :=
    parse_nodes huri (.here _)
  have hcore := Document.core_eq_element? hnodes.symm id
  rw [he] at hcore
  rcases Nat.lt_or_ge id (behind s (Lexer.document.tokens s) (start s false)).nodes.size with hid | hid
  · exact hall id e.core ((hquiet.core id hid (by rintro ⟨⟩)).symm.trans hcore)
  · obtain ⟨htag, hstart⟩ := hquiet.fresh id e.core hid hcore
    exact hnameless e.core htag hstart

theorem spans_isSome (huri : Document.isDtdUri uri = false)
    (he : (Document.parse s uri).element? id = some e) (htag : e.tag.isSome = true) :
    (e.startOpen.isSome = true → e.tagSpan.isSome = true) ∧
    (e.endOpen.isSome = true → e.endTagSpan.isSome = true) := by
  have hnone {e : Element} {P : Prop} (h : e.tag = none) (hsome : e.tag.isSome = true) : P := by
    rw [h] at hsome
    cases hsome
  refine ⟨fun hstart => ?_, fun hend => ?_⟩
  · exact forall_element huri
      (Q := fun e => e.startOpen.isSome = true → e.tag.isSome = true → e.tagSpan.isSome = true)
      (fun x b t b' _ hacts => hacts.tagged) (fun e h _ _ => hnone h) he hstart htag
  · exact forall_element huri
      (Q := fun e => e.endOpen.isSome = true → e.tag.isSome = true → e.endTagSpan.isSome = true)
      (fun x b t b' hf hacts => hacts.endTagged fun id e hmem => (hf.started id e hmem).2.1)
      (fun e h _ _ => hnone h) he hend htag

theorem startOpen_or_endOpen (huri : Document.isDtdUri uri = false)
    (he : (Document.parse s uri).element? id = some e) (htag : e.tag.isSome = true) :
    e.startOpen.isSome = true ∨ e.endOpen.isSome = true := by
  refine forall_element huri
    (Q := fun e => e.tag.isSome = true → e.startOpen.isSome = true ∨ e.endOpen.isSome = true)
    (fun x b t b' hf hacts hq => ?_) (fun e h _ hsome => ?_) he htag
  · refine hacts.forall_core hq (fun e h _ hsome => ?_) (fun _ => .inl rfl) (fun id e hmem _ _ => ?_)
      (fun _ _ _ he => he) (fun _ _ _ _ _ _ => .inr rfl) fun _ _ => .inr rfl
    · rw [h] at hsome
      cases hsome
    · exact .inl (hf.started id e hmem).1
  · rw [h] at hsome
    cases hsome

theorem behind_blank (h : ∀ p ∈ m, p.1.kind = .blank) (b : Builder) : behind s m b = b := by
  induction m generalizing b with
  | nil => rfl
  | cons p m ih =>
    obtain ⟨hp, hm⟩ := List.forall_mem_cons.mp h
    have hstep : step s b p.1 p.2.inDtd = b := by rw [step, hp]
    rw [behind_cons, hstep, ih hm]

end Builder

theorem Lexer.mode_of_tagOpen (hc : x.Consistent) (hx : isBoundary s x.pos = true) (hlt : x.pos < size s) :
    ((x.step s).1.kind = .startTagOpen → (x.step s).2.mode = .afterStartTagOpen ∧ (x.step s).2.inDtd = false) ∧
      ((x.step s).1.kind = .endTagOpen → (x.step s).2.mode = .afterEndTagOpen ∧ (x.step s).2.inDtd = false) := by
  have hopener : ∀ o ∈ Lexer.contentOpeners ++ Lexer.dtdOpeners,
      (o.2.1 = .startTagOpen → o.2.2 = .afterStartTagOpen) ∧
      (o.2.1 = .endTagOpen → o.2.2 = .afterEndTagOpen) := by
    decide
  have hc' := hc.step hx hlt
  rw [Lexer.step_eq_lex hx hlt] at hc' ⊢
  have hopens (hkind : (Lexer.lex s x).kind.opensMarkup = true) := Lexer.opens_lex hc hkind
  refine ⟨fun hkind => ?_, fun hkind => ?_⟩
  · obtain ⟨o, ho, hopens⟩ := hopens (by rw [show (Lexer.lex s x).kind = _ from hkind]; rfl)
    have hmode : (Lexer.lex s x).lexer.mode = .afterStartTagOpen :=
      hopens.mode.trans ((hopener o ho).1 (hopens.kind.symm.trans hkind))
    exact ⟨hmode, (hc'.of_inStartTag (by rw [Lexer.inStartTag, hmode])).2.1⟩
  · obtain ⟨o, ho, hopens⟩ := hopens (by rw [show (Lexer.lex s x).kind = _ from hkind]; rfl)
    have hmode : (Lexer.lex s x).lexer.mode = .afterEndTagOpen :=
      hopens.mode.trans ((hopener o ho).2 (hopens.kind.symm.trans hkind))
    obtain ⟨hfile, -, hsubset, -⟩ := Builder.outside_of_agrees hc' (.inr (.inl hmode))
    exact ⟨hmode, by rw [Lexer.inDtd, hfile, hsubset]; rfl⟩

theorem Lexer.consistent_document : Lexer.document.Consistent := (Builder.follows_start "" false).consistent

/-! ## Brackets and names -/

/-- On the way through a document the lexer comes to the bracket of a tag at `z`, behind the tokens `l`, and to
the name of that tag at `y`; the tokens `m` between them are white space. -/
structure ReadsTag (s : String) (l : List (Token × Lexer)) (z : Lexer) (m : List (Token × Lexer)) (y : Lexer) :
    Prop where
  before : Leads s .document l z
  lt : z.pos < size s
  spaces : Leads s (z.step s).2 m y
  blank : ∀ p ∈ m, p.1.kind = .blank
  inside : y.pos < size s
  kinds : ((z.step s).1.kind = .startTagOpen ∧ (y.step s).1.kind = .startTagName) ∨
    ((z.step s).1.kind = .endTagOpen ∧ (y.step s).1.kind = .endTagName)

theorem exists_readsTag (hl : Leads s .document l y) (hlt : y.pos < size s)
    (hkind : (y.step s).1.kind = .startTagName ∨ (y.step s).1.kind = .endTagName) :
    ∃ l₀ z m, ReadsTag s l₀ z m y := by
  have hzero := Text.isBoundary_zero s
  have hc := hl.consistent Lexer.consistent_document hzero
  have hmode := Lexer.mode_of_name hc (hl.boundary hzero) hlt
  rcases hkind with hkind | hkind
  · obtain ⟨l₀, z, m, -, hz, hzlt, hopen, -, hm, hblank⟩ := hl.before_name Lexer.consistent_document hzero
      (.inl ⟨rfl, rfl⟩) (by rintro ⟨⟩) (hmode.1 hkind)
    exact ⟨l₀, z, m, hz, hzlt, hm, fun p hp => (hblank p hp).1, hlt, .inl ⟨hopen, hkind⟩⟩
  · obtain ⟨l₀, z, m, -, hz, hzlt, hopen, -, hm, hblank⟩ := hl.before_name Lexer.consistent_document hzero
      (.inr ⟨rfl, rfl⟩) (by rintro ⟨⟩) (hmode.2 hkind)
    exact ⟨l₀, z, m, hz, hzlt, hm, fun p hp => (hblank p hp).1, hlt, .inr ⟨hopen, hkind⟩⟩

namespace ReadsTag

variable (h : ReadsTag s l z m y)
include h

theorem boundary : isBoundary s z.pos = true := h.before.boundary (Text.isBoundary_zero s)

theorem leads : Leads s .document (l ++ z.step s :: m) y := h.before.append (.next h.lt h.spaces)

theorem lt_name : z.pos < y.pos :=
  Nat.lt_of_lt_of_le (Leads.pos_lt_step h.boundary h.lt) (h.spaces.pos_le (Leads.boundary_step h.boundary h.lt))

theorem le_bracket {l' : List (Token × Lexer)} {w : Lexer} (hw : Leads s .document l' w) (hlt : w.pos < size s)
    (hkind : (w.step s).1.kind ≠ .blank) (hbefore : w.pos < y.pos) : w.pos ≤ z.pos := by
  refine Nat.le_of_not_lt fun hbehind => ?_
  have hzero := Text.isBoundary_zero s
  obtain ⟨r, rfl, hr⟩ := h.before.split hw hzero (Nat.le_of_lt hbehind)
  cases hr with
  | here => exact Nat.lt_irrefl _ hbehind
  | next _ hr =>
    have hnext := Leads.boundary_step h.boundary h.lt
    obtain ⟨r', hr', hrest⟩ := hr.split h.spaces hnext (Nat.le_of_lt hbefore)
    cases hrest with
    | here => exact Nat.lt_irrefl _ hbefore
    | next _ _ => exact hkind (h.blank _ (hr' ▸ List.mem_append_right _ List.mem_cons_self))

theorem startTagOpen (hkind : (y.step s).1.kind = .startTagName) : (z.step s).1.kind = .startTagOpen := by
  rcases h.kinds with ⟨hopen, -⟩ | ⟨-, hname⟩
  · exact hopen
  · cases hkind.symm.trans hname

theorem endTagOpen (hkind : (y.step s).1.kind = .endTagName) : (z.step s).1.kind = .endTagOpen := by
  rcases h.kinds with ⟨-, hname⟩ | ⟨hopen, -⟩
  · cases hkind.symm.trans hname
  · exact hopen

theorem mem_tokens : y.step s ∈ z.tokens s := by
  have hy := h.leads.boundary (Text.isBoundary_zero s)
  rw [(Leads.next h.lt h.spaces).tokens_eq h.boundary, (Leads.one h.inside).tokens_eq hy]
  exact List.mem_append_right _ (List.mem_append_left _ (List.mem_singleton_self _))

theorem behind_eq : Builder.behind s (l ++ z.step s :: m) (Builder.start s false) =
    Builder.step s (Builder.behind s l (Builder.start s false)) (z.step s).1 (z.step s).2.inDtd := by
  rw [Builder.behind_append, Builder.behind_cons, Builder.behind_blank h.blank]

end ReadsTag

theorem exists_readsTag_of_mem (hl : Leads s .document l z) (hlt : z.pos < Text.size s)
    (hopen : (z.step s).1.kind = .startTagOpen ∨ (z.step s).1.kind = .endTagOpen) {q : Token × Lexer}
    (hq : q ∈ z.tokens s) (hkind : q.1.kind = .startTagName ∨ q.1.kind = .endTagName) :
    ∃ l' z' m y, ReadsTag s l' z' m y ∧ y.step s = q ∧ z.pos ≤ z'.pos := by
  have hboundary := hl.boundary (Text.isBoundary_zero s)
  obtain ⟨r, y, hr, hylt, rfl⟩ := Leads.exists_of_mem hboundary hq
  obtain ⟨l', z', m, hread⟩ := exists_readsTag (hl.append hr) hylt hkind
  refine ⟨l', z', m, y, hread, rfl, hread.le_bracket hl hlt ?_ ?_⟩
  · rcases hopen with hopen | hopen <;> rw [hopen] <;> rintro ⟨⟩
  · cases hr with
    | here =>
      rcases hopen with hopen | hopen <;> rcases hkind with hkind | hkind <;> cases hopen.symm.trans hkind
    | next _ hrest =>
      exact Nat.lt_of_lt_of_le (Leads.pos_lt_step hboundary hlt)
        (hrest.pos_le (Leads.boundary_step hboundary hlt))

namespace Builder

theorem endTagOpen_of_step (inDtd : Bool) (hkind : t.kind = .endTagOpen) :
    (step s b t inDtd).endTagOpen = some t.start := by
  obtain ⟨kind, i, j, fault⟩ := t
  cases hkind
  rw [step_endTagOpen]

theorem node_of_startTagOpen (inDtd : Bool) (hkind : t.kind = .startTagOpen) :
    ∃ n, (step s b t inDtd).nodes[(step s b t inDtd).current]? = some n ∧ n.span = t.span := by
  obtain ⟨kind, i, j, fault⟩ := t
  cases hkind
  rw [step_startTagOpen]
  exact ⟨_, getElem?_openNode _ _ _, rfl⟩

theorem kindOf_of_startTagOpen (inDtd : Bool) (hkind : t.kind = .startTagOpen) :
    (step s b t inDtd).kindOf (step s b t inDtd).current = .element { startOpen := some t.start } := by
  obtain ⟨kind, i, j, fault⟩ := t
  cases hkind
  rw [step_startTagOpen]
  exact kindOf_openNode _ _ _

theorem isUnended_of_started (h : e.startOpen.isSome = true ∧ e.endOpen = none ∧ e.selfClosed = false) :
    e.isUnended = true := by
  rw [Element.isUnended, Element.hasStartTag, Element.hasEndTag, h.1, h.2.1, h.2.2]
  rfl

/-- Behind the name of a start tag the element has that name and is open, as are those around it. -/
theorem Follows.opens_name (h : Follows s x b) (hlt : x.pos < size s) (hkind : (x.step s).1.kind = .startTagName) :
    b.current < b.nodes.size ∧ (∃ e, b.core b.current = some e ∧ e.tag = none) ∧
      ∃ e, (step s b (x.step s).1 (x.step s).2.inDtd).core b.current = some e ∧ e.tag.isSome = true ∧
        e.isUnended = true ∧
        ∀ c, b.IsOpen c → c ≠ b.current → (step s b (x.step s).1 (x.step s).2.inDtd).IsOpen c := by
  obtain ⟨hacts, hnext⟩ := h.next hlt
  cases hacts with
  | quiet hk => simp [hkind, Token.Kind.pairs] at hk
  | opens hk | closes hk | ends _ hk | stray _ hk => simp [hkind] at hk
  | @names e _ _ _ _ _ hbefore hunnamed hopened =>
    have hcore := core_of_opened (l := []) hbefore
    have hmem : (b.current, e) ∈ b.opened := by simp [hbefore]
    have hunended : e.isUnended = true := isUnended_of_started (h.started _ _ hmem)
    refine ⟨lt_size_of_core hcore, ⟨e, hcore, hunnamed⟩, _, core_of_opened (l := []) hopened, rfl, hunended, ?_⟩
    rintro c ⟨e', hc⟩ hne
    rw [hbefore] at hc
    refine ⟨e', hopened ▸ List.mem_cons_of_mem _ ((List.mem_cons.mp hc).resolve_left fun heq => hne ?_)⟩
    exact (Prod.mk.inj heq).1

theorem lt_stop_of_ended (huri : Document.isDtdUri uri = false) (hl : Leads s .document l y)
    (he : (behind s l (start s false)).core id = some e) (hopen : e.isUnended = true) {e' : Element}
    (he' : (Document.parse s uri).element? id = some e') (hended : e'.isUnended = false) :
    y.pos < ((Document.parse s uri).span id).stop := by
  have hf := (follows_start s false).behind hl
  obtain ⟨z, hrest, hpos⟩ := Leads.exists_end s y hf.boundary
  have hcore : (behind s (y.tokens s) (behind s l (start s false))).core id = some e'.core := by
    have hsize := Nat.lt_of_lt_of_le (lt_size_of_core he) (spares_behind s (y.tokens s) _).size_le
    rw [← (hf.behind hrest).fits.quiet_atEnd.core id hsize (by rintro ⟨⟩),
      Document.core_eq_element? (parse_nodes huri hl).symm, he']
    rfl
  obtain ⟨l₁, w, l₂, hw, hlt, -, -, hbefore, hafter⟩ :=
    exists_turn (P := fun b => ∃ e, b.core id = some e ∧ e.isUnended = false) hrest
      (fun ⟨e₁, he₁, hnot⟩ => by
        obtain rfl := Option.some.inj (he.symm.trans he₁)
        cases hopen.symm.trans hnot)
      ⟨_, hcore, hended⟩
  have hfw := hf.behind hw
  have hsize := Nat.lt_of_lt_of_le (lt_size_of_core he) (spares_behind s l₁ _).size_le
  have hne : (step s (behind s l₁ (behind s l (start s false))) (w.step s).1 (w.step s).2.inDtd).core id ≠
      (behind s l₁ (behind s l (start s false))).core id := fun hsame => hbefore (hsame ▸ hafter)
  have hreach := hfw.stop_of_core_ne hlt hsize hne
  rw [Leads.stop_step hfw.boundary hlt] at hreach
  have hall := (hl.append hw).append (.one hlt)
  have hsize' : id < (behind s (l ++ l₁ ++ [w.step s]) (start s false)).nodes.size := by
    rw [behind_append, behind_append]
    exact Nat.lt_of_lt_of_le hsize (spares_behind s [w.step s] _).size_le
  have hstop := (span_parse huri hall hsize').2
  rw [behind_append, behind_append] at hstop
  have hstep := Leads.pos_lt_step hfw.boundary hlt
  have hle := hw.pos_le hf.boundary
  exact Nat.lt_of_lt_of_le (Nat.lt_of_le_of_lt hle hstep) (Nat.le_trans hreach hstop)

end Builder

namespace ReadsTag

open Builder

variable (huri : Document.isDtdUri uri = false) (h : ReadsTag s l z m y)
include huri h

/-- **A named start tag** belongs to an element that starts at the bracket. It reaches behind the name, and
farther if it has an end of its own. -/
theorem opens (hkind : (y.step s).1.kind = .startTagName) :
    ∃ id e, (Document.parse s uri).element? id = some e ∧ e.tagSpan = some (y.step s).1.span ∧
      e.startOpen = some z.pos ∧ ((Document.parse s uri).span id).start = z.pos ∧
      (y.step s).1.stop ≤ ((Document.parse s uri).span id).stop ∧
      (e.isUnended = false → (y.step s).1.stop < ((Document.parse s uri).span id).stop) := by
  have hopen := h.startTagOpen hkind
  have hfz := (follows_start s false).behind h.before
  have hfy := (follows_start s false).behind h.leads
  have hboundary := h.leads.boundary (Text.isBoundary_zero s)
  obtain ⟨e, he, -, hspan⟩ := names_of huri h.leads h.inside hkind
  obtain ⟨hsize, ⟨e₀, he₀, hunnamed⟩, e₁, he₁, hnamed, hunended, -⟩ := hfy.opens_name h.inside hkind
  have hcurrent := (hfz.next h.lt).1.core_current hopen
  obtain ⟨n, hn, hnspan⟩ := node_of_startTagOpen (s := s) (b := behind s l (start s false))
    (z.step s).2.inDtd hopen
  rw [← h.behind_eq] at hcurrent hn
  obtain ⟨e', he', hbecomes⟩ := exists_element huri h.leads hcurrent
  obtain rfl := Option.some.inj (he.symm.trans he')
  have hstart : (z.step s).1.start = z.pos := Leads.start_step h.boundary h.lt
  have hne : (step s (behind s (l ++ z.step s :: m) (start s false)) (y.step s).1 (y.step s).2.inDtd).core
      (behind s (l ++ z.step s :: m) (start s false)).current ≠
      (behind s (l ++ z.step s :: m) (start s false)).core
        (behind s (l ++ z.step s :: m) (start s false)).current := fun hsame => by
    rw [he₁, he₀] at hsame
    rw [Option.some.inj hsame, hunnamed] at hnamed
    cases hnamed
  have hreach := hfy.stop_of_core_ne h.inside hsize hne
  have hall := h.leads.append (.one h.inside)
  have hbehind : behind s (l ++ z.step s :: m ++ [y.step s]) (start s false) =
      step s (behind s (l ++ z.step s :: m) (start s false)) (y.step s).1 (y.step s).2.inDtd := behind_append ..
  rw [← hbehind] at he₁ hreach
  refine ⟨_, e, he, hspan, ?_, ?_, ?_, fun hended => ?_⟩
  · exact hbecomes.startOpen.trans (congrArg some hstart)
  · rw [(span_parse huri h.leads hsize).1 n hn, hnspan]
    exact hstart
  · exact Nat.le_trans hreach (span_parse huri hall (lt_size_of_core he₁)).2
  · rw [Leads.stop_step hboundary h.inside]
    exact lt_stop_of_ended huri hall he₁ hunended he hended

omit huri in
theorem step_eq (hkind : (y.step s).1.kind = .endTagName) :
    step s (behind s (l ++ z.step s :: m) (start s false)) (y.step s).1 (y.step s).2.inDtd =
      closeNearest s { behind s (l ++ z.step s :: m) (start s false) with endTagOpen := none } z.pos
        (y.step s).1 := by
  have hpending : (behind s (l ++ z.step s :: m) (start s false)).endTagOpen = some z.pos := by
    rw [h.behind_eq, endTagOpen_of_step _ (h.endTagOpen hkind), Leads.start_step h.boundary h.lt]
  generalize (y.step s).1 = t at hkind ⊢
  obtain ⟨kind, i, j, fault⟩ := t
  cases hkind
  exact step_endTagName.trans (endTag_eq hpending)

/-- **A named end tag** starts at its bracket, and belongs to the nearest open element of its name or to a new
one. -/
theorem closes (hkind : (y.step s).1.kind = .endTagName) :
    ∃ id e, (Document.parse s uri).element? id = some e ∧ e.endTagSpan = some (y.step s).1.span ∧
      e.endOpen = some z.pos ∧
      id = ((behind s (l ++ z.step s :: m) (start s false)).nearest? ((y.step s).1.written s)).getD
        (behind s (l ++ z.step s :: m) (start s false)).nodes.size := by
  obtain ⟨e, he, -, hclosed, hspan⟩ := (((follows_start s false).behind h.leads).next h.inside).1.ends_nearest hkind
  obtain ⟨e', he', hendOpen⟩ := endOpen_of_closeNearest (s := s) (i := z.pos) (t := (y.step s).1)
    (b := { behind s (l ++ z.step s :: m) (start s false) with endTagOpen := none })
  rw [← h.step_eq hkind] at he'
  obtain rfl := Option.some.inj (he.symm.trans he')
  have hbehind : behind s (l ++ z.step s :: m ++ [y.step s]) (start s false) =
      step s (behind s (l ++ z.step s :: m) (start s false)) (y.step s).1 (y.step s).2.inDtd := behind_append ..
  rw [← hbehind] at he
  obtain ⟨e', hfinal, hbecomes⟩ := exists_element huri (h.leads.append (.one h.inside)) he
  obtain rfl := hbecomes.closed hclosed
  exact ⟨_, e', hfinal, hspan, hendOpen, rfl⟩

theorem start_of_alone (hkind : (y.step s).1.kind = .endTagName) (he : (Document.parse s uri).element? id = some e)
    (hspan : e.endTagSpan = some (y.step s).1.span) (hnone : e.startOpen = none) :
    ((Document.parse s uri).span id).start = z.pos := by
  obtain ⟨c, e', he', hspan', -, hid⟩ := h.closes huri hkind
  obtain rfl := Document.eq_of_endTagSpan he' he hspan' hspan
  obtain rfl := Option.some.inj (he.symm.trans he')
  have hf := (follows_start s false).behind h.leads
  have hall := h.leads.append (.one h.inside)
  have hbehind : behind s (l ++ z.step s :: m ++ [y.step s]) (start s false) =
      step s (behind s (l ++ z.step s :: m) (start s false)) (y.step s).1 (y.step s).2.inDtd := behind_append ..
  rw [h.step_eq hkind] at hbehind
  cases hfind : (behind s (l ++ z.step s :: m) (start s false)).nearest? ((y.step s).1.written s) with
  | none =>
    rw [hfind, Option.getD_none] at hid
    rw [closeNearest_of_none (b := { behind s (l ++ z.step s :: m) (start s false) with endTagOpen := none }) hfind]
      at hbehind
    have hnode := getElem?_openNode { behind s (l ++ z.step s :: m) (start s false) with endTagOpen := none }
      (.element (strayElement ((y.step s).1.written s) z.pos (y.step s).1)) ⟨z.pos, (y.step s).1.stop⟩
    rw [openNode_current, ← hbehind] at hnode
    subst hid
    exact (span_parse huri hall (lt_size_of_getElem? hnode)).1 _ hnode
  | some a =>
    -- an element that was open has a start tag
    rw [hfind, Option.getD_some] at hid
    subst hid
    obtain ⟨e₀, hkind₀, hopen, -⟩ := element_of_isOpenAs (List.find?_some hfind)
    have hmem := mem_opened.mpr ⟨List.mem_of_find?_eq_some hfind, core_of_kindOf hkind₀, hopen⟩
    obtain ⟨e₁, he₁, hbecomes⟩ := exists_element huri h.leads (core_of_kindOf hkind₀)
    obtain rfl := Option.some.inj (he.symm.trans he₁)
    have hstarted := (hf.started _ _ hmem).1
    rw [← hbecomes.startOpen, show e.core.startOpen = none from hnone] at hstarted
    cases hstarted

end ReadsTag

namespace Document

open Builder

variable {text : String} {sp : Span} {p : Nat}

theorem eq_of_startOpen {e' : Element} {a : Nat} (h : (parse text uri).element? id = some e)
    (h' : (parse text uri).element? a = some e') (hp : e.startOpen = some p) (hp' : e'.startOpen = some p) :
    id = a := by
  have hnodup : ((parse text uri).elementRecords.filterMap (·.startOpen)).Nodup := by
    rw [(keepsTokens text uri).startTagOpen]
    exact (keepsTokens text uri).nodup fun _ _ h => h
  exact eq_of_nodup hnodup h h' hp hp'

theorem exists_startTag (huri : isDtdUri uri = false) (he : (parse text uri).element? id = some e)
    (hsp : e.tagSpan = some sp) :
    ∃ l z m y, ReadsTag text l z m y ∧ (y.step text).1.kind = .startTagName ∧ (y.step text).1.span = sp ∧
      e.startOpen = some z.pos ∧ ((parse text uri).span id).start = z.pos ∧
      sp.stop ≤ ((parse text uri).span id).stop ∧
      (e.isUnended = false → sp.stop < ((parse text uri).span id).stop) := by
  obtain ⟨t, ht, hkind, rfl⟩ := exists_startTagName he hsp
  obtain ⟨l, y, hl, hlt, rfl⟩ := exists_passes huri ht
  obtain ⟨l₀, z, m, hread⟩ := exists_readsTag hl hlt (.inl hkind)
  obtain ⟨c, e', he', hspan, hstart, hspanStart, hstop, hended⟩ := hread.opens huri hkind
  obtain rfl := eq_of_tagSpan he' he hspan hsp
  obtain rfl := Option.some.inj (he.symm.trans he')
  exact ⟨l₀, z, m, y, hread, hkind, rfl, hstart, hspanStart, hstop, hended⟩

theorem exists_endTag (huri : isDtdUri uri = false) (he : (parse text uri).element? id = some e)
    (hsp : e.endTagSpan = some sp) :
    ∃ l z m y, ReadsTag text l z m y ∧ (y.step text).1.kind = .endTagName ∧ (y.step text).1.span = sp ∧
      e.endOpen = some z.pos := by
  obtain ⟨t, ht, hkind, rfl⟩ := exists_endTagName he hsp
  obtain ⟨l, y, hl, hlt, rfl⟩ := exists_passes huri ht
  obtain ⟨l₀, z, m, hread⟩ := exists_readsTag hl hlt (.inr hkind)
  obtain ⟨c, e', he', hspan, hend, -⟩ := hread.closes huri hkind
  obtain rfl := eq_of_endTagSpan he' he hspan hsp
  obtain rfl := Option.some.inj (he.symm.trans he')
  exact ⟨l₀, z, m, y, hread, hkind, rfl, hend⟩

theorem closed_behind {l l' m : List (Token × Lexer)} {w y z : Lexer} (huri : isDtdUri uri = false)
    (he : (parse text uri).element? id = some e) (hread : ReadsTag text l z m y)
    (hkind : (y.step text).1.kind = .endTagName) (hspan : e.endTagSpan = some (y.step text).1.span)
    (hw : Leads text .document l' w) (hlt : y.pos < w.pos) :
    (Builder.behind text l' (start text false)).core id = some e.core ∧ e.closed = true := by
  obtain ⟨r, rfl, hr⟩ := hread.leads.split hw (Text.isBoundary_zero text) (Nat.le_of_lt hlt)
  cases hr with
  | here => exact absurd hlt (Nat.lt_irrefl _)
  | @next _ _ r _ hrest =>
    obtain ⟨hacts, hfy⟩ := ((follows_start text false).behind hread.leads).next hread.inside
    obtain ⟨e₁, he₁, -, hclosed, hspan₁⟩ := hacts.ends_nearest hkind
    obtain ⟨e₂, he₂, hbecomes⟩ := hfy.behind_becomes hrest he₁
    obtain rfl := hbecomes.closed hclosed
    have hbehind : Builder.behind text r (Builder.step text (Builder.behind text
        (l ++ z.step text :: m) (start text false)) (y.step text).1 (y.step text).2.inDtd) =
        Builder.behind text (l ++ z.step text :: m ++ y.step text :: r) (start text false) := by
      rw [behind_append _ (l ++ z.step text :: m), behind_cons]
    rw [hbehind] at he₂
    obtain ⟨e₃, he₃, hbecomes'⟩ := exists_element huri hw he₂
    have hsame := hbecomes'.closed hclosed
    obtain rfl := eq_of_endTagSpan he₃ he ((congrArg Element.endTagSpan hsame).trans hspan₁) hspan
    obtain rfl := Option.some.inj (he.symm.trans he₃)
    exact ⟨hsame ▸ he₂, (congrArg Element.closed hsame).trans hclosed⟩

theorem exists_startClose (huri : isDtdUri uri = false) (he : (parse text uri).element? id = some e)
    (hsp : e.tagSpan = some sp) (hclose : e.startClose = some p) :
    ∃ l w, Leads text .document l w ∧ w.pos < Text.size text ∧ w.pos = p ∧ sp.stop ≤ p ∧
      ((w.step text).1.kind = .startTagClose ∨ (w.step text).1.kind = .startTagSelfClose) ∧
      (Builder.behind text l (start text false)).current = id ∧ w.inStartTag = true := by
  obtain ⟨l, z, m, y, hread, hkind, rfl, -⟩ := exists_startTag huri he hsp
  have hf := (follows_start text false).behind hread.leads
  obtain ⟨hsize, -⟩ := hf.opens_name hread.inside hkind
  obtain ⟨e', he', -, hspan'⟩ := names_of huri hread.leads hread.inside hkind
  obtain rfl := eq_of_tagSpan he' he hspan' hsp
  have hopened := kindOf_of_startTagOpen (s := text) (b := Builder.behind text l (start text false))
    (z.step text).2.inDtd (hread.startTagOpen hkind)
  rw [← hread.behind_eq] at hopened
  generalize hc : (Builder.behind text (l ++ z.step text :: m) (start text false)).current = c at *
  have hall := hread.leads.append (.one hread.inside)
  have hfollows := (follows_start text false).behind hall
  obtain ⟨u, hrest, -⟩ := Leads.exists_end text _ hfollows.boundary
  -- the start tag has no end yet
  have hnone : ¬ ∃ e₁, (Builder.behind text (l ++ z.step text :: m ++ [y.step text]) (start text false)).kindOf c =
      .element e₁ ∧ e₁.startClose = some p := fun ⟨e₁, hkind₁, hclose₁⟩ => by
    rw [behind_append] at hkind₁
    rcases (changes_step text _ (y.step text).1 (y.step text).2.inDtd).startClose hkind₁ hclose₁ with
      ⟨e₀, hkind₀, hclose₀⟩ | ⟨-, -, -, hclosing⟩
    · rw [hopened] at hkind₀
      cases hkind₀
      cases hclose₀
    · rw [hkind] at hclosing
      rcases hclosing with hclosing | hclosing <;> cases hclosing
  have hlater : ∃ e₁, (Builder.behind text ((y.step text).2.tokens text) (Builder.behind text
      (l ++ z.step text :: m ++ [y.step text]) (start text false))).kindOf c = .element e₁ ∧
      e₁.startClose = some p := by
    have hold := (retains_atEnd text (Builder.behind text ((y.step text).2.tokens text) (Builder.behind text
      (l ++ z.step text :: m ++ [y.step text]) (start text false)))).old c ?_
    · rw [← hold]
      obtain ⟨n, hn, hne⟩ := exists_node_of_element? he
      rw [parse_nodes huri hall] at hn
      exact ⟨e, (kindOf_eq hn).trans (kind_of_element? hne), hclose⟩
    · rw [behind_append _ (l ++ z.step text :: m)]
      exact Nat.lt_of_lt_of_le hsize ((spares_behind text [y.step text] _).trans (spares_behind text _ _)).size_le
  obtain ⟨l₁, w, l₂, hw, hlt, -, -, hbefore, e₁, hkind₁, hclose₁⟩ := exists_turn
    (P := fun b => ∃ e₁, b.kindOf c = .element e₁ ∧ e₁.startClose = some p) hrest hnone hlater
  have hwb := hw.boundary hfollows.boundary
  rcases (changes_step text _ (w.step text).1 (w.step text).2.inDtd).startClose hkind₁ hclose₁ with
    hwas | ⟨-, hcurrent, hstart, hclosing⟩
  · exact absurd hwas hbefore
  rw [Leads.start_step hwb hlt] at hstart
  refine ⟨_, w, hall.append hw, hlt, hstart, ?_, hclosing, ?_, ?_⟩
  · have hle := hw.pos_le hfollows.boundary
    rw [← Leads.stop_step hf.boundary hread.inside, hstart] at hle
    exact hle
  · rw [behind_append]
    exact hcurrent.symm
  · obtain ⟨x, hx, hin, hreads⟩ := Lexer.exists_reads ((hall.append hw).consistent Lexer.consistent_document
      (Text.isBoundary_zero text)) hwb hlt
    rw [← hin]
    rcases hclosing with hclosing | hclosing
    · exact Lexer.Reads.before_close (hclosing ▸ hreads)
    · exact Lexer.Reads.before_selfClose (hclosing ▸ hreads)

theorem stop_lt_endOpen (huri : isDtdUri uri = false) (he : (parse text uri).element? id = some e)
    (htag : e.tag.isSome = true) (hsp : e.tagSpan = some sp) (hclose : e.startClose.isSome = true)
    (hp : e.endOpen = some p) : sp.stop < p := by
  obtain ⟨k, hk⟩ := Option.isSome_iff_exists.mp hclose
  obtain ⟨l, w, hw, hlt, rfl, hle, hkind, hcurrent, hin⟩ := exists_startClose huri he hsp hk
  obtain ⟨sp', hsp'⟩ := Option.isSome_iff_exists.mp ((spans_isSome huri he htag).2 (by rw [hp]; rfl))
  obtain ⟨l', z, m, y, hread, hname, rfl, hz⟩ := exists_endTag huri he hsp'
  obtain rfl := Option.some.inj (hp.symm.trans hz)
  refine Nat.lt_of_le_of_lt hle (Nat.lt_of_not_le fun hbehind => ?_)
  have hzero := Text.isBoundary_zero text
  have hclosing : (w.step text).1.kind ≠ .blank ∧ (w.step text).1.kind ≠ .endTagOpen ∧
      (w.step text).1.kind ≠ .endTagName := by
    rcases hkind with hkind | hkind <;> rw [hkind] <;> exact ⟨by rintro ⟨⟩, by rintro ⟨⟩, by rintro ⟨⟩⟩
  rcases Nat.lt_trichotomy w.pos y.pos with hbefore | heq | hlater
  · -- only white space stands between the bracket and the name of the end tag
    have heq := Nat.le_antisymm (hread.le_bracket hw hlt hclosing.1 hbefore) hbehind
    obtain rfl := hw.eq_of_pos hread.before hzero heq
    exact hclosing.2.1 (hread.endTagOpen hname)
  · obtain rfl := hw.eq_of_pos hread.leads hzero heq
    exact hclosing.2.2 hname
  · -- behind that name the element is closed
    obtain ⟨he₁, hclosed⟩ := closed_behind huri he hread hname hsp' hw hlater
    have hf := (follows_start text false).behind hw
    have hunclosed : Unclosed (Builder.behind text l (start text false)).nodes
        (Builder.behind text l (start text false)).current := by
      refine (hf.fits.inTag ?_).1.unclosed
      rcases (hf.consistent.of_inStartTag hin).2.2 with hmode | hmode | hmode | hmode <;> simp [hmode]
    have hopen := core_closed_of_unclosed hunclosed id (hcurrent ▸ mem_chain_self ..) _ he₁
    cases hopen.symm.trans hclosed

theorem stop_le_of_endOpen (huri : isDtdUri uri = false) (he : (parse text uri).element? id = some e)
    (htag : e.tag.isSome = true) (hp : e.endOpen = some p) {w : Lexer} (hw : Leads text .document l w)
    (hlt : w.pos < Text.size text) (hkind : (w.step text).1.kind = .endTagOpen) (hbehind : p < w.pos) :
    ((parse text uri).span id).stop ≤ w.pos := by
  have hzero := Text.isBoundary_zero text
  have hwb := hw.boundary hzero
  obtain ⟨sp, hsp⟩ := Option.isSome_iff_exists.mp ((spans_isSome huri he htag).2 (by rw [hp]; rfl))
  obtain ⟨l₀, z, m, y, hread, hname, hspan, hz⟩ := exists_endTag huri he hsp
  obtain rfl := Option.some.inj (hp.symm.trans hz)
  -- its own end tag is read before
  have hbefore : y.pos < w.pos := by
    refine Nat.lt_of_not_le fun hle => ?_
    rcases Nat.lt_or_eq_of_le hle with hlt' | heq
    · exact Nat.not_lt_of_le (hread.le_bracket hw hlt (by rw [hkind]; rintro ⟨⟩) hlt') hbehind
    · obtain rfl := hw.eq_of_pos hread.leads hzero heq
      cases hkind.symm.trans hname
  have hall := hw.append (.one hlt)
  obtain ⟨he₁, hclosed⟩ := closed_behind huri he hread hname (hspan ▸ hsp) hall
    (Nat.lt_trans hbefore (Leads.pos_lt_step hwb hlt))
  -- and the bracket of the next one has left it
  have hmode := ((Lexer.mode_of_tagOpen (hw.consistent Lexer.consistent_document hzero) hwb hlt).2 hkind).1
  obtain ⟨i, -, hpending⟩ := ((follows_start text false).behind hall).fits.afterEndTagOpen hmode
  obtain ⟨e', hkind', hcore⟩ := core_eq_some.mp he₁
  obtain ⟨n, hn, hnode⟩ := exists_node hkind' (by rintro ⟨⟩)
  have hout : id ∉ chain _ _ := fun hmem => by
    have hopen := core_closed_of_unclosed hpending.unclosed id hmem _ he₁
    cases hopen.symm.trans hclosed
  have hsame := parse_spared huri hall (lt_size_of_getElem? hn) hout fun a ha => by rw [hkind'] at ha; cases ha
  have hstart : i = w.pos := by
    have hopen := endTagOpen_of_step (s := text) (b := Builder.behind text l (start text false))
      (w.step text).2.inDtd hkind
    rw [Leads.start_step hwb hlt] at hopen
    have hpos := hpending.endTagOpen
    rw [behind_append] at hpos
    exact Option.some.inj (hpos.symm.trans hopen)
  rw [span_eq (hsame.trans hn)]
  exact hstart ▸ (hpending.nested.inner hn (top_lt_of_element hpending.nested hkind')).2

theorem lt_stop_of_ancestor {l m : List (Token × Lexer)} {y z : Lexer} (huri : isDtdUri uri = false)
    (hread : ReadsTag text l z m y) (hkind : (y.step text).1.kind = .startTagName)
    (he : (parse text uri).element? id = some e) (hspan : e.tagSpan = some (y.step text).1.span) {a : Nat}
    {outer : Element} (ha : a ∈ (parse text uri).ancestors id) (houter : (parse text uri).element? a = some outer)
    (hended : outer.isUnended = false) : (y.step text).1.stop < ((parse text uri).span a).stop := by
  have hf := (follows_start text false).behind hread.leads
  obtain ⟨e', he', -, hspan'⟩ := names_of huri hread.leads hread.inside hkind
  obtain rfl := eq_of_tagSpan he' he hspan' hspan
  obtain ⟨hsize, -, _, he₁, -, -, hkeep⟩ := hf.opens_name hread.inside hkind
  have hlt : a < (Builder.behind text (l ++ z.step text :: m) (start text false)).current := by
    have hsorted := chain_pairwise (parse text uri).nodes
      (Builder.behind text (l ++ z.step text :: m) (start text false)).current
    rw [chain_eq_cons, List.pairwise_cons] at hsorted
    exact hsorted.1 a ha
  have hmem : a ∈ chain (parse text uri).nodes
      (Builder.behind text (l ++ z.step text :: m) (start text false)).current := by
    rw [chain_eq_cons]
    exact List.mem_cons_of_mem _ ha
  rw [(outline_parse huri hread.leads hsize).1] at hmem
  -- where the name is read, all elements around are open
  obtain ⟨e₀, he₀⟩ := (outline_parse huri hread.leads (Nat.lt_trans hlt hsize)).2 outer houter
  have hopen : (Builder.behind text (l ++ z.step text :: m) (start text false)).IsOpen a := by
    have hboundary := hread.leads.boundary (Text.isBoundary_zero text)
    have hmode := (Lexer.mode_of_name hf.consistent hboundary hread.inside).1 hkind
    obtain ⟨hsteady, -⟩ := hf.fits.inTag (.inl hmode)
    exact isOpen_of_mem_chain hmem he₀ (core_closed_of_unclosed hsteady.unclosed a hmem e₀ he₀)
  obtain ⟨e₂, hopened⟩ := hkeep a hopen (Nat.ne_of_lt hlt)
  have hall := hread.leads.append (.one hread.inside)
  have hbehind : Builder.behind text (l ++ z.step text :: m ++ [y.step text]) (start text false) =
      Builder.step text (Builder.behind text (l ++ z.step text :: m) (start text false)) (y.step text).1
        (y.step text).2.inDtd := behind_append ..
  rw [← hbehind] at hopened
  rw [Leads.stop_step hf.boundary hread.inside]
  exact lt_stop_of_ended huri hall (mem_opened.mp hopened).2.1
    (isUnended_of_started (((follows_start text false).behind hall).started a e₂ hopened)) houter hended

end Document

end XmlAssist
