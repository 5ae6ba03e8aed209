import XmlAssist.Proofs.Tree.Faithful
import XmlAssist.Proofs.Tree.Lookup
import XmlAssist.Proofs.Tree.Pairing

/-!
# Elements without an end

A tag that is missing is made up for in one way only. An element whose end tag never comes ends where
the end tag of an element around it starts, together with all in between (`CutBy`), or with the
text; that end tag never has its name, as it would have closed it. An end tag that stands alone has
no element of its name around it. Main statement: this holds of every document
(`parse_recovers`).
-/

namespace XmlAssist

open Node
open Text (size isBoundary)

/-- The element has a start tag, which is not an empty-element tag, and no end tag. -/
def Element.isUnended (e : Element) : Bool := e.hasStartTag && !e.selfClosed && !e.hasEndTag

namespace Builder

variable {s : String} {x : Lexer} {b b' : Builder} {t : Token} {e : Element} {id a p c : Nat}

/-! ## What a token leaves alone -/

theorem Acts.kept (h : Acts s b t b') : ∃ changed, Frame changed b b' ∧
    (∀ id, changed = some id → b.IsOpen id) ∧ ∀ id < b.nodes.size, b'.IsOpen id → b.IsOpen id := by
  cases h with
  | quiet _ hq => exact ⟨none, hq.toFrame, nofun, fun id _ => hq.isOpen_iff.mp⟩
  | opens _ hf hopened hnew =>
    refine ⟨none, hf, nofun, fun id hid ⟨e, he⟩ => ?_⟩
    rw [hopened, List.mem_cons] at he
    rcases he with he | he
    · obtain ⟨rfl, -⟩ := Prod.mk.inj he
      exact absurd hid (Nat.not_lt_of_le hnew)
    · exact ⟨e, he⟩
  | @names e outer _ hf _ _ hbefore _ hopened =>
    have hcurrent : b.IsOpen b.current := ⟨e, by simp [hbefore]⟩
    refine ⟨_, hf, fun id hid => Option.some.inj hid ▸ hcurrent, fun id _ ⟨e', he⟩ => ?_⟩
    rw [hopened, List.mem_cons] at he
    rcases he with he | he
    · obtain ⟨rfl, -⟩ := Prod.mk.inj he
      exact hcurrent
    · exact ⟨e', by simp [hbefore, he]⟩
  | @closes e outer _ hf _ hbefore hopened =>
    refine ⟨_, hf, fun id hid => Option.some.inj hid ▸ ⟨e, by simp [hbefore]⟩, fun id _ ⟨e', he⟩ => ?_⟩
    rw [hopened] at he
    exact ⟨e', by simp [hbefore, he]⟩
  | @ends _ _ _ _ e _ hf _ hbefore _ _ _ hopened =>
    refine ⟨_, hf, fun id hid => Option.some.inj hid ▸ ⟨e, by simp [hbefore]⟩, fun id _ ⟨e', he⟩ => ?_⟩
    rw [hopened] at he
    exact ⟨e', by simp [hbefore, he]⟩
  | stray _ _ hf _ _ hopened =>
    exact ⟨none, hf, nofun, fun id _ ⟨e, he⟩ => ⟨e, hopened ▸ he⟩⟩

theorem Acts.exists_core {e' : Element} (h : Acts s b t b') (hid : id < b.nodes.size)
    (he : b'.core id = some e') : ∃ e, b.core id = some e ∧ e'.startOpen = e.startOpen ∧
      (id + 1 < b.nodes.size → e'.tag = e.tag) := by
  have hsame {changed : Option Nat} (hf : Frame changed b b') (hne : changed ≠ some id) :
      ∃ e, b.core id = some e ∧ e'.startOpen = e.startOpen ∧
        (id + 1 < b.nodes.size → e'.tag = e.tag) :=
    ⟨e', hf.core id hid hne ▸ he, rfl, fun _ => rfl⟩
  cases h with
  | quiet _ hq => exact hsame hq.toFrame nofun
  | opens _ hf | stray _ _ hf => exact hsame hf nofun
  | @names e _ _ hf _ hlast hbefore _ hopened =>
    by_cases heq : b.current = id
    · obtain rfl := Option.some.inj ((core_of_opened (l := []) hopened).symm.trans (heq ▸ he))
      exact ⟨e, heq ▸ core_of_opened (l := []) hbefore, rfl, fun hlt => by omega⟩
    · exact hsame hf (by simpa using heq)
  | @closes e _ _ hf _ hbefore _ hcore =>
    by_cases heq : b.current = id
    · obtain rfl := Option.some.inj (hcore.symm.trans (heq ▸ he))
      exact ⟨e, heq ▸ core_of_opened (l := []) hbefore, rfl, fun _ => rfl⟩
    · exact hsame hf (by simpa using heq)
  | @ends _ _ _ a e _ hf _ hbefore _ _ _ _ hcore =>
    by_cases heq : a = id
    · obtain rfl := Option.some.inj (hcore.symm.trans (heq ▸ he))
      exact ⟨e, heq ▸ core_of_opened hbefore, rfl, fun _ => rfl⟩
    · exact hsame hf (by simpa using heq)

/-- A new element that is not open has no start tag; if it has a name, then none of the elements
around it has that name. -/
theorem Acts.fresh (h : Acts s b t b') (hid : b.nodes.size ≤ id) (he : b'.core id = some e)
    (hopen : ¬ b'.IsOpen id) : e.startOpen = none ∧ ∀ c ∈ chain b'.nodes id, c < id →
      ∀ e', b'.core c = some e' → e.tag.isSome = true → e'.tag ≠ e.tag := by
  have hlt := lt_size_of_core he
  cases h with
  | quiet _ hq =>
    obtain ⟨htag, hstart⟩ := hq.fresh id e hid he
    exact ⟨hstart, by simp [htag]⟩
  | opens _ _ hopened _ hfresh =>
    have hne : id ≠ b'.current := by
      rintro rfl
      exact hopen ⟨_, hopened ▸ List.mem_cons_self⟩
    obtain ⟨htag, hstart⟩ := hfresh id e hid hne he
    exact ⟨hstart, by simp [htag]⟩
  | names _ _ hsize | closes _ _ hsize | ends _ _ _ hsize => omega
  | stray _ _ hf hsize hothers _ hchain hcore =>
    obtain rfl : id = b.nodes.size := by omega
    obtain rfl := Option.some.inj (hcore.symm.trans he)
    refine ⟨rfl, fun c hc hlt e' he' _ => ?_⟩
    rw [hchain, List.mem_cons] at hc
    rw [hf.core c hlt nofun] at he'
    exact hothers c (hc.resolve_left (Nat.ne_of_lt hlt)) e' he'

/-! ## Elements that were cut off -/

/-- The end tag of the element `a` starts at `p`, where it left `id` and all in between without an
end. -/
structure CutBy (b : Builder) (id a p : Nat) : Prop where
  around : a ∈ chain b.nodes id
  lt : a < id
  ends : ∃ e, b.core a = some e ∧ e.endOpen = some p ∧ ∀ e', b.core id = some e' → e.tag ≠ e'.tag
  between : ∀ c ∈ chain b.nodes id, a < c → ∀ e, b.core c = some e →
    ¬ b.IsOpen c ∧ e.closed = false ∧ e.endOpen = none ∧ b.stopOf c = p

theorem CutBy.acts (h : CutBy b id a p) (hf : Follows s x b) (hacts : Acts s b t b') :
    CutBy b' id a p := by
  obtain ⟨changed, hframe, hchanged, hopen⟩ := hacts.kept
  have hid : id < b.nodes.size := lt_size_of_mem_chain_of_ne h.around (Nat.ne_of_lt h.lt)
  have hsize {c : Nat} (hc : c ∈ chain b.nodes id) : c < b.nodes.size := lt_size_of_mem_chain hid hc
  have hcore {c : Nat} (hc : c ∈ chain b.nodes id) (hclosed : ¬ b.IsOpen c) :
      b'.core c = b.core c := hframe.core c (hsize hc) fun heq => hclosed (hchanged c heq)
  have hsame {c : Nat} (hc : c ∈ chain b.nodes id) (hlt : a < c) : b'.core c = b.core c :=
    hcore hc fun ⟨e, he⟩ => (h.between c hc hlt e (mem_opened.mp he).2.1).1 ⟨e, he⟩
  obtain ⟨e, he, hend, htag⟩ := h.ends
  have hended : ¬ b.IsOpen a := fun ⟨e', he'⟩ => by
    obtain rfl := Option.some.inj (he.symm.trans (mem_opened.mp he').2.1)
    rw [(hf.started a e he').2.1] at hend
    cases hend
  refine ⟨(hframe.chain id hid).symm ▸ h.around, h.lt, ⟨e, (hcore h.around hended).trans he, hend, ?_⟩, ?_⟩
  · rwa [hsame (mem_chain_self ..) h.lt]
  · rw [hframe.chain id hid]
    intro c hc hlt e' he'
    rw [hsame hc hlt] at he'
    obtain ⟨hclosed, hunclosed, hnone, hstop⟩ := h.between c hc hlt e' he'
    exact ⟨mt (hopen c (hsize hc)) hclosed, hunclosed, hnone,
      (hframe.stop c e' he' hunclosed hclosed).trans hstop⟩

theorem Acts.cut (hacts : Acts s b t b') (hf : Follows s x b) (hbefore : b.IsOpen id)
    (hafter : ¬ b'.IsOpen id) (he : b'.core id = some e) (hun : e.isUnended = true) :
    ∃ a p, CutBy b' id a p ∧ t.kind = .endTagName ∧
      ∃ e', b'.core a = some e' ∧ e'.closed = true ∧ e'.tag.isSome = true ∧ e'.endTagSpan = some t.span := by
  obtain ⟨e₀, hmem⟩ := hbefore
  cases hacts with
  | quiet _ hq => exact absurd ⟨e₀, hq.opened ▸ hmem⟩ hafter
  | opens _ _ hopened => exact absurd ⟨e₀, hopened ▸ List.mem_cons_of_mem _ hmem⟩ hafter
  | stray _ _ _ _ _ hopened => exact absurd ⟨e₀, hopened ▸ hmem⟩ hafter
  | names _ _ _ _ hb _ hopened =>
    rw [hb, List.mem_cons] at hmem
    rcases hmem with hmem | hmem
    · obtain ⟨rfl, -⟩ := Prod.mk.inj hmem
      exact absurd ⟨_, hopened ▸ List.mem_cons_self⟩ hafter
    · exact absurd ⟨e₀, hopened ▸ List.mem_cons_of_mem _ hmem⟩ hafter
  | closes _ _ _ hb hopened hcore =>
    rw [hb, List.mem_cons] at hmem
    rcases hmem with hmem | hmem
    · obtain ⟨rfl, -⟩ := Prod.mk.inj hmem
      obtain rfl := Option.some.inj (hcore.symm.trans he)
      simp [Element.isUnended] at hun
    · exact absurd ⟨e₀, hopened ▸ hmem⟩ hafter
  | @ends start inner outer a ea hkind hframe _ hb hunclosed hothers htag hopened hcore hstop =>
    obtain ⟨hinner, houter⟩ := opened_sorted hb
    have hcore' {c : Nat} (hc : c ∈ chain b.nodes b.current) (hlt : a < c) :
        b'.core c = b.core c := by
      obtain ⟨_, hn⟩ := hf.fits.nested
      obtain ⟨n, hn, -⟩ := hn.current_node
      refine hframe.core c (lt_size_of_mem_chain (lt_size_of_getElem? hn) hc) ?_
      simpa using Nat.ne_of_lt hlt
    -- what is open inside the element, and nothing else that is open, has a greater number
    have hmem_inner {c : Nat} {e : Element} (hc : (c, e) ∈ b.opened) (hlt : a < c) :
        (c, e) ∈ inner := by
      rw [hb, List.mem_append, List.mem_cons] at hc
      rcases hc with hc | hc | hc
      · exact hc
      · obtain ⟨rfl, -⟩ := Prod.mk.inj hc
        exact absurd hlt (Nat.lt_irrefl _)
      · exact absurd hlt (Nat.lt_asymm (houter _ hc))
    have hclosed {c : Nat} (hlt : a < c) : ¬ b'.IsOpen c := fun ⟨e, hc⟩ =>
      absurd hlt (Nat.lt_asymm (houter _ (hopened ▸ hc)))
    have hmem' := hmem
    rw [hb, List.mem_append, List.mem_cons] at hmem'
    rcases hmem' with hmem' | hmem' | hmem'
    · have hlt : a < id := hinner _ hmem'
      have hid := (mem_opened.mp hmem).1
      have ha : (a, ea) ∈ b.opened := by simp [hb]
      have hchain : chain b'.nodes id = chain b.nodes id :=
        hframe.chain id (lt_size_of_core (mem_opened.mp hmem).2.1)
      refine ⟨a, start, ⟨?_, hlt, ⟨_, hcore, rfl, fun e' he' => ?_⟩, fun c hc hac e' he' => ?_⟩,
        hkind, _, hcore,
        rfl, by rw [htag]; rfl, rfl⟩
      · rw [hchain]
        exact mem_chain_of_le (mem_opened.mp ha).1 hid (Nat.le_of_lt hlt)
      · rw [hcore' hid hlt, (mem_opened.mp hmem).2.1] at he'
        obtain rfl := Option.some.inj he'
        exact fun heq => hothers _ hmem' (heq.symm.trans htag)
      · rw [hchain] at hc
        have hc' := mem_chain_trans hid hc
        rw [hcore' hc' hac] at he'
        have hopen : (c, e') ∈ b.opened := mem_opened.mpr ⟨hc', he', hunclosed c hc' e' he'⟩
        exact ⟨hclosed hac, hunclosed c hc' e' he', (hf.started c e' hopen).2.1,
          hstop _ (hmem_inner hopen hac)⟩
    · obtain ⟨rfl, rfl⟩ := Prod.mk.inj hmem'
      obtain rfl := Option.some.inj (hcore.symm.trans he)
      simp [Element.isUnended, Element.hasEndTag] at hun
    · exact absurd ⟨e₀, hopened ▸ hmem'⟩ hafter

/-- Elements that are not open were ended, or cut off; end tags that stand alone have no element of
their name around them. -/
structure Recovered (b : Builder) : Prop where
  cut : ∀ id e, b.core id = some e → e.isUnended = true → ¬ b.IsOpen id → ∃ a p, b.CutBy id a p
  alone : ∀ id e, b.core id = some e → e.startOpen = none → e.tag.isSome = true →
    ∀ c ∈ chain b.nodes id, c < id → ∀ e', b.core c = some e' → e'.tag ≠ e.tag

theorem Recovered.acts (h : Recovered b) (hf : Follows s x b) (hacts : Acts s b t b') :
    Recovered b' := by
  obtain ⟨changed, hframe, hchanged, hopen⟩ := hacts.kept
  have hsame {id : Nat} (hid : id < b.nodes.size) (hb : ¬ b.IsOpen id) : b'.core id = b.core id :=
    hframe.core id hid fun heq => hb (hchanged id heq)
  refine ⟨fun id e he hun hafter => ?_, fun id e he hstart htag c hc hlt e' he' => ?_⟩
  · rcases Nat.lt_or_ge id b.nodes.size with hid | hid
    · by_cases hb : b.IsOpen id
      · obtain ⟨a, p, hcut, -⟩ := hacts.cut hf hb hafter he hun
        exact ⟨a, p, hcut⟩
      · obtain ⟨a, p, hcut⟩ := h.cut id e (hsame hid hb ▸ he) hun hb
        exact ⟨a, p, hcut.acts hf hacts⟩
    · have hstart := (hacts.fresh hid he hafter).1
      simp [Element.isUnended, Element.hasStartTag, hstart] at hun
  · rcases Nat.lt_or_ge id b.nodes.size with hid | hid
    · obtain ⟨e₀, he₀, hstart₀, -⟩ := hacts.exists_core hid he
      have hb : ¬ b.IsOpen id := fun ⟨e₁, he₁⟩ => by
        obtain rfl := Option.some.inj (he₀.symm.trans (mem_opened.mp he₁).2.1)
        simpa [← hstart₀, hstart] using (hf.started id e₀ he₁).1
      obtain ⟨e'', he'', -, htag'⟩ := hacts.exists_core (Nat.lt_trans hlt hid) he'
      rw [htag' (by omega)]
      exact h.alone id e (hsame hid hb ▸ he) hstart htag c (hframe.chain id hid ▸ hc) hlt e'' he''
    · have hafter : ¬ b'.IsOpen id := fun ⟨e₁, he₁⟩ => by
        obtain rfl := Option.some.inj (he.symm.trans (mem_opened.mp he₁).2.1)
        simpa [hstart] using (hacts.started hf.started id e he₁).1
      exact (hacts.fresh hid he hafter).2 c hc hlt e' he' htag

theorem recovered_atEnd (s : String) (dtdFile : Bool) :
    ∃ b, b.nodes = build s dtdFile ∧ Recovered b ∧
      ∀ id, b.IsOpen id → b.stopOf id = size s := by
  have hstart : Recovered (start s dtdFile) :=
    ⟨fun id e he => by simp [core_start] at he, fun id e he => by simp [core_start] at he⟩
  obtain ⟨y, hpos, hf, hrun⟩ := Follows.run _ _ (follows_start s dtdFile) hstart
    fun _ _ _ _ hf hacts h => h.acts hf hacts
  have hquiet := hf.fits.quiet_atEnd
  -- the end of the text acts like one more token, which opens and closes nothing
  have hacts : Acts s _ ⟨.eos, size s, size s, none⟩ _ := .quiet rfl hquiet
  refine ⟨_, (build_eq s dtdFile).symm, hrun.acts hf hacts, fun id hopen => ?_⟩
  obtain ⟨e, he⟩ := hquiet.isOpen_iff.mp hopen
  exact hf.fits.stopOf_atEnd hpos he

theorem start_lt_of_mem_scanned (x : Lexer) (hx : isBoundary s x.pos = true) :
    ∀ t ∈ scanned s x, t.start < size s := by
  rcases Nat.lt_or_ge x.pos (size s) with hlt | hge
  · have hmoves := Lexer.moves_lex hx hlt
    have hstep := Lexer.step_eq_lex hx hlt
    have hnext : (x.step s).2.pos = (Lexer.lex s x).lexer.pos := by rw [hstep]
    have hahead : x.pos < (x.step s).2.pos := hnext ▸ hmoves.ahead.1
    have hstart : (x.step s).1.start = x.pos := by rw [hstep]
    rw [scanned_of_lt hx hlt, List.forall_mem_cons]
    exact ⟨hstart ▸ hlt, start_lt_of_mem_scanned (x.step s).2 (hnext ▸ hmoves.ahead.2)⟩
  · simp [scanned, Lexer.tokens_at_end hge]
termination_by size s - x.pos
decreasing_by omega

end Builder

namespace Document

variable {d : Document} {b : Builder} {id a : Nat} {e : Element}

theorem core_eq_element? (hb : b.nodes = d.nodes) (id : Nat) :
    b.core id = (d.element? id).map Element.core := by
  rw [Builder.core, Builder.kindOf, hb, element?, node, Array.getD_eq_getD_getElem?]
  cases d.nodes[id]? with
  | none => rfl
  | some n =>
    show n.kind.core = n.element?.map Element.core
    unfold Node.element?
    cases n.kind <;> rfl

theorem kind_of_element? {n : Node} (h : n.element? = some e) : n.kind = .element e := by
  unfold Node.element? at h
  split at h
  · rwa [← Option.some.inj h]
  · cases h

theorem exists_node_of_element? (h : d.element? id = some e) :
    ∃ n, d.nodes[id]? = some n ∧ n.element? = some e := by
  rw [element?, node, Array.getD_eq_getD_getElem?] at h
  cases hn : d.nodes[id]? with
  | none =>
    rw [hn] at h
    cases h
  | some n => exact ⟨n, rfl, by simpa [hn] using h⟩

theorem stopOf_eq (hb : b.nodes = d.nodes) (id : Nat) : b.stopOf id = (d.span id).stop := by
  rw [Builder.stopOf, hb, span, node, Array.getD_eq_getD_getElem?]
  cases d.nodes[id]? <;> rfl

theorem keepsTokens (text uri : String) : (parse text uri).KeepsTokens := by
  obtain ⟨hparts, hends, -⟩ := Builder.build_keeps text (isDtdUri uri)
  refine keepsTokens_of_parts ?_ hparts hends
  rw [tokens_parse]
  split <;> exact (Builder.scanned_pairwise _ (Text.isBoundary_zero text)).1

theorem endOpen_perm (text uri : String) :
    ((parse text uri).elementRecords.filterMap (·.endOpen)).Perm
      (((parse text uri).tokens.filter (·.kind = .endTagOpen)).map (·.start)) :=
  (keepsTokens text uri).endTagOpen

theorem endOpen_lt {text uri : String} {p : Nat} (h : (parse text uri).element? id = some e)
    (hp : e.endOpen = some p) : p < Text.size text := by
  obtain ⟨n, hn, hne⟩ := exists_node_of_element? h
  have hmem : p ∈ (parse text uri).elementRecords.filterMap (·.endOpen) := by
    refine List.mem_filterMap.mpr ⟨e, List.mem_filterMap.mpr ⟨n, ?_, hne⟩, hp⟩
    exact Array.mem_toList_iff.mpr (Array.mem_of_getElem? hn)
  rw [(endOpen_perm text uri).mem_iff, tokens_parse] at hmem
  obtain ⟨t, ht, rfl⟩ := List.mem_map.mp hmem
  refine Builder.start_lt_of_mem_scanned _ ?_ t (List.mem_filter.mp ht).1
  split <;> exact Text.isBoundary_zero text

theorem eq_of_nodup {α : Type} {mark : Element → Option α} {e' : Element} {v : α}
    (hnodup : (d.elementRecords.filterMap mark).Nodup) (h : d.element? id = some e)
    (h' : d.element? a = some e') (hv : mark e = some v) (hv' : mark e' = some v) : id = a := by
  obtain ⟨n, hn, hne⟩ := exists_node_of_element? h
  obtain ⟨n', hn', hne'⟩ := exists_node_of_element? h'
  rw [elementRecords, List.filterMap_filterMap, List.Nodup, List.pairwise_filterMap,
    List.pairwise_iff_getElem] at hnodup
  obtain ⟨hid, rfl⟩ := Array.getElem?_eq_some_iff.mp hn
  obtain ⟨ha, rfl⟩ := Array.getElem?_eq_some_iff.mp hn'
  have hkept := Option.bind_eq_some_iff.mpr ⟨e, hne, hv⟩
  have hkept' := Option.bind_eq_some_iff.mpr ⟨e', hne', hv'⟩
  rcases Nat.lt_trichotomy id a with hlt | heq | hlt
  · exact absurd rfl (hnodup id a hid ha hlt v hkept v hkept')
  · exact heq
  · exact absurd rfl (hnodup a id ha hid hlt v hkept' v hkept)

theorem KeepsTokens.nodup {α : Type} {p : Token → Bool} {v : Token → α} (h : d.KeepsTokens)
    (hv : ∀ t t', v t = v t' → t.start = t'.start) : ((d.tokens.filter p).map v).Nodup := by
  refine List.Pairwise.map _ (fun t t' hlt heq => ?_) (h.distinct.filter _)
  exact absurd (hv t t' heq) (Nat.ne_of_lt hlt)

theorem eq_of_endOpen {text uri : String} {e' : Element} {p : Nat}
    (h : (parse text uri).element? id = some e) (h' : (parse text uri).element? a = some e')
    (hp : e.endOpen = some p) (hp' : e'.endOpen = some p) : id = a := by
  have hkeeps := keepsTokens text uri
  exact eq_of_nodup (hkeeps.endTagOpen.nodup_iff.mpr (hkeeps.nodup fun _ _ h => h)) h h' hp hp'

theorem eq_of_tagSpan {text uri : String} {e' : Element} {sp : Span}
    (h : (parse text uri).element? id = some e) (h' : (parse text uri).element? a = some e')
    (hsp : e.tagSpan = some sp) (hsp' : e'.tagSpan = some sp) : id = a := by
  have hkeeps := keepsTokens text uri
  exact eq_of_nodup (hkeeps.startTagName ▸ hkeeps.nodup fun _ _ => congrArg Span.start) h h' hsp hsp'

theorem eq_of_endTagSpan {text uri : String} {e' : Element} {sp : Span}
    (h : (parse text uri).element? id = some e) (h' : (parse text uri).element? a = some e')
    (hsp : e.endTagSpan = some sp) (hsp' : e'.endTagSpan = some sp) : id = a := by
  have hkeeps := keepsTokens text uri
  exact eq_of_nodup (hkeeps.endTagName.nodup_iff.mpr (hkeeps.nodup fun _ _ => congrArg Span.start))
    h h' hsp hsp'

/-- What is made of tags that are missing. -/
structure Recovers (d : Document) : Prop where
  cut : ∀ id e, d.element? id = some e → e.isUnended = true → (d.span id).stop = d.size ∨
    ∃ a ∈ d.ancestors id, ∃ outer, d.element? a = some outer ∧ outer.endOpen = some (d.span id).stop ∧
      ∀ c ∈ d.ancestors id, a ∈ d.ancestors c → ∀ inner, d.element? c = some inner →
        inner.hasEndTag = false ∧ (d.span c).stop = (d.span id).stop
  nearest : ∀ id e, d.element? id = some e → e.isUnended = true →
    ∀ a outer, d.element? a = some outer → outer.endOpen = some (d.span id).stop → outer.tag ≠ e.tag
  alone : ∀ id e, d.element? id = some e → e.hasStartTag = false → e.tag.isSome = true →
    ∀ a ∈ d.ancestors id, ∀ outer, d.element? a = some outer → outer.tag ≠ e.tag

section recovered
variable {text uri : String} {b : Builder} (hnodes : b.nodes = (parse text uri).nodes) (hrec : b.Recovered)
include hnodes

theorem core_of_element? (he : (parse text uri).element? id = some e) : b.core id = some e.core := by
  rw [core_eq_element? hnodes, he]
  rfl

include hrec

theorem exists_cutBy (hid : ¬ b.IsOpen id) (he : (parse text uri).element? id = some e) (hun : e.isUnended = true) :
    ∃ a outer, b.CutBy id a ((parse text uri).span id).stop ∧ (parse text uri).element? a = some outer ∧
      outer.endOpen = some ((parse text uri).span id).stop := by
  obtain ⟨a, p, hcut⟩ := hrec.cut id e.core (core_of_element? hnodes he) hun hid
  obtain ⟨e', he', hend, -⟩ := hcut.ends
  rw [core_eq_element? hnodes] at he'
  obtain ⟨outer, houter, rfl⟩ := Option.map_eq_some_iff.mp he'
  obtain ⟨-, -, -, hp⟩ := hcut.between id (mem_chain_self ..) hcut.lt e.core (core_of_element? hnodes he)
  rw [stopOf_eq hnodes] at hp
  exact ⟨a, outer, hp ▸ hcut, houter, hp ▸ hend⟩

end recovered

/-- An element that is left without an end tag ends with the text, or at the end tag of one around it. -/
theorem stop_of_isUnended {text uri : String} (he : (parse text uri).element? id = some e) (hun : e.isUnended = true) :
    ((parse text uri).span id).stop = (parse text uri).size ∨
      ∃ a ∈ (parse text uri).ancestors id, ∃ outer, (parse text uri).element? a = some outer ∧
        outer.endOpen = some ((parse text uri).span id).stop ∧
        ∀ c ∈ (parse text uri).ancestors id, a ∈ (parse text uri).ancestors c → ∀ inner,
          (parse text uri).element? c = some inner →
          inner.hasEndTag = false ∧ ((parse text uri).span c).stop = ((parse text uri).span id).stop := by
  obtain ⟨b, hnodes, hrec, hopen⟩ := Builder.recovered_atEnd text (isDtdUri uri)
  have hb : b.nodes = (parse text uri).nodes := hnodes
  by_cases hid : b.IsOpen id
  · exact .inl ((stopOf_eq hb id).symm.trans (hopen id hid))
  · obtain ⟨a, outer, hcut, houter, hend⟩ := exists_cutBy hb hrec hid he hun
    refine .inr ⟨a, mem_ancestors.mpr ⟨hb ▸ hcut.around, hcut.lt⟩, outer, houter, hend, ?_⟩
    intro c hc hac inner hinner
    obtain ⟨-, -, hnone, hp⟩ := hcut.between c (hb ▸ (mem_ancestors.mp hc).1)
      (mem_ancestors.mp hac).2 inner.core (core_of_element? hb hinner)
    exact ⟨Option.isSome_eq_false_iff.mpr (Option.isNone_iff_eq_none.mpr hnone), (stopOf_eq hb c).symm.trans hp⟩

/-- **Tags that are missing**: an element that is left without an end tag ends with the text or at
the end tag of an element around it of another name, with all in between; an end tag that stands alone
has no element of its name around it. -/
theorem parse_recovers (text uri : String) : (parse text uri).Recovers := by
  obtain ⟨b, hnodes, hrec, hopen⟩ := Builder.recovered_atEnd text (isDtdUri uri)
  have hb : b.nodes = (parse text uri).nodes := hnodes
  refine ⟨fun id e he hun => stop_of_isUnended he hun, fun id e he hun a outer ha hend => ?_,
    fun id e he hstart htag a ha outer houter => ?_⟩
  · by_cases hid : b.IsOpen id
    · rw [← stopOf_eq hb id, hopen id hid] at hend
      exact absurd (endOpen_lt ha hend) (Nat.lt_irrefl _)
    · obtain ⟨a', outer', hcut, houter, hend'⟩ := exists_cutBy hb hrec hid he hun
      obtain rfl := eq_of_endOpen ha houter hend hend'
      obtain rfl := Option.some.inj (ha.symm.trans houter)
      obtain ⟨e', he', -, htag⟩ := hcut.ends
      obtain rfl := Option.some.inj ((core_of_element? hb ha).symm.trans he')
      exact htag e.core (core_of_element? hb he)
  · obtain ⟨ha, hlt⟩ := mem_ancestors.mp ha
    have hnone : e.startOpen = none := Option.isNone_iff_eq_none.mp (Option.isSome_eq_false_iff.mp hstart)
    exact hrec.alone id e.core (core_of_element? hb he) hnone htag a (hb ▸ ha) hlt outer.core
      (core_of_element? hb houter)

end Document

end XmlAssist
