import XmlAssist.Proofs.Completion.EndTags

/-!
# The end tag behind a start tag

Behind the `>` of a start tag its end tag is inserted. The start tag is read as before, as no token of it looks beyond
the `>` (`ReadsStartTag.upTo_close`), and its element is the current node there without children. So the end tag
closes just that element (`closes_current`). With what is known of names behind `</`, all that is inserted while
typing fits (`tagToInsert_sound`).
-/

namespace XmlAssist

open Node
open Text (SameTo byte? size isBoundary bytesOf rest)
open Lexer (Leads cursor)

variable {s s' uri : String} {x y z w : Lexer} {l m r : List (Token × Lexer)} {id i j p : Nat}

theorem ReadsTag.upTo_name (h : ReadsTag s l z m y) (hname : (y.step s).1.kind = .startTagName)
    (hsame : SameTo s s' p) (hp : y.pos < p) : Leads s' .document (l ++ z.step s :: m) y := by
  have hzero := Text.isBoundary_zero s
  obtain ⟨hawaits, j, hj⟩ := Lexer.exists_name (h.leads.consistent Lexer.consistent_document hzero)
    (h.leads.boundary hzero) h.inside (.inl hname)
  obtain ⟨-, b, hb, hstart⟩ := Lexer.name?_eq_some hj
  exact h.leads.upToName hawaits (hsame.mono (Nat.le_of_lt hp)) hb hstart ((hsame.byte hp).trans hb) hstart

namespace ReadsStartTag

variable (h : ReadsStartTag s l z m y r w)
include h

theorem step_close : byte? s w.pos = some 0x3E ∧
    w.step s = (⟨.startTagClose, w.pos, w.pos + 1, none⟩, cursor .content (w.pos + 1) w.back.spaced) := by
  have hzero := Text.isBoundary_zero s
  have hb := h.before_close.boundary hzero
  have hbyte := ((Lexer.extent_step s w).close h.close).1
  rw [Leads.start_step hb h.before_end] at hbyte
  have hlex := Lexer.lex_closeInTag (h.before_close.consistent Lexer.consistent_document hzero) h.in_tag hbyte
  refine ⟨hbyte, ?_⟩
  rw [Lexer.step_of_lex (by rw [hlex]; exact Nat.lt_succ_self _), hlex]

/-- A start tag up to its `>` is read in every text that is the same up to there, if a bracket follows. -/
theorem upTo_close (hsame : SameTo s s' (w.pos + 1)) (hb' : byte? s' (w.pos + 1) = some 0x3C) :
    Leads s' .document (l ++ z.step s :: m ++ y.step s :: r ++ [w.step s]) (w.step s).2 := by
  have hzero := Text.isBoundary_zero s
  have hyb := h.leads.boundary hzero
  have hyc := h.leads.consistent Lexer.consistent_document hzero
  have hnext := Leads.boundary_step hyb h.inside
  have hahead := Leads.pos_lt_step hyb h.inside
  have hyw := h.tokens.pos_le hnext
  obtain ⟨hbyte, hclose⟩ := h.step_close
  -- up to the name
  have hname := h.toReadsTag.upTo_name h.name hsame (by omega)
  -- behind it
  have hmode := (Lexer.mode_of_name hyc hyb h.inside).1 h.name
  have htag : Leads s y (y.step s :: r ++ [w.step s]) (w.step s).2 :=
    .append (.next h.inside h.tokens) (.one h.before_end)
  rw [List.append_assoc]
  refine hname.append (htag.sameTo hsame hyb hyc (by rw [Lexer.inStartTag, hmode]) ?_ ?_)
  · rw [List.dropLast_concat]
    exact h.stays
  · intro q hq
    rcases List.mem_append.mp hq with hq | hq
    · have hle : q.2.pos ≤ w.pos := by
        rcases List.mem_cons.mp hq with rfl | hq
        · exact hyw
        · have := h.tokens.bounds hnext hq
          omega
      refine ⟨.inl (Nat.lt_succ_of_le hle), fun _ hslash => ?_, fun _ => hb', ?_⟩
      · have hne : q.2.pos ≠ w.pos := by
          intro heq
          have hslash : byte? s q.2.pos = some 0x2F := hslash
          rw [heq, hbyte] at hslash
          cases hslash
        show q.2.pos + 1 < w.pos + 1
        omega
      · rcases List.mem_cons.mp hq with rfl | hq
        · show (y.step s).1.kind.inStartTag = true
          rw [h.name]
          rfl
        · exact h.tag_kinds q hq
    · obtain rfl := List.mem_singleton.mp hq
      rw [hclose]
      exact ⟨.inr ⟨rfl, rfl, ⟨_, hb', by decide, by decide⟩, by simp⟩,
        fun hlt => absurd hlt (Nat.lt_irrefl _), by simp,
        rfl⟩

end ReadsStartTag

namespace Builder

variable {b : Builder} {e : Element} {n : Node} {top edge o k : Nat} {inDtd : Bool}

/-- Where nothing but nodes is open, new markup forgets the open attribute only. -/
theorem Steady.beforeMarkup (h : b.Steady s top edge) (hd : b.doctype = none) :
    b.beforeMarkup i inDtd = { b with openAttribute := none } := by
  have hsettle : b.settle i = { b with openAttribute := none } := by
    rw [settle, flushEndTag_eq h.forget.endTagOpen, leaveDeclaration_eq h.forget.declaration]
  have hnone : (b.settle i).doctype = none := by
    rw [hsettle]
    exact hd
  rw [beforeMarkup_eq, hnone]
  show (b.settle i).leaveClosedElement = _
  rw [hsettle]
  exact h.forget.leaveClosedElement_eq

theorem getElem?_update (k : Kind) (stop : Nat) (hn : b.nodes[id]? = some n) :
    (b.update id k stop).nodes[id]? = some { n with kind := k, span := n.span.extendTo stop } := by
  rw [update, modify, Array.getElem?_modify, if_pos rfl, hn]
  rfl

theorem parentOf_of_getElem? (hn : b.nodes[id]? = some n) : b.parentOf id = n.parent.getD 0 := by
  rw [parentOf, hn]
  rfl

theorem step_endTagName_current (hcurrent : b.kindOf b.current = .element e) (hopen : e.closed = false)
    (htag : e.tag = some (Text.slice s i j)) :
    step s { b with endTagOpen := some o } ⟨.endTagName, i, j, none⟩ inDtd =
      { b with endTagOpen := none }.update b.current
        (.element { e with closed := true, endOpen := some o, endTagSpan := some ⟨i, j⟩ }) j := by
  obtain ⟨outer, hchain, -⟩ := exists_chain_eq_cons b.nodes b.current
  have his : isOpenAs { b with endTagOpen := none } (Text.slice s i j) b.current = true := by
    rw [isOpenAs, show kindOf { b with endTagOpen := none } b.current = .element e from hcurrent]
    simp [hopen, htag]
  rw [step_endTagName, endTag_eq rfl]
  simp only [hchain, List.find?_cons_of_pos his, List.takeWhile_cons, his, Bool.not_true, Bool.false_eq_true, if_false]
  rw [closeAt, List.foldl_nil]
  simp only [show kindOf { b with endTagOpen := none } b.current = .element e from hcurrent]
  rfl

/-- **The end tag of the current element** closes it without a change of its children. -/
theorem behind_endTag (h : b.Steady s top edge) (hd : b.doctype = none) (hn : b.nodes[b.current]? = some n)
    (hkind : n.kind = .element e) (htag : e.tag = some (Text.slice s i j)) (x y z : Lexer) :
    (behind s [(⟨.endTagOpen, o, i, none⟩, x), (⟨.endTagName, i, j, none⟩, y),
      (⟨.endTagClose, j, k, none⟩, z)]
        b).current = b.parentOf b.current ∧
      ∃ n', (behind s [(⟨.endTagOpen, o, i, none⟩, x), (⟨.endTagName, i, j, none⟩, y),
          (⟨.endTagClose, j, k, none⟩, z)] b).nodes[b.current]? = some n' ∧ n'.children = n.children ∧
        n'.kind = .element
          { e with closed := true, endOpen := some o, endTagSpan := some ⟨i, j⟩, endClose := some j } := by
  have hopen : e.closed = false := by
    have hunclosed := h.unclosed b.current (mem_chain_self ..) n hn
    rw [hkind] at hunclosed
    exact hunclosed
  have hcurrent : b.kindOf b.current = .element e := (kindOf_eq hn).trans hkind
  rw [behind_cons, behind_cons, behind_cons, behind_nil, step_endTagOpen, h.beforeMarkup hd,
    step_endTagName_current (b := { b with openAttribute := none }) hcurrent hopen htag]
  have hclosing (k' : Kind) : kindOf ({ b with openAttribute := none, endTagOpen := none }.update b.current k' j)
      b.current = k' := kindOf_update (b := { b with openAttribute := none, endTagOpen := none }) hcurrent (by simp)
  rw [step_endTagClose (hclosing _) rfl rfl rfl]
  -- only the kind of the node and its end are changed
  have hnamed := getElem?_update (b := { b with openAttribute := none, endTagOpen := none })
    (.element { e with closed := true, endOpen := some o, endTagSpan := some ⟨i, j⟩ }) j hn
  exact ⟨(parentOf_of_getElem? (getElem?_update _ _ hnamed)).trans (parentOf_of_getElem? hn).symm, _,
    getElem?_update _ _ hnamed, rfl, rfl⟩

end Builder

namespace Lexer

theorem Leads.of_lex {kind : Token.Kind} (hlex : lex s x = ⟨kind, y, none⟩) (hk : kind ≠ .eos)
    (hlt : x.pos < y.pos) : Leads s x [(⟨kind, x.pos, y.pos, none⟩, y)] y := by
  have hx : x.pos < size s := by
    refine Nat.lt_of_not_le fun hle => ?_
    rw [lex, if_pos hle, Lexed.mk.injEq] at hlex
    exact hk hlex.1.symm
  have hlead := Leads.one hx
  rwa [step_of_lex (by rw [hlex]; exact hlt), hlex] at hlead

theorem lex_endTagOpen_of_yields (hc : x.Consistent) (hfile : x.dtdFile = false) (hmode : x.mode.yields = true)
    (hb : byte? s x.pos = some 0x3C) (hslash : byte? s (x.pos + 1) = some 0x2F) :
    lex s x = ⟨.endTagOpen, cursor .afterEndTagOpen (x.pos + 2) x.back.spaced, none⟩ := by
  have hsees : x.seesTagOpen 0x2F = true := by
    rw [seesTagOpen, inDtd, hfile]
    cases x.inSubset <;> rfl
  rcases lex_tagOpen hb hslash ⟨by decide, by decide⟩ hc hmode with ⟨-, hlex⟩ | ⟨hnone, -⟩
  · rw [hlex, tagOpen_cursor (by rw [back_dtdFile, hfile]), if_pos rfl, back_pos]
  · cases hsees.symm.trans hnone

theorem leads_endTag {name : String} (hc : x.Consistent) (hfile : x.dtdFile = false) (hmode : x.mode.yields = true)
    (h : Text.Stands s x.pos ("</" ++ (name ++ ">"))) (hname : Written.isName name) :
    Leads s x
      [(⟨.endTagOpen, x.pos, x.pos + size "</", none⟩, cursor .afterEndTagOpen (x.pos + size "</") x.back.spaced),
        (⟨.endTagName, x.pos + size "</", x.pos + size "</" + size name, none⟩,
          cursor .inEndTag (x.pos + size "</" + size name) x.back.spaced),
        (⟨.endTagClose, x.pos + size "</" + size name, x.pos + size "</" + size name + size ">", none⟩,
          cursor .content (x.pos + size "</" + size name + size ">") x.back.spaced)]
      (cursor .content (x.pos + size "</" + size name + size ">") x.back.spaced) := by
  obtain ⟨_, hr₁⟩ := h.left.rest
  obtain ⟨r₂, hr₂⟩ := h.right.rest_append
  obtain ⟨_, hr₃⟩ := h.right.right.rest
  have hpos := Text.size_pos (ne_empty_of_isName hname)
  rw [show bytesOf "</" = [0x3C, 0x2F] by decide] at hr₁
  have hopen := lex_endTagOpen_of_yields hc hfile hmode (Text.byte?_of_rest hr₁)
    (Text.byte?_of_rest (Text.rest_succ hr₁))
  refine .append (l := [_]) (.of_lex hopen (by decide) (Nat.lt_add_of_pos_right (by decide))) ?_
  refine .append (l := [_]) (.of_lex (lex_endTagName hr₂ hname ?_) (by decide) (Nat.lt_add_of_pos_right hpos)) ?_
  · rintro b ⟨⟩
    rfl
  · exact .of_lex (lex_endTagClose hr₃) (by decide) (Nat.lt_add_of_pos_right (by decide))

end Lexer

namespace Document

open Builder

variable {u v tag : String} {e : Element} {n : Node} {spaced : Bool}

/-- **The end tag of the current element** gives it its end and no children. -/
theorem closes_current (huri : isDtdUri uri = false) (hl : Leads s .document l (cursor .content i spaced))
    (hcurrent : (Builder.behind s l (start s false)).current = id)
    (hn : (Builder.behind s l (start s false)).nodes[id]? = some n) (hkind : n.kind = .element e)
    (htag : e.tag = some tag) (hname : Written.isName tag) (hstands : Text.Stands s i ("</" ++ (tag ++ ">"))) :
    (parse s uri).children id = n.children.toList ∧ ∃ sp p, (parse s uri).element? id = some
      { e with closed := true, endOpen := some i, endTagSpan := some sp, endClose := some p } := by
  have hf := (follows_start s false).behind hl
  have hsteady : (Builder.behind s l (start s false)).Steady s 0 i := hf.fits.phase
  have hdoctype : (Builder.behind s l (start s false)).doctype = none := hf.fits.doctype.eq_none rfl
  have hall := hl.append (Lexer.leads_endTag hf.consistent rfl rfl hstands hname)
  subst hcurrent
  obtain ⟨hleaves, n', hn', hchildren, hkind'⟩ := behind_endTag hsteady hdoctype hn hkind
    (htag.trans (congrArg some hstands.right.left.slice.symm)) _ _ _
  -- the element is left for the node around it
  have hparent : (Builder.behind s l (start s false)).parentOf (Builder.behind s l (start s false)).current <
      (Builder.behind s l (start s false)).current := by
    have htop := top_lt_of_element hsteady.nested ((kindOf_eq hn).trans hkind)
    obtain ⟨-, p, hp, hlt⟩ := hsteady.nested.arena.inner hn (Nat.zero_lt_of_lt htop)
    exact parentOf_eq (parentAt_eq_some.mpr ⟨n, hn, hp⟩) ▸ hlt
  rw [← behind_append] at hleaves hn'
  have hfinal := parse_spared huri hall (lt_size_of_getElem? hn')
    (fun hmem => Nat.not_le_of_lt hparent (hleaves ▸ le_of_mem_chain hmem))
    fun a ha => by rw [kindOf_eq hn', hkind'] at ha; cases ha
  rw [hn'] at hfinal
  have hnode := node_eq hfinal
  have helement := (congrArg Node.element? hnode).trans (by rw [Node.element?, hkind'])
  exact ⟨by rw [children, hnode, hchildren], _, _, helement⟩

/-- **An end tag right behind the start tag** of an element closes that element, which gets no children. -/
theorem closes_behind_startTag (huri : isDtdUri uri = false) (he : (parse (u ++ v) uri).element? id = some e)
    (htag : e.tag = some tag) (hself : e.selfClosed = false) (hend : e.endOpen = none)
    (hclose : e.startClose = some p) (hp : p + 1 = Text.size u) (hname : Written.isName tag) :
    ∃ e', (parse (u ++ ("</" ++ (tag ++ ">") ++ v)) uri).element? id = some e' ∧ e'.tag = some tag ∧
      e'.closed = true ∧ e'.endOpen = some (Text.size u) ∧
      (parse (u ++ ("</" ++ (tag ++ ">") ++ v)) uri).children id = [] := by
  have hzero := Text.isBoundary_zero (u ++ v)
  -- the start tag is read again
  obtain ⟨sp, hsp⟩ := Option.isSome_iff_exists.mp ((spans_isSome huri he (by rw [htag]; rfl)).1
    ((startOpen_or_endOpen huri he (by rw [htag]; rfl)).resolve_right (by rw [hend]; rintro ⟨⟩)))
  obtain ⟨l, z, m, y, r, w, hread, rfl, -, hcurrent, n, hn, hchildless⟩ :=
    exists_startTagClose huri he hsp hclose hself
  have hsame := Text.sameTo_append u v ("</" ++ (tag ++ ">") ++ v)
  have hbracket : byte? (u ++ ("</" ++ (tag ++ ">") ++ v)) (w.pos + 1) = some 0x3C := by
    rw [hp, Text.byte?_eq_head?, Lexer.rest_append, Text.bytesOf_append, Text.bytesOf_append]
    rfl
  have hl := hread.behind_close
  have hl' := hread.upTo_close (hp ▸ hsame) hbracket
  have hstep := hread.step_close.2
  have hsame' := hl.sameTokens_upTo hl' hsame hzero (Text.isBoundary_zero _) (by rw [hstep]; exact Nat.le_of_eq hp)
  have hmirrors := ((mirrored_start {} (u ++ v) (u ++ ("</" ++ (tag ++ ">") ++ v))).behind_same hsame').toMirrors
  -- behind it the element is the current node
  have hkeeps := hread.keeps_close
  obtain ⟨e₀, he₀, htag₀⟩ := hread.current_named
  have hcurrent' := hkeeps.current.trans hcurrent
  rw [hcurrent'] at he₀
  obtain ⟨n₀, hn₀, hchildren⟩ := hkeeps.children id n hn
  obtain ⟨e₁, hkind₁, rfl⟩ := core_eq_some.mp he₀
  obtain ⟨e', he', hbecomes⟩ := exists_element huri hl he₀
  obtain rfl := Option.some.inj (he.symm.trans he')
  have htag₁ : e₁.tag = some tag :=
    ((hbecomes.named (by rw [htag₀]; rfl)).1.symm.trans htag)
  -- and so it is in the other text
  obtain ⟨n₂, hn₂, houtline⟩ := hmirrors.exists_node hn₀
  obtain ⟨e₂, hkind₂, houtline₂⟩ := (hmirrors.kindOf_of_eq hkind₁).ofElement
  have hchildren₂ : n₂.children = #[] := (congrArg Node.children houtline).trans (hchildren.trans hchildless)
  have htag₂ : e₂.tag = some tag := (congrArg Element.tag houtline₂).trans htag₁
  rw [show (w.step (u ++ v)).2 = cursor .content (w.pos + 1) w.back.spaced from congrArg Prod.snd hstep] at hl'
  have hstands : Text.Stands (u ++ ("</" ++ (tag ++ ">") ++ v)) (w.pos + 1) ("</" ++ (tag ++ ">")) :=
    hp ▸ Text.stands_append u ("</" ++ (tag ++ ">")) v
  obtain ⟨hnone, sp', q, he''⟩ := closes_current huri hl' (hmirrors.current.trans hcurrent') hn₂
    ((kindOf_eq hn₂).symm.trans hkind₂) htag₂ hname hstands
  exact ⟨_, he'', htag₂, rfl, congrArg some hp, by rw [hnone, hchildren₂]⟩

theorem isName_tag (huri : isDtdUri uri = false) (he : (parse s uri).element? id = some e)
    (hstart : e.startOpen.isSome = true) (htag : e.tag = some tag) : Written.isName tag := by
  obtain ⟨sp, hsp⟩ := Option.isSome_iff_exists.mp ((spans_isSome huri he (by rw [htag]; rfl)).1 hstart)
  obtain ⟨l, z, m, y, hread, hname, rfl, -⟩ := exists_startTag huri he hsp
  obtain ⟨e', he', htag', hsp'⟩ := names_of huri hread.leads hread.inside hname
  obtain rfl := eq_of_tagSpan he' he hsp' hsp
  obtain rfl := Option.some.inj (he.symm.trans he')
  obtain rfl := Option.some.inj (htag.symm.trans htag')
  exact hread.isName_written

theorem endsWith_of_append {d : Document} {c : Char} (hd : d.text = u ++ v) (h : d.endsWith c (Text.size u) = true) :
    u.endsWith c = true := by
  unfold endsWith at h
  split at h
  · rename_i before hbefore
    have hslice : Text.slice d.text 0 (Text.size u) = before := by
      rw [Text.slice, hbefore, Option.getD_some]
    rw [hd, Text.slice_before] at hslice
    rwa [hslice]
  · cases h

end Document

namespace Completion

variable {d : Document} {position : Position} {settings : Settings} {answer : String} {offset : Nat}

/-- What is inserted behind a `>`, and behind a `/`. -/
inductive Inserts (d : Document) (offset : Nat) : String → Prop where
  | behindStartTag {e : Element} {tag : String} (behind : d.endsWith '>' offset = true)
      (element : d.element? (d.nodeBefore offset) = some e) (selfClosed : e.selfClosed = false)
      (endless : e.endOpen = none) (close : e.startClose = some (offset - 1)) (named : e.tag = some tag) :
      Inserts d offset ("$0</" ++ tag ++ ">")
  | behindSlash {id : Nat} {e : Element} {tag : String} (behind : d.endsWith '>' offset = false)
      (around : id ∈ chain d.nodes (d.nodeBefore offset)) (element : d.element? id = some e)
      (unclosed : e.closed = false) (named : e.tag = some tag) : Inserts d offset (tag ++ ">")

theorem inserts_of_tagToInsert (hoffset : d.offsetAt position = .ok offset)
    (h : tagToInsert d position settings = .ok (some answer)) : 0 < offset ∧ Inserts d offset answer := by
  simp only [tagToInsert, hoffset, bind, Except.bind, pure, Except.pure] at h
  split at h
  · cases h
  rename_i hguard
  have hpos : 0 < offset := by
    rw [Bool.or_eq_true, not_or, beq_iff_eq] at hguard
    exact Nat.pos_of_ne_zero hguard.2
  refine ⟨hpos, ?_⟩
  split at h
  · rename_i hbehind
    split at h
    · rename_i e he
      split at h
      · rename_i hopen
        simp only [Bool.and_eq_true, Bool.not_eq_true', beq_iff_eq, Element.hasEndTag, Option.isSome_eq_false_iff,
          Option.isNone_iff_eq_none] at hopen
        obtain ⟨tag, htag, rfl⟩ := Option.map_eq_some_iff.mp (Except.ok.inj h)
        exact .behindStartTag hbehind he hopen.1.1 hopen.1.2 hopen.2 htag
      · cases h
    · cases h
  · rename_i hbehind
    split at h
    · obtain ⟨tag, hfind, rfl⟩ := Option.map_eq_some_iff.mp (Except.ok.inj h)
      obtain ⟨id, hid, hfound⟩ := List.exists_of_findSome?_eq_some hfind
      obtain ⟨e, he, hunclosed⟩ := Option.bind_eq_some_iff.mp hfound
      rw [← Document.chain_eq_cons] at hid
      split at hunclosed
      · cases hunclosed
      · rename_i hclosed
        exact .behindSlash (Bool.eq_false_iff.mpr hbehind) hid he (Bool.eq_false_iff.mpr hclosed) hunclosed
    · cases h

theorem exists_endTagOpen {text : String} (huri : Document.isDtdUri uri = false)
    (h : ∃ t ∈ (Document.parse text uri).tokens, t.kind = .endTagOpen ∧ t.span = ⟨i, j⟩) :
    ∃ l z, Leads text .document l z ∧ z.pos < size text ∧ (z.step text).1.kind = .endTagOpen ∧ z.pos = i ∧
      (z.step text).2.pos = j := by
  obtain ⟨t, ht, hkind, hspan⟩ := h
  obtain ⟨l, z, hz, hlt, rfl⟩ := Document.exists_passes huri ht
  have hb := hz.boundary (Text.isBoundary_zero text)
  refine ⟨l, z, hz, hlt, hkind, ?_, ?_⟩
  · exact (Leads.start_step hb hlt).symm.trans (congrArg Span.start hspan)
  · exact (Leads.stop_step hb hlt).symm.trans (congrArg Span.stop hspan)

theorem endsWith_close_of_endTagOpen {u v : String} (hz : Leads (u ++ v) .document l z)
    (hlt : z.pos < size (u ++ v)) (hkind : (z.step (u ++ v)).1.kind = .endTagOpen)
    (hpos : (z.step (u ++ v)).2.pos = size u) : u.endsWith '>' = false := by
  have hzero := Text.isBoundary_zero (u ++ v)
  have hc := hz.consistent Lexer.consistent_document hzero
  rw [Lexer.step_eq_lex (hz.boundary hzero) hlt] at hkind hpos
  have hslash := Lexer.slash_of_endTagOpen hc hkind
  have hstop := Lexer.stop_of_endTagOpen hc hkind
  refine Bool.eq_false_iff.mpr fun hends => ?_
  obtain ⟨u', rfl⟩ := String.endsWith_char_iff_exists_append.mp hends
  have hsize : size (u' ++ String.singleton '>') = size u' + 1 := Text.size_append ..
  have hpos : (Lexer.lex (u' ++ String.singleton '>' ++ v) z).lexer.pos = _ := hpos
  rw [show z.pos + 1 = size u' by omega, String.append_assoc, Text.byte?_eq_head?, Lexer.rest_append,
    Text.bytesOf_append] at hslash
  cases hslash

theorem ne_of_isName {tag name : String} (hname : Written.isName name) : "$0</" ++ tag ++ ">" ≠ name ++ ">" := by
  intro h
  obtain rfl := (String.append_left_inj _).mp h
  rw [Written.isName, Text.bytesOf_append, show bytesOf "$0</" = [0x24, 0x30, 0x3C, 0x2F] from rfl] at hname
  simp [Lexer.isNameStart, Lexer.isName] at hname

/-- **What is inserted fits.** The end tag that is inserted behind a start tag closes the element of that, which is the
same one as before and gets no children. The name that is inserted behind `</` makes that the end tag of an element
of this name with a start tag. -/
theorem tagToInsert_sound (text uri : String) (huri : Document.isDtdUri uri = false) {position : Position}
    {settings : Settings} {offset : Nat} {answer : String}
    (hoffset : (Document.parse text uri).offsetAt position = .ok offset)
    (h : tagToInsert (Document.parse text uri) position settings = .ok (some answer)) :
    (∀ tag, answer = "$0</" ++ tag ++ ">" →
      ∃ id e e', (Document.parse text uri).nodeBefore offset = id ∧
        (Document.parse text uri).element? id = some e ∧ e.tag = some tag ∧
        (Document.parse (Text.splice text 0 [(⟨offset, offset⟩, "</" ++ tag ++ ">")]) uri).element? id = some e' ∧
        e'.tag = some tag ∧ e'.closed = true ∧ e'.endOpen = some offset ∧
        (Document.parse (Text.splice text 0 [(⟨offset, offset⟩, "</" ++ tag ++ ">")]) uri).children id = []) ∧
    ∀ tag, answer = tag ++ ">" →
      (∃ t ∈ (Document.parse text uri).tokens, t.kind = .endTagOpen ∧ t.span = ⟨offset - 2, offset⟩) →
      ∃ id e, (Document.parse (Text.splice text 0 [(⟨offset, offset⟩, tag ++ ">")]) uri).element? id = some e ∧
        e.endOpen = some (offset - 2) ∧ e.hasStartTag = true ∧ e.tag = some tag ∧
        ∀ c e', (Document.parse (Text.splice text 0 [(⟨offset, offset⟩, tag ++ ">")]) uri).element? c =
            some e' →
          e'.endOpen = some (offset - 2) → c = id := by
  obtain ⟨_, _, -, -, -, hboundary, -⟩ := LineIndex.offsetAt_eq_ok_iff.mp hoffset
  obtain ⟨u, v, rfl, rfl⟩ := Text.exists_append_of_isBoundary hboundary
  obtain ⟨hpos, hinserts⟩ := inserts_of_tagToInsert hoffset h
  have hsplice (t : String) : Text.splice (u ++ v) 0 [(⟨size u, size u⟩, t)] = u ++ (t ++ v) := by
    have hone := Text.splice_one u "" v t
    rwa [String.empty_append] at hone
  simp only [hsplice]
  cases hinserts with
  | @behindStartTag e tag hbehind he hself hend hclose htag =>
    have hstart :=
      (Builder.startOpen_or_endOpen huri he (by rw [htag]; rfl)).resolve_right (by rw [hend]; rintro ⟨⟩)
    obtain ⟨e', he', htag', hclosed, hend', hnone⟩ :=
      Document.closes_behind_startTag (v := v) huri he htag hself hend
      hclose (by omega) (Document.isName_tag huri he hstart htag)
    refine ⟨fun tag' heq => ?_, fun tag' _ htoken => ?_⟩
    · obtain rfl := (String.append_right_inj _).mp ((String.append_left_inj _).mp heq)
      rw [show "</" ++ tag ++ ">" = "</" ++ (tag ++ ">") from String.append_assoc]
      exact ⟨_, e, e', rfl, he, htag, he', htag', hclosed, hend', hnone⟩
    · obtain ⟨l, z, hz, hlt, hkind, -, hpos'⟩ := exists_endTagOpen huri htoken
      have hnot := endsWith_close_of_endTagOpen hz hlt hkind hpos'
      rw [Document.endsWith_of_append rfl hbehind] at hnot
      cases hnot
  | @behindSlash id e tag hbehind hid he hunclosed htag =>
    have hstart : e.startOpen.isSome = true := by
      have hunended := Document.isUnended_of_not_closed huri he (by rw [htag]; rfl) hunclosed
      simp only [Element.isUnended, Element.hasStartTag, Bool.and_eq_true] at hunended
      exact hunended.1.1
    have hname := Document.isName_tag huri he hstart htag
    refine ⟨fun tag' heq => absurd heq.symm (ne_of_isName hname), fun tag' heq htoken => ?_⟩
    obtain rfl := (String.append_left_inj _).mp heq
    obtain ⟨l, z, hz, hlt, hkind, hstart, hpos'⟩ := exists_endTagOpen huri htoken
    rw [← hpos'] at hid
    obtain ⟨e₀, hmem, htag₀⟩ := Document.exists_open_of_mem_chain huri hz hlt hkind hid he htag hunclosed
    obtain ⟨c, e', he', hend, hstarted, htag'⟩ :=
      Document.closes_behind_bracket huri hz hlt hkind hpos' hmem htag₀ hname
    rw [String.append_assoc, ← hstart]
    exact ⟨c, e', he', hend, hstarted, htag', fun c' e'' he'' hend'' => Document.eq_of_endOpen he'' he' hend'' hend⟩

/-- Behind the start tag of `b` its end tag is inserted, and behind `</` its name. -/
theorem tagToInsert_sound_nested :
    (∃ e, (Document.parse (Text.splice "<a><b>x</a>" 0 [(⟨6, 6⟩, "</b>")])
        "file:///a.xml").element? 2 = some e ∧
      e.tag = some "b" ∧ e.closed = true ∧ e.endOpen = some 6) ∧
    ∃ id e, (Document.parse (Text.splice "<a><b></" 0 [(⟨8, 8⟩, "b>")]) "file:///a.xml").element? id = some e ∧
      e.endOpen = some 6 ∧ e.hasStartTag = true ∧ e.tag = some "b" := by
  have huri : Document.isDtdUri "file:///a.xml" = false := by decide +kernel
  constructor
  · have hoffset : (Document.parse "<a><b>x</a>" "file:///a.xml").offsetAt ⟨0, 6⟩ = .ok 6 := by decide +kernel
    have hanswer : tagToInsert (Document.parse "<a><b>x</a>" "file:///a.xml") ⟨0, 6⟩ {} = .ok (some "$0</b>") := by
      decide +kernel
    have hnode : (Document.parse "<a><b>x</a>" "file:///a.xml").nodeBefore 6 = 2 := by decide +kernel
    obtain ⟨id, -, e', hid, -, -, he', htag, hclosed, hend, -⟩ :=
      (tagToInsert_sound _ _ huri hoffset hanswer).1 "b" (by decide +kernel)
    obtain rfl : id = 2 := hid.symm.trans hnode
    exact ⟨e', he', htag, hclosed, hend⟩
  · have hoffset : (Document.parse "<a><b></" "file:///a.xml").offsetAt ⟨0, 8⟩ = .ok 8 := by decide +kernel
    have hanswer : tagToInsert (Document.parse "<a><b></" "file:///a.xml") ⟨0, 8⟩ {} = .ok (some "b>") := by
      decide +kernel
    obtain ⟨id, e, he, hend, hstart, htag, -⟩ :=
      (tagToInsert_sound _ _ huri hoffset hanswer).2 "b" (by decide +kernel) (by decide +kernel)
    exact ⟨id, e, he, hend, hstart, htag⟩

end Completion

end XmlAssist
