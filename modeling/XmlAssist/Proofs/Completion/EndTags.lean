import XmlAssist.Completion.Suggest
import XmlAssist.Proofs.Edits.Attribute
import XmlAssist.Proofs.Lexer.TagName
import XmlAssist.Proofs.Tree.Before
import XmlAssist.Proofs.Tree.Inside
import XmlAssist.Proofs.Tree.StartTag

/-!
# The name behind a `</`

Behind `</` the name of the nearest element that is not closed is inserted, as seen from the node before the
cursor. Such an element is open where the bracket is read (`exists_open_of_mem_chain`): it ends at the cursor or
behind it, while all that was closed before the bracket ends in front of it. So the name behind the bracket closes an
element that has a start tag (`closes_behind_bracket`), whatever follows.
-/

namespace XmlAssist

open Node
open Text (SameTo byte? size isBoundary bytesOf rest)
open Lexer (Leads)

namespace Lexer

variable {s s' : String} {x y z : Lexer} {l m : List (Token × Lexer)} {k : Nat}

theorem step_endTagOpen_sameTo (h : SameTo s s' k) (hz : isBoundary s z.pos = true) (hc : z.Consistent)
    (hlt : z.pos < size s) (hkind : (z.step s).1.kind = .endTagOpen) (hk : z.pos + 2 ≤ k) :
    z.step s' = z.step s := by
  have hahead := Leads.pos_lt_step hz hlt
  rw [step_eq_lex hz hlt] at hkind hahead ⊢
  have hkind : (lex s z).kind = .endTagOpen := hkind
  have hopen : (lex s z).kind.isTagOpen = true := by rw [hkind]; rfl
  have hbracket := byte?_of_opensMarkup (Token.Kind.opensMarkup_of_isTagOpen hopen)
  have hslash := slash_of_endTagOpen hc hkind
  have hnot : BehindBracket 0x2F := ⟨by decide, by decide⟩
  have hlex := lex_tagOpen_again (k := z.pos) hc hopen hslash hnot hc hbracket hslash hnot rfl
  have hlex' := lex_tagOpen_again (k := z.pos) hc hopen hslash hnot hc ((h.byte (by omega)).trans hbracket)
    ((h.byte (by omega)).trans hslash) hnot rfl
  have heq : lex s' z = lex s z := by rw [← goTo_self (x := z), hlex, hlex']
  rw [step_of_lex (heq ▸ hahead), heq]

theorem lex_insideTag (hc : x.Consistent) (hin : x.inStartTag = true) (hend : byte? s x.pos = some 0x3E ∨
      (byte? s x.pos = some 0x2F ∧ byte? s (x.pos + 1) = some 0x3E)) :
    lex s x = insideTag s { x with mode := .inTag, spaced := x.back.spaced } := by
  obtain ⟨hp, hd, hmode⟩ := hc.of_inStartTag hin
  obtain ⟨b, hb, hor⟩ :
      ∃ b, byte? s x.pos = some b ∧ (b = 0x3E ∨ (b = 0x2F ∧ byte? s (x.pos + 1) = some 0x3E)) :=
    hend.elim (fun h => ⟨_, h, .inl rfl⟩) fun h => ⟨_, h.1, .inr ⟨rfl, h.2⟩⟩
  have hlt := Text.lt_size_of_byte? hb
  have hnone {p : UInt8 → Bool} (hp : p 0x3E = false ∧ p 0x2F = false) :
      ∀ b ∈ (rest s x.pos).head?, p b = false := by
    intro c hmem
    rw [← Text.byte?_eq_head?, hb] at hmem
    obtain rfl := Option.some.inj hmem
    rcases hor with rfl | ⟨rfl, -⟩
    · exact hp.1
    · exact hp.2
  have hspace : space? s x.pos = none := space?_eq_none (hnone ⟨rfl, rfl⟩)
  have hquote : (x.peek s).filter isQuoteByte = none := by
    rw [peek, hb]
    rcases hor with rfl | ⟨rfl, -⟩ <;> rfl
  have hequals : x.sees s 0x3D = false := by
    rw [sees, peek, hb]
    rcases hor with rfl | ⟨rfl, -⟩ <;> rfl
  rw [lex, if_neg (Nat.not_le_of_lt hlt)]
  rcases hmode with hmode | hmode | hmode | hmode
  · rw [show x.back.spaced = false by rw [back, hmode], hmode]
    show startTag s x = _
    rw [startTag, name?_eq_none (hnone ⟨rfl, rfl⟩), hspace]
  · have hself : { x with mode := .inTag, spaced := x.back.spaced } = x := by
      rw [show x.back.spaced = x.spaced by rw [back, hmode], ← hmode]
    rw [hself, hmode]
  · rw [show x.back.spaced = x.spaced by rw [back, hmode], hmode]
    show attributeAssign s x = _
    rw [attributeAssign, hspace, hequals]
    simp [backInTag, tagMode, hp]
  · rw [show x.back.spaced = false by rw [back, hmode], hmode]
    show attributeValue s x = _
    -- there is no value, or a `/` before the `>`
    have hstop : x.pos < unquotedStop s x.pos → unquotedStop s x.pos = x.pos + 1 ∧ x.sees s 0x2F = true := by
      have hstops {i : Nat} (hi : byte? s i = some 0x3E) : ∀ c ∈ (rest s i).head?, isUnquotedValue c = false := by
        rw [← Text.byte?_eq_head?, hi]
        rintro c ⟨⟩
        rfl
      rw [unquotedStop_eq]
      rcases hor with rfl | ⟨rfl, hclose⟩
      · have hskip : Text.skipWhile isUnquotedValue s x.pos = x.pos :=
          Text.skipWhile_of_rest (l := []) (f := isUnquotedValue) rfl (by simp) (hstops hb)
        rw [hskip, if_neg (by simp)]
        exact fun hlt => absurd hlt (Nat.lt_irrefl _)
      · obtain ⟨hlt, hbyte⟩ := Text.byte?_eq_some hb
        have hskip : Text.skipWhile isUnquotedValue s x.pos = x.pos + 1 :=
          Text.skipWhile_of_rest (l := [0x2F]) (f := isUnquotedValue) (by rw [Text.rest_of_lt hlt, hbyte]; rfl)
            (by simp; rfl) (hstops hclose)
        rw [hskip, if_neg (by simp), sees, peek, hb]
        exact fun _ => ⟨rfl, rfl⟩
    rw [attributeValue, hspace, hquote]
    dsimp only
    rw [if_neg]
    · simp [backInTag, tagMode, hp]
    · intro hvalue
      simp only [Bool.and_eq_true, decide_eq_true_eq, Bool.not_eq_true', Bool.and_eq_false_iff] at hvalue
      obtain ⟨hpos, hsees⟩ := hstop hvalue.1
      simp [hpos, hsees] at hvalue

theorem lex_closeInTag (hc : x.Consistent) (hin : x.inStartTag = true) (hb : byte? s x.pos = some 0x3E) :
    lex s x = ⟨.startTagClose, cursor .content (x.pos + 1) x.back.spaced, none⟩ := by
  rw [lex_insideTag hc hin (.inl hb), insideTag_close (x := { x with mode := .inTag, spaced := x.back.spaced })
    (hc.of_inStartTag hin).1 hb, emit, eq_cursor hc hin]

theorem lex_selfCloseInTag (hc : x.Consistent) (hin : x.inStartTag = true) (hb : byte? s x.pos = some 0x2F)
    (hclose : byte? s (x.pos + 1) = some 0x3E) :
    lex s x = ⟨.startTagSelfClose, cursor .content (x.pos + 2) x.back.spaced, none⟩ := by
  have hslash := (insideTag_slash (s := s) (x := { x with mode := .inTag, spaced := x.back.spaced })
    (hc.of_inStartTag hin).1 hb).resolve_right fun h => h.1 hclose
  rw [lex_insideTag hc hin (.inr ⟨hb, hclose⟩), hslash.2, emit, eq_cursor hc hin]

end Lexer

theorem ReadsTag.isName_written {s : String} {l m : List (Token × Lexer)} {y z : Lexer} (h : ReadsTag s l z m y) :
    Written.isName ((y.step s).1.written s) := by
  have hboundary := h.leads.boundary (Text.isBoundary_zero s)
  have hc := h.leads.consistent Lexer.consistent_document (Text.isBoundary_zero s)
  have hnext := Leads.boundary_step hboundary h.inside
  have hahead := Leads.pos_lt_step hboundary h.inside
  obtain ⟨hawaits, j, hj⟩ := Lexer.exists_name hc hboundary h.inside
    (h.kinds.imp (fun hk => hk.2) fun hk => hk.2)
  have hstop : (y.step s).2.pos = j := by
    rw [Lexer.step_eq_lex hboundary h.inside, Lexer.lex_tagName hawaits hj, Lexer.named_pos]
  obtain ⟨hskip, b, hb, hstart⟩ := Lexer.name?_eq_some hj
  have hall : ∀ c ∈ bytesOf ((y.step s).1.written s), Lexer.isName c = true := by
    rw [Token.written, Leads.start_step hboundary h.inside, Leads.stop_step hboundary h.inside]
    exact fun c => Text.of_mem_slice hboundary hnext (Nat.le_of_lt hahead) (Nat.le_of_eq (hstop.trans hskip))
  have hfirst : (bytesOf ((y.step s).1.written s)).head? = some b := by
    rw [Token.written, Leads.start_step hboundary h.inside, Leads.stop_step hboundary h.inside,
      Text.bytesOf_slice hboundary hnext (Nat.le_of_lt hahead), List.head?_take, if_neg (by omega),
      ← Text.byte?_eq_head?, hb]
  unfold Written.isName
  cases hbytes : bytesOf ((y.step s).1.written s) with
  | nil =>
    rw [hbytes] at hfirst
    cases hfirst
  | cons c cs =>
    rw [hbytes] at hfirst hall
    obtain rfl := Option.some.inj hfirst
    exact Bool.and_eq_true_iff.mpr ⟨hstart, List.all_eq_true.mpr fun d hd => hall d (List.mem_cons_of_mem _ hd)⟩

namespace Builder

variable {s uri : String} {x y z : Lexer} {l : List (Token × Lexer)} {b b' : Builder} {t : Token}
variable {e : Element} {id p : Nat} {w : String}

/-- An element that is not closed has no end, if it is not an end tag without a name. -/
def Endless (e : Element) : Prop :=
  e.tag.isSome = true ∨ e.startOpen.isSome = true → e.closed = false → e.endOpen = none ∧ e.selfClosed = false

theorem endless_of_nameless (htag : e.tag = none) (hstart : e.startOpen = none) : Endless e := by
  intro hsome
  rw [htag, hstart] at hsome
  simp at hsome

theorem Acts.endless (h : Acts s b t b') (hf : Follows s x b) (hs : ∀ id e, b.core id = some e → Endless e) :
    ∀ id e, b'.core id = some e → Endless e := by
  refine h.forall_core hs (fun _ => endless_of_nameless) ?_ ?_ ?_ ?_ ?_
  · exact fun _ _ => ⟨rfl, rfl⟩
  · exact fun id e hmem _ _ _ => (hf.started id e hmem).2
  · rintro _ _ _ _ _ ⟨⟩
  · rintro _ _ _ _ _ _ ⟨⟩
  · rintro _ _ ⟨⟩

theorem endless_behind (hl : Leads s .document l y) (he : (behind s l (start s false)).core id = some e) :
    Endless e := by
  refine ((follows_start s false).behind_keeps (Q := fun b => ∀ id e, b.core id = some e → Endless e) hl ?_ ?_).2
    id e he
  · intro id e he
    rw [core_start] at he
    cases he
  · exact fun _ _ _ _ hf hacts hs => hacts.endless hf hs

theorem Acts.names_opened (h : Acts s b t b') (hkind : t.kind = .startTagName) :
    ∃ e, (b.current, e) ∈ b'.opened ∧ e.tag = some (t.written s) := by
  cases h with
  | quiet hk => simp [hkind, Token.Kind.pairs] at hk
  | names _ _ _ _ _ _ hopened => exact ⟨_, hopened ▸ List.mem_cons_self, rfl⟩
  | opens hk | closes hk | ends _ hk | stray _ hk => simp [hkind] at hk

theorem isOpenAs_of_mem (h : (id, e) ∈ b.opened) (htag : e.tag = some w) : b.isOpenAs w id = true := by
  obtain ⟨-, hcore, hopen⟩ := mem_opened.mp h
  obtain ⟨e', hkind, rfl⟩ := core_eq_some.mp hcore
  have hopen : e'.closed = false := hopen
  have htag : e'.tag = some w := htag
  simp [isOpenAs, hkind, hopen, htag]

theorem Acts.opened_of_not_pairs (h : Acts s b t b') (hkind : t.kind.pairs = false) : b'.opened = b.opened := by
  cases h with
  | quiet _ hsame => exact hsame.opened
  | opens hk | names hk | closes hk | ends _ hk | stray _ hk => simp [hk, Token.Kind.pairs] at hkind

theorem mem_opened_of_nearest? (h : b.nearest? w = some id) : ∃ e, (id, e) ∈ b.opened ∧ e.tag = some w := by
  rw [nearest?_eq] at h
  obtain ⟨⟨c, e⟩, hfind, rfl⟩ := Option.map_eq_some_iff.mp h
  exact ⟨e, List.mem_of_find?_eq_some hfind, by simpa using List.find?_some hfind⟩

theorem Mirrors.exists_nearest? (h : Mirrors {} b b') (hmem : (id, e) ∈ b.opened) (htag : e.tag = some w) :
    ∃ c, b'.nearest? w = some c := by
  rw [← Option.isSome_iff_exists, nearest?, List.find?_isSome]
  refine ⟨id, ?_, (h.isOpenAs w id fun _ => rfl).trans (isOpenAs_of_mem hmem htag)⟩
  rw [h.current, h.chain]
  exact (mem_opened.mp hmem).1

end Builder

namespace Document

open Builder

variable {text uri : String} {l : List (Token × Lexer)} {z : Lexer} {e : Element} {id p : Nat} {tag : String}
variable {sp : Span}

theorem element?_pos (he : (parse text uri).element? id = some e) : 0 < id := by
  obtain ⟨n, hn, hne⟩ := exists_node_of_element? he
  obtain ⟨root, hroot, hkind, -⟩ := (complete_parse text uri).arena.root
  refine Nat.pos_of_ne_zero ?_
  rintro rfl
  obtain rfl := Option.some.inj (hn.symm.trans hroot)
  cases (kind_of_element? hne).symm.trans hkind

theorem isUnended_of_not_closed (huri : isDtdUri uri = false) (he : (parse text uri).element? id = some e)
    (htag : e.tag.isSome = true) (hopen : e.closed = false) : e.isUnended = true := by
  have hendless : Endless e.core := forall_element huri (fun _ _ _ _ hf hacts => hacts.endless hf)
    (fun _ => endless_of_nameless) he
  obtain ⟨hend, hself⟩ := hendless (.inl htag) hopen
  have hend : e.endOpen = none := hend
  refine isUnended_of_started ⟨?_, hend, hself⟩
  refine (startOpen_or_endOpen huri he htag).resolve_right ?_
  rw [hend]
  rintro ⟨⟩

theorem stop_endTagSpan_le (he : (parse text uri).element? id = some e) (hsp : e.endTagSpan = some sp) :
    sp.stop ≤ ((parse text uri).span id).stop := by
  obtain ⟨n, hn, hne⟩ := exists_node_of_element? he
  rw [span_eq hn]
  refine ((parse_covers text uri n (Array.mem_of_getElem? hn)).inside sp ?_).2
  rw [kind_of_element? hne]
  exact List.mem_append.mpr (.inr (by simp [hsp]))

/-- The name of an end tag is read at `w`, behind the tokens `l`. That tag starts at `p` and ends the element `a`, which
cuts off the open element `id` inside. -/
structure CutsAt (text : String) (l : List (Token × Lexer)) (w : Lexer) (id a p : Nat) : Prop where
  leads : Leads text .document l w
  inside : w.pos < Text.size text
  kind : (w.step text).1.kind = .endTagName
  isOpen : (Builder.behind text l (start text false)).IsOpen id
  closed : ¬ (Builder.behind text (l ++ [w.step text]) (start text false)).IsOpen id
  cut : (Builder.behind text (l ++ [w.step text]) (start text false)).CutBy id a p
  ended : ∃ e, (Builder.behind text (l ++ [w.step text]) (start text false)).core a = some e ∧ e.closed = true ∧
    e.tag.isSome = true ∧ e.endTagSpan = some (w.step text).1.span

/-- An element that is open behind some tokens and never closed is open behind others as well, or it is cut off
between. -/
theorem isOpen_or_cut (huri : isDtdUri uri = false) {r : List (Token × Lexer)} {x : Lexer} {e₁ : Element}
    (hl : Leads text .document l x) (hmem : (id, e₁) ∈ (Builder.behind text l (start text false)).opened)
    (hr : Leads text x r z) (he : (parse text uri).element? id = some e) (htag : e.tag.isSome = true)
    (hopen : e.closed = false) :
    (Builder.behind text (l ++ r) (start text false)).IsOpen id ∨
      ∃ l₂ w l₃ a p, CutsAt text (l ++ l₂) w id a p ∧
      Leads text x l₂ w ∧ Leads text (w.step text).2 l₃ z ∧ r = l₂ ++ w.step text :: l₃ := by
  refine Classical.or_iff_not_imp_left.mpr fun hend => ?_
  rw [behind_append] at hend
  obtain ⟨l₂, w, l₃, hw, hlt, hrest, hr', hbefore, hafter⟩ :=
    exists_turn (P := fun b => ¬ b.IsOpen id) hr (fun hnot => hnot ⟨e₁, hmem⟩) hend
  have hall := hl.append hw
  have hf := (follows_start text false).behind hall
  have hacts := (hf.next hlt).1
  have hnext := hall.append (.one hlt)
  rw [← behind_append] at hbefore hafter
  rw [← behind_concat] at hacts hafter
  -- the element is what it will be, as it is not closed
  obtain ⟨e₂, hmem₂⟩ := Classical.not_not.mp hbefore
  obtain ⟨e₃, he₃, -⟩ := hacts.becomes (mem_opened.mp hmem₂).2.1
  obtain ⟨e', he', hbecomes⟩ := exists_element huri hnext he₃
  obtain rfl := Option.some.inj (he.symm.trans he')
  have hopen₃ := not_closed_of_element? huri hnext he hopen he₃
  have hstarted : e₃.startOpen.isSome = true := by
    have hun := isUnended_of_not_closed huri he htag hopen
    simp only [Element.isUnended, Element.hasStartTag, Bool.and_eq_true] at hun
    rw [← hbecomes.startOpen]
    exact hun.1.1
  obtain ⟨hend₃, hself₃⟩ := endless_behind hnext he₃ (.inr hstarted) hopen₃
  obtain ⟨a, p, hcut, hkind, hended⟩ :=
    hacts.cut hf ⟨e₂, hmem₂⟩ hafter he₃ (isUnended_of_started ⟨hstarted, hend₃, hself₃⟩)
  exact ⟨l₂, w, l₃, a, p, ⟨hall, hlt, hkind, ⟨e₂, hmem₂⟩, hafter, hcut, hended⟩, hw, hrest, hr'⟩

theorem CutsAt.exists_bracket {w : Lexer} {a : Nat} (h : CutsAt text l w id a p) (huri : isDtdUri uri = false) :
    ∃ l₀ z m outer, ReadsTag text l₀ z m w ∧ l = l₀ ++ z.step text :: m ∧ z.pos = p ∧
      (parse text uri).element? a = some outer ∧ outer.tag.isSome = true ∧ outer.endOpen = some p ∧
      outer.endTagSpan = some (w.step text).1.span := by
  have hzero := Text.isBoundary_zero text
  obtain ⟨l₀, z, m, hread⟩ := exists_readsTag h.leads h.inside (.inr h.kind)
  have hlist := List.append_cancel_right ((h.leads.tokens_eq hzero).symm.trans (hread.leads.tokens_eq hzero))
  obtain ⟨e, he, hclosed, hnamed, hspan⟩ := h.ended
  obtain ⟨e', he', hend, -⟩ := h.cut.ends
  obtain rfl := Option.some.inj (he.symm.trans he')
  obtain ⟨outer, houter, hbecomes⟩ := exists_element huri (h.leads.append (.one h.inside)) he
  obtain rfl := hbecomes.closed hclosed
  obtain ⟨c, e'', he'', hspan', hend', -⟩ := hread.closes huri h.kind
  obtain rfl := eq_of_endTagSpan houter he'' hspan hspan'
  obtain rfl := Option.some.inj (houter.symm.trans he'')
  exact ⟨l₀, z, m, outer, hread, hlist, Option.some.inj (hend'.symm.trans hend), houter, hnamed, hend, hspan⟩

/-- An element that is open behind some tokens and never closed is open behind others as well, or the end tag of one
around it comes between. -/
theorem isOpen_or_ended (huri : isDtdUri uri = false) {r : List (Token × Lexer)} {x : Lexer} {e₁ : Element}
    (hl : Leads text .document l x) (hmem : (id, e₁) ∈ (Builder.behind text l (start text false)).opened)
    (hr : Leads text x r z) (he : (parse text uri).element? id = some e) (htag : e.tag.isSome = true)
    (hopen : e.closed = false) :
    (Builder.behind text (l ++ r) (start text false)).IsOpen id ∨
      ∃ a ∈ (parse text uri).ancestors id, ∃ outer p sp, (parse text uri).element? a = some outer ∧
        outer.tag.isSome = true ∧ outer.endOpen = some p ∧ outer.endTagSpan = some sp ∧ p < sp.start ∧
        x.pos ≤ sp.start ∧ sp.start < z.pos := by
  refine (isOpen_or_cut huri hl hmem hr he htag hopen).imp_right ?_
  rintro ⟨l₂, w, l₃, a, p, hcut, hw, hrest, -⟩
  have hzero := Text.isBoundary_zero text
  have hb := hcut.leads.boundary hzero
  have hid : id < (Builder.behind text (l ++ l₂ ++ [w.step text]) (start text false)).nodes.size :=
    lt_size_of_mem_chain_of_ne hcut.cut.around (Nat.ne_of_lt hcut.cut.lt)
  have hchain := (outline_parse huri (hcut.leads.append (.one hcut.inside)) hid).1
  have hstart : (w.step text).1.start = w.pos := Leads.start_step hb hcut.inside
  have hahead := Leads.pos_lt_step hb hcut.inside
  obtain ⟨l₀, z', m, outer, hread, -, rfl, houter, hnamed, hend, hspan⟩ := hcut.exists_bracket huri
  refine ⟨a, mem_ancestors.mpr ⟨hchain ▸ hcut.cut.around, hcut.cut.lt⟩, outer, z'.pos, _,
    houter, hnamed, hend, hspan,
    ?_, ?_, ?_⟩
  · exact Nat.lt_of_lt_of_le hread.lt_name (Nat.le_of_eq hstart.symm)
  · exact Nat.le_trans (hw.pos_le (hl.boundary hzero)) (Nat.le_of_eq hstart.symm)
  · have hle := hrest.pos_le (Leads.boundary_step hb hcut.inside)
    exact Nat.lt_of_le_of_lt (Nat.le_of_eq hstart) (Nat.lt_of_lt_of_le hahead hle)

/-- The way to the node before a cursor behind a `</` leads out of no element whose end tag was read before. -/
theorem le_start_of_ended (huri : isDtdUri uri = false) (hz : Leads text .document l z)
    (hlt : z.pos < Text.size text) (hkind : (z.step text).1.kind = .endTagOpen)
    (hid : id ∈ chain (parse text uri).nodes ((parse text uri).nodeBefore (z.step text).2.pos))
    (he : (parse text uri).element? id = some e) {a : Nat} {outer : Element} (ha : a ∈ (parse text uri).ancestors id)
    (houter : (parse text uri).element? a = some outer) (hnamed : outer.tag.isSome = true)
    (hp : outer.endOpen = some p) (hsp : outer.endTagSpan = some sp) (hlt' : p < sp.start)
    (hbefore : sp.start < z.pos) :
    sp.stop ≤ ((parse text uri).span id).start := by
  have h := complete_parse text uri
  obtain ⟨hout, hne⟩ := mem_ancestors.mp ha
  obtain ⟨c, hchild, hmem⟩ := exists_child_of_mem_chain h.arena (element?_node he) hout (Nat.ne_of_lt hne)
  have hstop := stop_le_of_endOpen huri houter hnamed hp hz hlt hkind (Nat.lt_trans hlt' hbefore)
  have hahead := Leads.pos_lt_step (hz.boundary (Text.isBoundary_zero text)) hlt
  have hsame := h.stop_eq_of_mem_chain_nodeBefore (mem_chain_trans hid hmem) hchild (element?_pos houter)
    (Nat.le_trans hstop (Nat.le_of_lt hahead))
  have hinside := stop_endTagSpan_le houter hsp
  have hle := (lies_tagSpan houter sp (by simp [hsp])).start_le
  rcases stop_le_or_le_child huri houter hsp hp hchild with hfirst | hlater
  · omega
  · exact Nat.le_trans hlater (h.span_of_mem_chain hmem).1

theorem exists_named (huri : isDtdUri uri = false) (he : (parse text uri).element? id = some e)
    (htag : e.tag = some tag)
    (hstart : e.startOpen.isSome = true) : ∃ l z m y e₁, ReadsTag text l z m y ∧
      (y.step text).1.kind = .startTagName ∧ e.tagSpan = some (y.step text).1.span ∧ e.startOpen = some z.pos ∧
      ((parse text uri).span id).start = z.pos ∧ e₁.tag = some tag ∧
      (id, e₁) ∈ (Builder.behind text (l ++ z.step text :: m ++ [y.step text]) (start text false)).opened := by
  obtain ⟨sp, hsp⟩ := Option.isSome_iff_exists.mp ((spans_isSome huri he (by rw [htag]; rfl)).1 hstart)
  obtain ⟨l, z, m, y, hread, hname, rfl, hopen, hspan, -⟩ := exists_startTag huri he hsp
  obtain ⟨e₁, hmem, htag₁⟩ :=
    (((follows_start text false).behind hread.leads).next hread.inside).1.names_opened hname
  obtain ⟨e', he', htag', hspan'⟩ := names_of huri hread.leads hread.inside hname
  obtain rfl := eq_of_tagSpan he' he hspan' hsp
  obtain rfl := Option.some.inj (he.symm.trans he')
  rw [← htag', htag] at htag₁
  rw [← behind_concat] at hmem
  exact ⟨l, z, m, y, e₁, hread, hname, hsp, hopen, hspan, htag₁, hmem⟩

/-- **An element that is never closed** and that the way to the node before a cursor leads through is open where
the `</` in front of the cursor is read. -/
theorem exists_open_of_mem_chain (huri : isDtdUri uri = false) (hz : Leads text .document l z)
    (hlt : z.pos < Text.size text) (hkind : (z.step text).1.kind = .endTagOpen)
    (hid : id ∈ chain (parse text uri).nodes ((parse text uri).nodeBefore (z.step text).2.pos))
    (he : (parse text uri).element? id = some e) (htag : e.tag = some tag) (hopen : e.closed = false) :
    ∃ e₀, (id, e₀) ∈ (Builder.behind text l (start text false)).opened ∧ e₀.tag = some tag := by
  have hzero := Text.isBoundary_zero text
  have hzb := hz.boundary hzero
  have h := complete_parse text uri
  have hunended := isUnended_of_not_closed huri he (by rw [htag]; rfl) hopen
  -- its start tag is read in front of the bracket
  obtain ⟨l₁, z₁, m₁, y₁, e₁, hread, hname, -, -, hspan, htag₁, hmem₁⟩ :=
    exists_named huri he htag (by
    simp only [Element.isUnended, Element.hasStartTag, Bool.and_eq_true] at hunended
    exact hunended.1.1)
  have hbefore := h.start_lt_of_mem_chain_nodeBefore hid (element?_pos he)
  rw [hspan] at hbefore
  have hzz : z₁.pos < z.pos := by
    rcases Nat.lt_trichotomy z₁.pos z.pos with hless | heq | hmore
    · exact hless
    · obtain rfl := hread.before.eq_of_pos hz hzero heq
      cases (hread.startTagOpen hname).symm.trans hkind
    · obtain ⟨r, -, hr⟩ := hz.split hread.before hzero (Nat.le_of_lt hmore)
      cases hr with
      | here => exact absurd hmore (Nat.lt_irrefl _)
      | next _ hrest => exact absurd (hrest.pos_le (Leads.boundary_step hzb hlt)) (Nat.not_le_of_lt hbefore)
  have hyz : y₁.pos < z.pos := by
    rcases Nat.lt_trichotomy y₁.pos z.pos with hless | heq | hmore
    · exact hless
    · obtain rfl := hread.leads.eq_of_pos hz hzero heq
      cases hname.symm.trans hkind
    · exact absurd (hread.le_bracket hz hlt (by rw [hkind]; rintro ⟨⟩) hmore) (Nat.not_le_of_lt hzz)
  obtain ⟨r, rfl, hr⟩ := hread.leads.split hz hzero (Nat.le_of_lt hyz)
  cases hr with
  | here => exact absurd hyz (Nat.lt_irrefl _)
  | @next _ _ r _ hrest =>
    have hall := hread.leads.append (.one hread.inside)
    have hlist : l₁ ++ z₁.step text :: m₁ ++ y₁.step text :: r =
        l₁ ++ z₁.step text :: m₁ ++ [y₁.step text] ++ r := by
      rw [List.append_assoc _ [y₁.step text], List.singleton_append]
    rcases isOpen_or_ended huri hall hmem₁ hrest he (by rw [htag]; rfl) hopen with ⟨e₀, hmem₀⟩ | hended
    · have hlater := (((follows_start text false).behind hall).behind_becomes hrest (mem_opened.mp hmem₁).2.1)
      rw [← behind_append] at hlater
      obtain ⟨e₂, he₂, hbecomes⟩ := hlater
      obtain rfl := Option.some.inj (he₂.symm.trans (mem_opened.mp hmem₀).2.1)
      rw [hlist]
      exact ⟨e₂, hmem₀, (hbecomes.named (by rw [htag₁]; rfl)).1.trans htag₁⟩
    · obtain ⟨a, ha, outer, p, sp, houter, hnamed, hp, hsp', hlt', hle, hbeforeZ⟩ := hended
      have hfirst := le_start_of_ended huri hz hlt hkind hid he ha houter hnamed hp hsp' hlt' hbeforeZ
      have hstop := (lies_tagSpan houter sp (by simp [hsp'])).start_le
      have hname := hread.lt_name
      have hahead := Leads.pos_lt_step (hread.leads.boundary hzero) hread.inside
      rw [hspan] at hfirst
      omega

/-- **A name that is put behind a `</`** where an element of that name is open gives that end tag to an element that
has a start tag. -/
theorem closes_behind_bracket {u r name : String} (huri : isDtdUri uri = false)
    (hz : Leads (u ++ r) .document l z) (hlt : z.pos < Text.size (u ++ r))
    (hkind : (z.step (u ++ r)).1.kind = .endTagOpen) (hpos : (z.step (u ++ r)).2.pos = Text.size u) {e₀ : Element}
    (hmem : (id, e₀) ∈ (Builder.behind (u ++ r) l (start (u ++ r) false)).opened) (htag : e₀.tag = some name)
    (hname : Written.isName name) :
    ∃ c e, (parse (u ++ (name ++ (">" ++ r))) uri).element? c = some e ∧ e.endOpen = some z.pos ∧
      e.hasStartTag = true ∧ e.tag = some name := by
  have hzero := Text.isBoundary_zero (u ++ r)
  have hzb := hz.boundary hzero
  have hc := hz.consistent Lexer.consistent_document hzero
  have hsame := Text.sameTo_append u r (name ++ (">" ++ r))
  have hahead := Leads.pos_lt_step hzb hlt
  have hlex := hkind
  rw [Lexer.step_eq_lex hzb hlt] at hlex
  have hb := Lexer.byte?_of_opensMarkup (s := u ++ r) (x := z) (by rw [show (Lexer.lex _ z).kind = _ from hlex]; rfl)
  have htwo : z.pos + 2 = Text.size u := by
    rw [← hpos, Lexer.step_eq_lex hzb hlt]
    exact (Lexer.stop_of_endTagOpen hc hlex).symm
  -- up to the bracket the two texts are read alike
  have hstep := Lexer.step_endTagOpen_sameTo hsame hzb hc hlt hkind (Nat.le_of_eq htwo)
  have hz' := hz.upTo (hsame.mono (by omega)) hb ((hsame.byte (by omega)).trans hb)
  have hlt' : z.pos < Text.size (u ++ (name ++ (">" ++ r))) := Nat.lt_of_lt_of_le (by omega) hsame.le'
  have hall := hz.append (.one hlt)
  have hall' : Leads (u ++ (name ++ (">" ++ r))) .document (l ++ [z.step (u ++ r)]) (z.step (u ++ r)).2 := by
    have hone := hz'.append (.one hlt')
    rwa [hstep] at hone
  have htokens := hall.sameTokens_upTo hall' hsame hzero (Text.isBoundary_zero _) (Nat.le_of_eq hpos)
  have hmirrors := ((mirrored_start {} (u ++ r) (u ++ (name ++ (">" ++ r)))).behind_same htokens).toMirrors
  -- behind the bracket the name is read
  have hmode := ((Lexer.mode_of_tagOpen hc hzb hlt).2 hkind).1
  have hread : Lexer.name? (u ++ (name ++ (">" ++ r))) (z.step (u ++ r)).2.pos =
      some ((z.step (u ++ r)).2.pos + Text.size name) := by
    refine Lexer.name?_of_rest (r := bytesOf (">" ++ r)) ?_ hname ?_
    · rw [hpos, Lexer.rest_append, Text.bytesOf_append]
    · rw [Text.bytesOf_append]
      rintro b ⟨⟩
      rfl
  have hsize := Text.size_pos (Lexer.ne_empty_of_isName hname)
  have hnamed := Lexer.lex_tagName (.inr hmode) hread
  have hnameStep := Lexer.step_of_lex (s := u ++ (name ++ (">" ++ r))) (x := (z.step (u ++ r)).2) (by
    rw [hnamed, Lexer.named_pos]
    omega)
  rw [hnamed, Lexer.named_pos] at hnameStep
  have hkind' : ((z.step (u ++ r)).2.step (u ++ (name ++ (">" ++ r)))).1.kind = .endTagName := by
    rw [hnameStep, Lexer.named, if_pos hmode]
    rfl
  have hwritten : ((z.step (u ++ r)).2.step (u ++ (name ++ (">" ++ r)))).1.written (u ++ (name ++ (">" ++ r))) =
      name := by
    rw [hnameStep, hpos]
    exact (Text.stands_append u name (">" ++ r)).slice
  have htag' : ReadsTag (u ++ (name ++ (">" ++ r))) l z [] (z.step (u ++ r)).2 := by
    refine ⟨hz', hlt', ?_, List.forall_mem_nil _, Lexer.lt_size_of_name? hread, .inr ⟨?_, hkind'⟩⟩
    · rw [hstep]
      exact .here _
    · rwa [hstep]
  obtain ⟨c, e, he, -, hend, hc'⟩ := htag'.closes huri hkind'
  rw [hstep, hwritten] at hc'
  -- an element of that name is open there
  have hopened := (((follows_start (u ++ r) false).behind hz).next hlt).1.opened_of_not_pairs (by rw [hkind]; rfl)
  rw [← hopened, ← behind_concat] at hmem
  obtain ⟨a, ha⟩ := hmirrors.exists_nearest? hmem htag
  rw [ha, Option.getD_some] at hc'
  subst hc'
  obtain ⟨e₁, hmem₁, htag₁⟩ := mem_opened_of_nearest? ha
  have hstarted := ((follows_start _ false).behind hall').started _ _ hmem₁
  obtain ⟨e', he', hbecomes⟩ := exists_element huri hall' (mem_opened.mp hmem₁).2.1
  obtain rfl := Option.some.inj (he.symm.trans he')
  refine ⟨_, e, he, hend, ?_, (hbecomes.named (by rw [htag₁]; rfl)).1.trans htag₁⟩
  exact (congrArg Option.isSome hbecomes.startOpen).trans hstarted.1

end Document

end XmlAssist
