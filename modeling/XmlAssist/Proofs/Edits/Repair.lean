import XmlAssist.Participant.Grammar
import XmlAssist.Proofs.Tree.Inside
import XmlAssist.Proofs.Tree.Quoting

/-!
# Fixes of attributes

An attribute of an element is read in a start tag (`exists_attributeName`). Where it lacks its `=`, `=""` can
stand behind its name (`Reads.outline_assigned`), and quotes can stand around a value that has none
(`Reads.outline_requoted`): the new text has the same nodes, but for the value of that attribute.
-/

namespace XmlAssist

open Node
open Text (bytesOf)
open Lexer (Leads Falls)

namespace Document

variable {text uri : String} {id a : Nat} {e : Element} {A : Attribute}
variable {l m : List (Token × Lexer)} {x y z : Lexer}

theorem kind_of_attribute (h : (a, A) ∈ (parse text uri).attributes id) :
    ∃ n, (parse text uri).nodes[a]? = some n ∧ n.kind = .attribute A := by
  obtain ⟨c, -, hc⟩ := List.mem_filterMap.mp h
  obtain ⟨A', hA', hpair⟩ := Option.map_eq_some_iff.mp hc
  obtain ⟨rfl, rfl⟩ := Prod.mk.inj hpair
  rw [node, Array.getD_eq_getD_getElem?] at hA'
  cases hn : (parse text uri).nodes[c]? with
  | none =>
    rw [hn] at hA'
    cases hA'
  | some n =>
    refine ⟨n, rfl, ?_⟩
    rw [hn, Option.getD_some, Node.attribute?] at hA'
    split at hA'
    · rwa [← Option.some.inj hA']
    · cases hA'

theorem mem_attributes_iff (he : (parse text uri).element? id = some e) :
    (a, A) ∈ (parse text uri).attributes id ↔
      a ∈ e.attributes ∧ ∃ n, (parse text uri).nodes[a]? = some n ∧ n.kind = .attribute A := by
  have hids : ((parse text uri).node id).attributeIds = e.attributes := by
    rw [element?] at he
    rw [Node.attributeIds, kind_of_element? he]
  refine ⟨fun h => ⟨?_, kind_of_attribute h⟩, fun h => ?_⟩
  · obtain ⟨c, hc, hpair⟩ := List.mem_filterMap.mp h
    obtain ⟨A', -, hpair⟩ := Option.map_eq_some_iff.mp hpair
    obtain ⟨rfl, -⟩ := Prod.mk.inj hpair
    rw [hids] at hc
    exact Array.mem_toList_iff.mp hc
  · obtain ⟨ha, n, hn, hk⟩ := h
    refine List.mem_filterMap.mpr ⟨a, ?_, ?_⟩
    · rw [hids]
      exact Array.mem_toList_iff.mpr ha
    · rw [node, Array.getD_eq_getD_getElem?, hn, Option.getD_some, Node.attribute?, hk]
      rfl

theorem kindOf_behind (huri : isDtdUri uri = false) (hl : Leads text .document l y) (hy : y.pos = Text.size text)
    {n : Node} (hn : (parse text uri).nodes[id]? = some n) (hplain : ¬ n.kind.Plain) :
    (Builder.behind text l (Builder.start text false)).kindOf id = n.kind := by
  have hnodes : (parse text uri).nodes =
      (Builder.atEnd text (Builder.behind text l (Builder.start text false))).nodes := by
    rw [← Builder.build_eq_behind hl hy, parse, huri]
  rw [hnodes] at hn
  have hretains := Builder.retains_atEnd text (Builder.behind text l (Builder.start text false))
  have hkind := Builder.kindOf_eq hn
  rcases Nat.lt_or_ge id (Builder.behind text l (Builder.start text false)).nodes.size with hid | hid
  · rw [← hretains.old id hid, hkind]
  · exact absurd (hkind ▸ hretains.new id hid) hplain

/-- The attribute is read at `z`, behind the tokens `l`, and all that follows are the tokens `m`. -/
structure Reads (text : String) (a : Nat) (l : List (Token × Lexer)) (z : Lexer) (m : List (Token × Lexer))
    (y : Lexer) : Prop where
  before : Leads text .document l z
  lt : z.pos < Text.size text
  kind : (z.step text).1.kind = .attributeName
  tag : z.inStartTag = true
  number : (Builder.behind text l (Builder.start text false)).nodes.size = a
  behind : Leads text (z.step text).2 m y
  stop : y.pos = Text.size text

/-- Every attribute of an element is read in a start tag. -/
theorem exists_attributeName (he : (parse text uri).element? id = some e) (ha : a ∈ e.attributes) :
    ∃ l z m y, Reads text a l z m y := by
  have huri := isDtdUri_of_element? he
  obtain ⟨y, hl, hy⟩ := Leads.exists_end text .document (Text.isBoundary_zero text)
  obtain ⟨n, hn, hne⟩ := exists_node_of_element? he
  have hkind := kind_of_element? hne
  have hend := kindOf_behind huri hl hy hn (by
    rw [hkind]
    rintro ⟨-, hnone⟩
    rw [hnone] at ha
    simp at ha)
  -- the attribute comes to the element at one token, which is its name
  have hstart : ¬ ∃ e, (Builder.start text false).kindOf id = .element e ∧ a ∈ e.attributes := by
    rintro ⟨e, hk, -⟩
    rcases id with _ | id <;> cases hk
  obtain ⟨l₁, z, l₂, h₁, hlt, h₂, -, hnot, e', hk', ha'⟩ :=
    Builder.exists_turn (P := fun b => ∃ e, b.kindOf id = .element e ∧ a ∈ e.attributes) hl hstart
      ⟨e, hend.trans hkind, ha⟩
  have hf := (Builder.follows_start text false).behind h₁
  have hchanges := Builder.changes_step text (Builder.behind text l₁ (Builder.start text false)) (z.step text).1
    (z.step text).2.inDtd
  generalize hb : Builder.behind text l₁ (Builder.start text false) = b at *
  obtain ⟨e₀, he₀, hcurrent, hname, hpush⟩ : ∃ e₀, b.kindOf id = .element e₀ ∧ id = b.current ∧
      (z.step text).1.kind = .attributeName ∧ e'.attributes = e₀.attributes.push b.nodes.size := by
    rcases Nat.lt_or_ge id b.nodes.size with hid | hid
    · have hold := hchanges.old id hid
      rw [hk'] at hold
      generalize hk₀ : b.kindOf id = k at hold
      cases hold with
      | element _ hsame => exact absurd ⟨_, hk₀, hsame ▸ ha'⟩ hnot
      | startTag _ _ _ hsame => exact absurd ⟨_, hk₀, hsame ▸ ha'⟩ hnot
      | owner hcurrent hname _ hpush => exact ⟨_, rfl, hcurrent, hname, hpush⟩
      | inner _ hk => cases hk
    · have hnew := hchanges.new id hid
      rw [hk'] at hnew
      cases hnew with
      | element _ hnone =>
        rw [hnone] at ha'
        simp at ha'
      | inner hk => cases hk
  have hnumber : a = b.nodes.size := by
    rw [hpush, Array.mem_push] at ha'
    exact ha'.resolve_left fun hmem => hnot ⟨e₀, he₀, hmem⟩
  have htag : z.inStartTag = true := by
    obtain ⟨w, hw, hin, -, hreads⟩ := hf.exists_reads hlt
    rw [hname] at hreads
    obtain ⟨hmode, -⟩ := hreads.mode_of_attributeName
    have howns := hw.detail.owns hmode
    rw [← hcurrent, he₀] at howns
    have hprolog : w.inProlog = false := by
      refine Bool.eq_false_iff.mpr fun hp => ?_
      rw [hp] at howns
      obtain ⟨p, hp, -⟩ := howns
      cases hp
    rw [← hin, Lexer.inStartTag, hw.consistent.mode_of_inProlog hmode, Lexer.tagMode, hprolog]
    rfl
  exact ⟨l₁, z, l₂, y, h₁, hlt, hname, htag, by rw [hb, hnumber], h₂, hy⟩

namespace Reads

variable (h : Reads text a l z m y)
include h

theorem follows : Builder.Follows text z (Builder.behind text l (Builder.start text false)) :=
  (Builder.follows_start text false).behind h.before

theorem leads : Leads text .document (l ++ [z.step text]) (z.step text).2 := h.before.append (.one h.lt)

theorem lexer : (z.step text).2.mode = .afterAttributeName ∧ (z.step text).2.inStartTag = true ∧
    (z.step text).2.spaced = false := by
  have hf := h.follows
  obtain ⟨w, hw, hin, -, hreads⟩ := hf.exists_reads h.lt
  have htidy := Lexer.tidy_step hf.consistent hf.boundary h.lt h.tag
  have hin' := hreads.inStartTag_eq hw.consistent (by simp [h.kind]) (by simp [h.kind])
  rw [h.kind] at hreads hin'
  refine ⟨?_, ?_, htidy.named h.kind⟩
  · rw [hreads.mode_of_attributeName.2]
    rfl
  · rw [hin', hin, h.tag]
    rfl

theorem builder : (Builder.behind text (l ++ [z.step text]) (Builder.start text false)).nodes.size = a + 1 ∧
    (Builder.behind text (l ++ [z.step text]) (Builder.start text false)).openAttribute = some a ∧
    (Builder.behind text (l ++ [z.step text]) (Builder.start text false)).kindOf a =
      .attribute { name := (z.step text).1.written text, nameSpan := (z.step text).1.span } := by
  have hname := h.follows.attributeName h.lt h.kind
  rw [h.number] at hname
  rw [Builder.behind_append]
  exact hname

theorem kindOf_eq (huri : isDtdUri uri = false) {n : Node} (hn : (parse text uri).nodes[a]? = some n)
    (hk : n.kind = .attribute A) :
    (Builder.behind text m (Builder.behind text (l ++ [z.step text]) (Builder.start text false))).kindOf a =
      .attribute A := by
  rw [← hk, ← Builder.behind_append]
  exact kindOf_behind huri (h.leads.append h.behind) h.stop hn (by rw [hk]; exact fun h => h)

theorem ne_assign (huri : isDtdUri uri = false) {n : Node} (hn : (parse text uri).nodes[a]? = some n)
    (hk : n.kind = .attribute A) (hA : A.hasDelimiter = false) (m₁ : List (Token × Lexer)) (p : Token × Lexer)
    (m₂ : List (Token × Lexer)) (hsplit : m = m₁ ++ p :: m₂) (hblank : ∀ q ∈ m₁, q.1.kind = .blank) :
    p.1.kind ≠ .assign := by
  intro hassign
  obtain ⟨-, hopen, hkind⟩ := h.builder
  have hend := h.kindOf_eq huri hn hk
  rw [hsplit, Builder.behind_append, Builder.behind_blank hblank, Builder.behind_cons] at hend
  have hbehind := h.behind
  rw [hsplit] at hbehind
  obtain ⟨w, -, hw⟩ := hbehind.of_append
  cases hw with
  | next hlt hrest =>
    have hstep := (Builder.SameBut.of_assign (t := (w.step text).1) hopen hkind).2.2
    have heq (b : Builder) : Builder.step text b (w.step text).1 (w.step text).2.inDtd =
        b.assign (w.step text).1 := by
      simp only [Builder.step, hassign]
    rw [heq] at hend
    obtain ⟨A', hA', hdelimiter⟩ := Builder.attribute_behind hstep hrest
    rw [hA'] at hend
    obtain rfl := Kind.attribute.inj hend
    rw [hdelimiter rfl] at hA
    cases hA

end Reads

theorem before_patch {u v p r : String} {b : UInt8} {bs : List UInt8} {w : Lexer} (hp : bytesOf p = b :: bs)
    (hb : b = 0x3D ∨ b = 0x22) (hw : Leads (u ++ (v ++ r)) .document l w) (hin : w.inStartTag = true)
    (hmode : w.mode.awaits = true) (hpos : w.pos = Text.size u) :
    Leads (u ++ (p ++ r)) .document l w ∧
      Builder.Mirrored {} (Builder.behind (u ++ (v ++ r)) l (Builder.start (u ++ (v ++ r)) false))
        (Builder.behind (u ++ (p ++ r)) l (Builder.start (u ++ (p ++ r)) false)) := by
  have hsame := Text.sameTo_append u (v ++ r) (p ++ r)
  obtain ⟨hbreaks, hopener⟩ := Lexer.breaks_of_patch (u := u) (r := r) hp hb
  rw [← hpos] at hsame hbreaks hopener
  have hw' := hw.upTo_attribute hin hmode hsame hbreaks hopener
  refine ⟨hw', ?_⟩
  have htokens := hw.sameTokens_upTo hw' hsame (Text.isBoundary_zero _) (Text.isBoundary_zero _) (Nat.le_refl _)
  exact (Builder.mirrored_start {} _ _).behind_same htokens

theorem outline_patched {u v p r value : String} {l' : List (Token × Lexer)} {b : Builder}
    (hl' : Leads (u ++ (p ++ r)) .document l' (Lexer.cursor .inTag (Text.size u + Text.size p) false))
    (hbase : 2 ≤ Text.size u)
    (hf : Builder.Follows (u ++ (v ++ r)) (Lexer.cursor .inTag (Text.size u + Text.size v) false) b)
    (hkind : b.kindOf a = .attribute A)
    (hm : Builder.Mirrors (.quote a value) b (Builder.behind (u ++ (p ++ r)) l' (Builder.start (u ++ (p ++ r)) false)))
    (hrest : Leads (u ++ (v ++ r)) (Lexer.cursor .inTag (Text.size u + Text.size v) false) m y)
    (hy : y.pos = Text.size (u ++ (v ++ r))) (huri : isDtdUri uri = false)
    (hnodes : (parse (u ++ (v ++ r)) uri).nodes =
      (Builder.atEnd (u ++ (v ++ r)) (Builder.behind (u ++ (v ++ r)) m b)).nodes) (c : Nat) :
    (parse (u ++ (p ++ r)) uri).nodes[c]?.map Node.outline =
      (parse (u ++ (v ++ r)) uri).nodes[c]?.map fun n => (Retouch.quote a value).node c n.outline := by
  obtain ⟨m', y', hm', hy', hsame⟩ := hrest.behind_patch (p := p) hy hbase
  have hf' := (Builder.follows_start (u ++ (p ++ r)) false).behind hl'
  have hend := hm.behind_quoted hkind hf hf' hrest hm' hsame
  have hnodes' : (parse (u ++ (p ++ r)) uri).nodes = (Builder.atEnd (u ++ (p ++ r))
      (Builder.behind (u ++ (p ++ r)) (l' ++ m') (Builder.start (u ++ (p ++ r)) false))).nodes := by
    rw [← Builder.build_eq_behind (hl'.append hm') hy', parse, huri]
  rw [hnodes, hnodes', Builder.behind_append]
  exact (hend.atEnd fun _ => rfl).node c

namespace Reads

variable (h : Reads text a l z m y)
include h

theorem two_le : 2 ≤ (z.step text).2.pos := by
  have hmode : z.mode ≠ .content := fun hm => by
    have htag := h.tag
    rw [Lexer.inStartTag, hm] at htag
    cases htag
  have hpos := h.before.pos_pos hmode
  have hahead := Leads.pos_lt_step h.follows.boundary h.lt
  omega

/-- **An attribute without `=`** gets an empty value. -/
theorem outline_assigned {n : Node} (huri : isDtdUri uri = false) (hn : (parse text uri).nodes[a]? = some n)
    (hk : n.kind = .attribute A) (hA : A.hasDelimiter = false) :
    A.value = none ∧ ∃ u r, text = u ++ ("" ++ r) ∧ Text.size u = A.nameSpan.stop ∧
      ∀ c, (parse (u ++ ("=" ++ Lexer.quoted "" ++ r)) uri).nodes[c]?.map Node.outline =
        (parse text uri).nodes[c]?.map fun n => (Retouch.quote a "").node c n.outline := by
  obtain ⟨hmode, hin, hspaced⟩ := h.lexer
  obtain ⟨-, hopen, hkind⟩ := h.builder
  have hf := (Builder.follows_start text false).behind h.leads
  have hbase := h.two_le
  obtain ⟨m₀, y₀, hm₀, hy₀, halike⟩ :=
    h.behind.unassigned hf.boundary hf.consistent hin hmode (h.ne_assign huri hn hk hA)
  have hbehind := Builder.behind_alike (s := text) halike
    (Builder.behind text (l ++ [z.step text]) (Builder.start text false))
  -- in front of what follows the attribute
  have hp : (z.step text).2.inProlog = false := (hf.consistent.of_inStartTag hin).1
  have hfall : Falls (z.step text).2 (z.step text).2.spaced (z.step text).2.unassigned := by
    have htag : (z.step text).2.tagMode = .inTag := by rw [Lexer.tagMode, if_neg (by simp [hp])]
    have hback : Falls (z.step text).2 (z.step text).2.spaced _ := .backInTag (.inl hmode)
    rwa [htag] at hback
  have hf₁ := hf.of_falls hfall
  -- the attribute has no value
  have huntouched := hf₁.untouched hkind (fun hm => by cases hm) hm₀
  rw [hbehind, h.kindOf_eq huri hn hk] at huntouched
  obtain rfl := Kind.attribute.inj huntouched
  refine ⟨rfl, ?_⟩
  obtain ⟨u, v, r, rfl, hu, hv⟩ := Text.exists_split hf.boundary hf.boundary (Nat.le_refl _)
  obtain rfl : v = "" := by
    have hsize : Text.size v = 0 := by omega
    simpa [Text.size] using hsize
  refine ⟨u, r, rfl, hu.symm.trans (Leads.stop_step h.follows.boundary h.lt).symm, ?_⟩
  have hunassigned : (z.step (u ++ ("" ++ r))).2.unassigned =
      Lexer.cursor .inTag (Text.size u + Text.size "") false := by
    rw [Lexer.eq_cursor hf₁.consistent rfl]
    exact congrArg₂ (Lexer.cursor .inTag) hu hspaced
  rw [hunassigned] at hf₁ hm₀
  -- the two texts up to the end of the name, and what the patch adds
  have hbytes : bytesOf ("=" ++ Lexer.quoted "") = 0x3D :: bytesOf (Lexer.quoted "") := by decide
  obtain ⟨hw', hsame⟩ := before_patch hbytes (.inl rfl) h.leads hin (by rw [hmode]; rfl) hu
  have hf' := (Builder.follows_start (u ++ ("=" ++ Lexer.quoted "" ++ r)) false).behind hw'
  have hzone := Lexer.leads_assigned hf'.consistent hf'.boundary hin hmode (r := bytesOf r) (by
    rw [hu, Lexer.rest_append, Text.bytesOf_append])
  have hl' := hw'.append hzone
  rw [hu] at hl'
  have hwritten : (⟨.attributeValue, Text.size u + 1, Text.size u + 3, none⟩ : Token).written
      (u ++ ("=" ++ Lexer.quoted "" ++ r)) = Lexer.quoted "" := by
    have hassoc : u ++ "=" ++ (Lexer.quoted "" ++ r) = u ++ ("=" ++ Lexer.quoted "" ++ r) := by
      simp only [String.append_assoc]
    have hslice := (Text.stands_append (u ++ "=") (Lexer.quoted "") r).slice
    rwa [Text.size_append, hassoc] at hslice
  refine fun c => outline_patched hl' (hu ▸ hbase) hf₁ hkind ?_ hm₀ (hy₀.trans h.stop) huri ?_ c
  · rw [Builder.behind_append _ (l ++ [_])]
    exact hsame.assigned hopen hkind hwritten
  · rw [hbehind, ← Builder.behind_append, ← Builder.build_eq_behind (h.leads.append h.behind) h.stop, parse, huri]

theorem exists_value {n : Node} (huri : isDtdUri uri = false) (hn : (parse text uri).nodes[a]? = some n)
    (hk : n.kind = .attribute A) (hspan : A.valueSpan.isSome = true) :
    ∃ l₁ w m₁ A₀, Leads text .document l₁ w ∧ w.pos < Text.size text ∧
      Leads text (w.step text).2 m₁ y ∧
      l ++ z.step text :: m = l₁ ++ w.step text :: m₁ ∧ 2 ≤ w.pos ∧
      (w.step text).1.kind = .attributeValue ∧ w.mode = .beforeAttributeValue ∧ w.inStartTag = true ∧
      (Builder.behind text l₁ (Builder.start text false)).openAttribute = some a ∧
      (Builder.behind text l₁ (Builder.start text false)).kindOf a = .attribute A₀ ∧
      A = A₀.withValue ((w.step text).1.written text) (w.step text).1.span := by
  obtain ⟨hmode, hin, -⟩ := h.lexer
  obtain ⟨hsize, -, hkind⟩ := h.builder
  have hf := (Builder.follows_start text false).behind h.leads
  have hend := h.kindOf_eq huri hn hk
  obtain ⟨m₀, w, m₁, hm₀, hlt, hm₁, hsplit, hnot, A₁, hA₁, hsome⟩ :=
    Builder.exists_turn (P := fun b => ∃ A, b.kindOf a = .attribute A ∧ A.valueSpan.isSome = true) h.behind
      (by
        rintro ⟨A', hA', hsome⟩
        obtain rfl := Kind.attribute.inj (hkind.symm.trans hA')
        cases hsome) ⟨A, hend, hspan⟩
  have hl₁ := h.leads.append hm₀
  have hf₁ := (Builder.follows_start text false).behind hl₁
  obtain ⟨A₀, hA₀, -⟩ := Builder.attribute_behind hkind hm₀
  rw [hsplit, Builder.behind_append, Builder.behind_cons] at hend
  have hwaits := hf.awaits_behind (a := a) (by omega) (fun _ => .inl hin) hm₀
  rw [← Builder.behind_append] at hA₁ hnot hA₀ hend hwaits
  obtain ⟨hopen, hvalue, hA⟩ :
      (Builder.behind text ((l ++ [z.step text]) ++ m₀) (Builder.start text false)).openAttribute = some a ∧
        (w.step text).1.kind = .attributeValue ∧
        A₁ = A₀.withValue ((w.step text).1.written text) (w.step text).1.span := by
    have hold := (Builder.changes_step text _ (w.step text).1 (w.step text).2.inDtd).old a
      (Builder.lt_size_of_attribute hA₀)
    rw [hA₁] at hold
    rcases Builder.kind_of_changes hold hA₀ with hsame | ⟨-, -, hsame⟩ | ⟨hopen, hvalue, hsame⟩
    · obtain rfl := Kind.attribute.inj hsame
      exact absurd ⟨_, hA₀, hsome⟩ hnot
    · obtain rfl := Kind.attribute.inj hsame
      exact absurd ⟨_, hA₀, hsome⟩ hnot
    · exact ⟨hopen, hvalue, Kind.attribute.inj hsame⟩
  obtain ⟨v, -, -, hv, hreads⟩ := hf₁.exists_reads hlt
  rw [hvalue] at hreads
  obtain ⟨hvmode, hmoved⟩ := hreads.mode_of_attributeValue
  obtain rfl := hv (by rw [hvmode]; rfl)
  obtain ⟨-, b, _, hb, hlast, -⟩ := hf₁.awaits_of_kind hlt (.inr hvalue)
  obtain rfl := Option.some.inj (hopen.symm.trans hb)
  have huntouched := (hf₁.next hlt).2.untouched hA₁ (fun hm => by
    rw [hmoved, Lexer.moved_mode, Lexer.tagMode] at hm
    split at hm <;> cases hm) hm₁
  refine ⟨_, v, m₁, A₀, hl₁, hlt, hm₁, ?_, ?_, hvalue, hvmode, ?_, hopen, hA₀, ?_⟩
  · rw [hsplit]
    simp
  · exact Nat.le_trans h.two_le (hm₀.pos_le hf.boundary)
  · exact (hwaits (by rw [hvmode]; rfl)).resolve_right (by omega)
  · rw [← hA]
    exact Kind.attribute.inj (hend.symm.trans huntouched)

/-- **A value without quotes** gets its quotes. -/
theorem outline_requoted {n : Node} {sp : Span} (huri : isDtdUri uri = false)
    (hn : (parse text uri).nodes[a]? = some n) (hk : n.kind = .attribute A) (hA : A.hasDelimiter = true)
    (hquoted : A.isQuoted = false) (hspan : A.valueSpan = some sp) :
    ∃ u v r, text = u ++ (v ++ r) ∧ sp = ⟨Text.size u, Text.size u + Text.size v⟩ ∧ A.value = some v ∧
      ∀ c, (parse (u ++ (Lexer.quoted v ++ r)) uri).nodes[c]?.map Node.outline =
        (parse text uri).nodes[c]?.map fun n => (Retouch.quote a v).node c n.outline := by
  obtain ⟨l₁, w, m₁, A₀, hl₁, hlt, hm₁, hsplit, hbase, hvalue, hmode, hin, hopen, hkind, rfl⟩ :=
    h.exists_value huri hn hk (by rw [hspan]; rfl)
  have hf := (Builder.follows_start text false).behind hl₁
  have hquote : Text.startsWithQuote ((w.step text).1.written text) = false := hquoted
  obtain ⟨hunquoted, hbehind⟩ := Lexer.step_unquoted hf.consistent hf.boundary hlt hin hmode hvalue hquote
  have hstart := Leads.start_step hf.boundary hlt
  have hstop := Leads.stop_step hf.boundary hlt
  have hstep : Builder.step text (Builder.behind text l₁ (Builder.start text false)) (w.step text).1
      (w.step text).2.inDtd =
      Builder.attributeValue text (Builder.behind text l₁ (Builder.start text false)) (w.step text).1 := by
    simp only [Builder.step, hvalue]
  have hf₁ := (hf.next hlt).2
  have hnodes : (parse text uri).nodes = (Builder.atEnd text (Builder.behind text m₁ (Builder.attributeValue text
      (Builder.behind text l₁ (Builder.start text false)) (w.step text).1))).nodes := by
    rw [← hstep, ← Builder.behind_cons, ← Builder.behind_append, ← hsplit, parse, huri,
      ← Builder.build_eq_behind (h.before.append (.next h.lt h.behind)) h.stop]
  rw [hstep] at hf₁
  rw [hbehind, hstop] at hf₁ hm₁
  obtain ⟨u, v, r, rfl, hu, hv⟩ := Text.exists_split hf.boundary (hbehind ▸ hstop ▸ hf₁.boundary)
    (Nat.le_of_lt (Leads.pos_lt_step hf.boundary hlt))
  have hwritten : (w.step (u ++ (v ++ r))).1.written (u ++ (v ++ r)) = v := by
    rw [Token.written, hstart, hstop, hu, hv]
    exact (Text.stands_append u v r).slice
  rw [hwritten] at hunquoted
  rw [hv] at hf₁ hm₁
  -- the two texts up to the value, and the value with its quotes
  have hbytes : bytesOf (Lexer.quoted v) = 0x22 :: (bytesOf v ++ [0x22]) := by
    rw [Lexer.quoted, Text.bytesOf_append, Text.bytesOf_append]
    rfl
  obtain ⟨hw', hsame⟩ := before_patch hbytes (.inr rfl) hl₁ hin (by rw [hmode]; rfl) hu
  have hf' := (Builder.follows_start (u ++ (Lexer.quoted v ++ r)) false).behind hw'
  obtain ⟨hlt', hstep'⟩ := Lexer.step_quoted (r := bytesOf r) hf'.consistent hf'.boundary hin hmode (by
    rw [hu, Lexer.rest_append, Text.bytesOf_append]) hunquoted
  have hl' := hw'.append (.one hlt')
  rw [hstep', hu] at hl'
  have hwritten' : (⟨.attributeValue, Text.size u, Text.size u + Text.size (Lexer.quoted v), none⟩ : Token).written
      (u ++ (Lexer.quoted v ++ r)) = Lexer.quoted ((w.step (u ++ (v ++ r))).1.written (u ++ (v ++ r))) := by
    rw [hwritten]
    exact (Text.stands_append u (Lexer.quoted v) r).slice
  refine ⟨u, v, r, rfl, ?_, ?_, fun c => outline_patched hl' (hu ▸ hbase) hf₁
    (Builder.SameBut.of_attributeValue hopen hkind).2 ?_ hm₁ h.stop huri hnodes c⟩
  · rw [← Option.some.inj hspan, ← hv, ← hu, ← hstart, ← hstop]
    rfl
  · rw [Attribute.withValue, hwritten, Lexer.stripQuotes_of_isUnquoted hunquoted]
  · rw [Builder.behind_append]
    have hm := hsame.requoted hopen hkind hA hwritten'
    rwa [hwritten] at hm

end Reads

/-! ## What the fixes do -/

/-- In the second document the attribute `a` of the element `id`, which is `A` in the first, has its value in
quotes, and all else is as before. -/
structure Repaired (d d' : Document) (id a : Nat) (A : Attribute) : Prop where
  outline : ∀ c, d'.nodes[c]?.map Node.outline =
    d.nodes[c]?.map fun n => (Retouch.quote a (A.value.getD "")).node c n.outline
  names : (d'.attributes id).map (fun p => (p.1, p.2.name)) = (d.attributes id).map fun p => (p.1, p.2.name)
  value : ∃ A', (a, A') ∈ d'.attributes id ∧ A'.hasDelimiter = true ∧ A'.isQuoted = true ∧
    A'.value = some (A.value.getD "")

section outline

variable {d d' : Document} {v : String}

theorem attributeIds_outline (n : Node) : n.outline.attributeIds = n.attributeIds := by
  obtain ⟨_, _, _, kind⟩ := n
  cases kind <;> rfl

theorem name_outline (n : Node) : n.outline.attribute?.map (·.name) = n.attribute?.map (·.name) := by
  obtain ⟨_, _, _, kind⟩ := n
  cases kind <;> rfl

theorem attributeIds_quote (a : Nat) (v : String) (c : Nat) (n : Node) :
    ((Retouch.quote a v).node c n).attributeIds = n.attributeIds := by
  obtain ⟨_, _, _, kind⟩ := n
  cases kind <;> rfl

theorem name_quote (a : Nat) (v : String) (c : Nat) (n : Node) :
    ((Retouch.quote a v).node c n).attribute?.map (·.name) = n.attribute?.map (·.name) := by
  obtain ⟨_, _, _, kind⟩ := n
  cases kind <;> simp only [Retouch.node, Retouch.kind, Node.attribute?, Option.map_some, Retouch.quote]
  split <;> rfl

variable (h : ∀ c, d'.nodes[c]?.map Node.outline = d.nodes[c]?.map fun n => (Retouch.quote a v).node c n.outline)
include h

theorem keeps_of_outline {β : Type} (f : Node → β) (hout : ∀ n, f n.outline = f n)
    (hquote : ∀ c n, f ((Retouch.quote a v).node c n) = f n) (c : Nat) : f (d'.node c) = f (d.node c) := by
  have hc := congrArg (Option.map f) (h c)
  rw [Option.map_map, Option.map_map] at hc
  rw [node, node, Array.getD_eq_getD_getElem?, Array.getD_eq_getD_getElem?]
  cases hn' : d'.nodes[c]? with
  | none =>
    cases hn : d.nodes[c]? with
    | none => rfl
    | some n => simp [hn, hn'] at hc
  | some n' =>
    cases hn : d.nodes[c]? with
    | none => simp [hn, hn'] at hc
    | some n => simpa [hn, hn', Function.comp_def, hout, hquote] using hc

theorem names_of_outline (id : Nat) :
    (d'.attributes id).map (fun p => (p.1, p.2.name)) = (d.attributes id).map fun p => (p.1, p.2.name) := by
  rw [attributes, attributes, List.map_filterMap, List.map_filterMap,
    keeps_of_outline h _ attributeIds_outline (attributeIds_quote a v)]
  refine List.filterMap_congr fun c _ => ?_
  have hname := keeps_of_outline h (fun n => n.attribute?.map (·.name)) name_outline (name_quote a v) c
  have hpair := congrArg (Option.map (c, ·)) hname
  simpa only [Option.map_map, Function.comp_def] using hpair

theorem quoted_of_outline {n : Node} (hn : d.nodes[a]? = some n) (hk : n.kind = .attribute A) :
    ∃ n' A', d'.nodes[a]? = some n' ∧ n'.kind = .attribute A' ∧ A'.hasDelimiter = true ∧
      A'.written = some (Lexer.quoted v) ∧ A'.value = some v := by
  have hnode := h a
  rw [hn, Option.map_some] at hnode
  obtain ⟨n', hn', hout⟩ := Option.map_eq_some_iff.mp hnode
  have hkind : n.kind.Mirrors (.quote a v) a n'.kind := congrArg Node.kind hout
  rw [hk] at hkind
  obtain ⟨A', hk', hA'⟩ := hkind.ofAttribute
  rw [Retouch.onAttribute_quote] at hA'
  refine ⟨n', A', hn', hk', ?_, ?_, ?_⟩
  · exact congrArg Attribute.hasDelimiter hA'
  · exact congrArg Attribute.written hA'
  · exact congrArg Attribute.value hA'

end outline

theorem repaired_of_outline {text' v : String} (hv : A.value.getD "" = v)
    (hA : (a, A) ∈ (parse text uri).attributes id)
    (h : ∀ c, (parse text' uri).nodes[c]?.map Node.outline =
      (parse text uri).nodes[c]?.map fun n => (Retouch.quote a v).node c n.outline) :
    Repaired (parse text uri) (parse text' uri) id a A := by
  have hnames := names_of_outline h id
  obtain ⟨n, hn, hk⟩ := kind_of_attribute hA
  obtain ⟨n', A', hn', hk', hdelimiter, hwritten, hvalue⟩ := quoted_of_outline h hn hk
  refine ⟨by rwa [hv], hnames, A', ?_, hdelimiter, ?_, by rw [hv, hvalue]⟩
  · -- the names come with the numbers of the attributes
    have hmem := List.mem_map_of_mem (f := fun p => (p.1, p.2.name)) hA
    rw [← hnames] at hmem
    obtain ⟨⟨c, A''⟩, hA'', hpair⟩ := List.mem_map.mp hmem
    obtain ⟨rfl, -⟩ := Prod.mk.inj hpair
    obtain ⟨n'', hn'', hk''⟩ := kind_of_attribute hA''
    rw [hn'] at hn''
    obtain rfl := Option.some.inj hn''
    rw [hk'] at hk''
    obtain rfl := Kind.attribute.inj hk''
    exact hA''
  · rw [Attribute.isQuoted, hwritten]
    exact Written.startsWithQuote_quoted ⟨"", "", .double, v⟩

end Document

namespace Diagnostics

open Document

variable {d : Document} {problem : Diagnostic} {id a : Nat} {A : Attribute}

/-- The problem is that of the attribute `a` of the element `id`, which is `A`. -/
structure Reported (d : Document) (problem : Diagnostic) (id a : Nat) (A : Attribute) : Prop where
  mem : (a, A) ∈ d.attributes id
  incomplete : ∃ e tag, d.element? id = some e ∧ e.tag = some tag ∧ problem ∈ incomplete d tag a A

theorem mem_errorAt {rangeOf : Span → Except BadLocation Range} {sp : Span} {code message : String}
    (h : problem ∈ Diagnostic.errorAt rangeOf sp code message) :
    rangeOf sp = .ok problem.range ∧ problem.code = some code := by
  unfold Diagnostic.errorAt at h
  split at h
  · rename_i range hrange
    rw [List.mem_singleton.mp h]
    exact ⟨hrange, rfl⟩
  · cases h

/-- The problem is about the `=` or the quotes of an attribute. -/
def IsAboutValue (problem : Diagnostic) : Prop :=
  problem.code = some missingEqualsCode ∨ problem.code = some missingQuoteCode

theorem mem_incomplete_of_mem_ofAttributes {tag : String} {seen : List Attribute} {l : List (Nat × Attribute)}
    (h : problem ∈ ofAttributes d tag seen l) (habout : IsAboutValue problem) :
    ∃ a A, (a, A) ∈ l ∧ problem ∈ incomplete d tag a A := by
  induction l generalizing seen with
  | nil => cases h
  | cons p l ih =>
    rw [ofAttributes, List.mem_append, List.mem_append] at h
    rcases h with (h | h) | h
    · split at h
      · unfold duplicate at h
        split at h
        · cases h
        · rw [List.mem_singleton.mp h] at habout
          simp [IsAboutValue, duplicateCode, missingEqualsCode, missingQuoteCode] at habout
      · cases h
    · exact ⟨p.1, p.2, List.mem_cons_self, h⟩
    · obtain ⟨a, A, hmem, hproblem⟩ := ih h
      exact ⟨a, A, List.mem_cons_of_mem _ hmem, hproblem⟩

theorem exists_reported {settings : Settings} (h : problem ∈ ofSyntax d settings) (habout : IsAboutValue problem) :
    ∃ id a A, Reported d problem id a A := by
  have hcode {rangeOf : Span → Except BadLocation Range} {span : Span} {code message : String}
      (hx : problem ∈ Diagnostic.errorAt rangeOf span code message) :
      code = missingEqualsCode ∨ code = missingQuoteCode := by
    rwa [IsAboutValue, code_of_mem_errorAt hx, Option.some_inj, Option.some_inj] at habout
  rw [ofSyntax, List.mem_append, List.mem_append] at h
  rcases h with (h | h) | h
  · obtain ⟨⟨t, _⟩, -, hx⟩ := List.mem_flatMap.mp h
    dsimp only at hx
    split at hx
    · rename_i fault _
      have := hcode hx
      cases fault <;> simp [Token.Fault.code, missingEqualsCode, missingQuoteCode] at this
    · cases hx
  · unfold ofDoctype at h
    split at h
    · split at h
      · have := hcode h
        simp [doctypeCode, missingEqualsCode, missingQuoteCode] at this
      · cases h
    · cases h
  · obtain ⟨id, -, hx⟩ := List.mem_flatMap.mp h
    split at hx
    · rename_i e he
      unfold ofElement at hx
      split at hx
      · cases hx
      · rename_i tag htag
        split at hx
        · rcases List.mem_append.mp hx with hx | hx
          · split at hx
            · have := hcode hx
              simp [unclosedCode, missingEqualsCode, missingQuoteCode] at this
            · cases hx
          · obtain ⟨a, A, hmem, hproblem⟩ := mem_incomplete_of_mem_ofAttributes hx habout
            exact ⟨id, a, A, hmem, e, tag, he, htag, hproblem⟩
        · split at hx
          · have := hcode hx
            simp [unmatchedCode, missingEqualsCode, missingQuoteCode] at this
          · cases hx
    · cases hx

end Diagnostics

namespace Participant.FromGrammar

open Document Diagnostics

variable {text uri : String} {problem : Diagnostic} {id a : Nat} {A : Attribute}

theorem fix_missingEquals (hcode : problem.code = some missingEqualsCode) {sp : Span} {range : Range}
    (hrange : (parse text uri).rangeOf sp = .ok problem.range)
    (hstop : (parse text uri).rangeOf ⟨sp.stop, sp.stop⟩ = .ok range) (cancel : Cancel) :
    (fix (parse text uri) problem cancel).items =
      [.quickFix "Insert '=\"\"'" problem (parse text uri).uri range "=\"\""] := by
  rw [fix, spanOf_of_rangeOf hrange]
  simp only [hcode, hstop]
  rfl

theorem fix_missingQuote (hcode : problem.code = some missingQuoteCode) {sp : Span}
    (hrange : (parse text uri).rangeOf sp = .ok problem.range) (cancel : Cancel) :
    (fix (parse text uri) problem cancel).items =
      [.quickFix "Insert quotes" problem (parse text uri).uri problem.range
        ("\"" ++ (parse text uri).slice sp ++ "\"")] := by
  rw [fix, spanOf_of_rangeOf hrange]
  simp only [hcode]
  rfl

theorem edited_one {u v r w : String} {range : Range}
    (hrange : (parse (u ++ (v ++ r)) uri).rangeOf ⟨Text.size u, Text.size u + Text.size v⟩ = .ok range) :
    (parse (u ++ (v ++ r)) uri).edited [{ range, newText := w }] = .ok (u ++ (w ++ r)) := by
  rw [edited_parse (l := [(⟨Text.size u, Text.size u + Text.size v⟩, w)]) (.cons ⟨hrange, rfl⟩ .nil)
    (List.pairwise_singleton ..), Text.splice_one]

theorem fix_reported (hp : Reported (parse text uri) problem id a A)
    (hvalue : A.hasDelimiter = true → A.valueSpan.isSome = true) (cancel : Cancel) :
    ∃ action text', (fix (parse text uri) problem cancel).items = [action] ∧ action.edit.uri = uri ∧
      (parse text uri).edited action.edit.edits = .ok text' ∧
      Repaired (parse text uri) (parse text' uri) id a A := by
  obtain ⟨e, tag, he, -, hproblem⟩ := hp.incomplete
  have huri := isDtdUri_of_element? he
  obtain ⟨ha, n, hn, hk⟩ := (mem_attributes_iff he).mp hp.mem
  obtain ⟨l, z, m, y, h⟩ := exists_attributeName he ha
  unfold incomplete at hproblem
  split at hproblem
  · -- `=""` is put behind the name
    rename_i hA
    obtain ⟨hrange, hcode⟩ := mem_errorAt hproblem
    obtain ⟨hnone, u, r, rfl, hu, houtline⟩ := h.outline_assigned huri hn hk (by simpa using hA)
    have hboundary := (Text.stands_append u "" r).isBoundary
    obtain ⟨range, hstop⟩ :
        ∃ range, (parse (u ++ ("" ++ r)) uri).rangeOf ⟨Text.size u, Text.size u⟩ = .ok range :=
      exists_rangeOf hboundary hboundary
    refine ⟨_, _, fix_missingEquals hcode hrange (hu ▸ hstop) cancel, rfl, edited_one hstop, ?_⟩
    exact repaired_of_outline (by rw [hnone]; rfl) hp.mem houtline
  · split at hproblem
    · -- quotes are put around the value
      rename_i hA hquoted
      rw [Bool.not_eq_true', Bool.not_eq_false] at hA
      obtain ⟨sp, hsp⟩ := Option.isSome_iff_exists.mp (hvalue hA)
      rw [hsp, Option.getD_some] at hproblem
      obtain ⟨hrange, hcode⟩ := mem_errorAt hproblem
      obtain ⟨u, v, r, rfl, rfl, hsome, houtline⟩ :=
        h.outline_requoted huri hn hk hA (by simpa using hquoted) hsp
      have hslice : (parse (u ++ (v ++ r)) uri).slice ⟨Text.size u, Text.size u + Text.size v⟩ = v :=
        (Text.stands_append u v r).slice
      have hfix := fix_missingQuote hcode hrange cancel
      rw [hslice] at hfix
      exact ⟨_, _, hfix, rfl, edited_one hrange, repaired_of_outline (by rw [hsome]; rfl) hp.mem houtline⟩
    · cases hproblem

/-- **The fixes of attributes** repair the attribute they are offered for: what is reported about an `=` or
quotes is reported about an attribute of an element, and if that has a value behind its `=`, the only fix gives it
an `=` and its value in quotes, and keeps all else. -/
theorem fix_repairs (text uri : String) (settings : Settings) :
    (∀ problem ∈ ofSyntax (parse text uri) settings, IsAboutValue problem →
      ∃ id a A, Reported (parse text uri) problem id a A) ∧
    ∀ problem id a A, Reported (parse text uri) problem id a A →
      (A.hasDelimiter = true → A.valueSpan.isSome = true) → ∀ cancel,
      ∃ action text', (fix (parse text uri) problem cancel).items = [action] ∧ action.edit.uri = uri ∧
        (parse text uri).edited action.edit.edits = .ok text' ∧
        Repaired (parse text uri) (parse text' uri) id a A :=
  ⟨fun _ hp habout => exists_reported hp habout, fun _ _ _ _ hp hvalue => fix_reported hp hvalue⟩

/-- A value without quotes. -/
theorem fix_repairs_unquoted : ∃ problem ∈ ofSyntax (parse "<a x=v></a>" "file:///a.xml") {},
    IsAboutValue problem ∧ ∃ A, A.hasDelimiter = true ∧ A.valueSpan.isSome = true ∧
      Reported (parse "<a x=v></a>" "file:///a.xml") problem 1 2 A ∧
      ∃ action text', (fix (parse "<a x=v></a>" "file:///a.xml") problem .never).items = [action] ∧
        action.edit.uri = "file:///a.xml" ∧
        (parse "<a x=v></a>" "file:///a.xml").edited action.edit.edits = .ok text' ∧
        Repaired (parse "<a x=v></a>" "file:///a.xml") (parse text' "file:///a.xml") 1 2 A := by
  have hreported : Reported (parse "<a x=v></a>" "file:///a.xml")
      { range := ⟨⟨0, 5⟩, ⟨0, 6⟩⟩, severity := .error, code := some missingQuoteCode,
        message := "Open quote is expected for attribute \"x\" associated with an element type \"a\"." } 1 2
      { name := "x", nameSpan := ⟨3, 4⟩, valueSpan := some ⟨5, 6⟩, written := some "v", value := some "v",
        hasDelimiter := true } :=
    ⟨by decide +kernel, by
      obtain ⟨e, he, htag⟩ :
          ∃ e, (parse "<a x=v></a>" "file:///a.xml").element? 1 = some e ∧ e.tag = some "a" :=
        Option.map_eq_some_iff.mp (by decide +kernel)
      exact ⟨e, "a", he, htag, by decide +kernel⟩⟩
  exact ⟨_, by decide +kernel, .inr rfl, _, rfl, rfl, hreported,
    (fix_repairs "<a x=v></a>" "file:///a.xml" {}).2 _ _ _ _ hreported (fun _ => rfl) .never⟩

/-- An attribute with nothing behind its `=`: the quotes are put around its name, and it is lost. -/
theorem fix_quotes_name : ∃ problem ∈ ofSyntax (parse "<a x=></a>" "file:///a.xml") {},
    ∃ A, Reported (parse "<a x=></a>" "file:///a.xml") problem 1 2 A ∧ A.value = none ∧
      ∃ action, (fix (parse "<a x=></a>" "file:///a.xml") problem .never).items = [action] ∧
        (parse "<a x=></a>" "file:///a.xml").edited action.edit.edits = .ok "<a \"x\"=></a>" ∧
        (parse "<a x=></a>" "file:///a.xml").attributes 1 = [(2, A)] ∧
        (parse "<a \"x\"=></a>" "file:///a.xml").attributes 1 = [] := by
  have hreported : Reported (parse "<a x=></a>" "file:///a.xml")
      { range := ⟨⟨0, 3⟩, ⟨0, 4⟩⟩, severity := .error, code := some missingQuoteCode,
        message := "Open quote is expected for attribute \"x\" associated with an element type \"a\"." } 1 2
      { name := "x", nameSpan := ⟨3, 4⟩, hasDelimiter := true } :=
    ⟨by decide +kernel, by
      obtain ⟨e, he, htag⟩ :
          ∃ e, (parse "<a x=></a>" "file:///a.xml").element? 1 = some e ∧ e.tag = some "a" :=
        Option.map_eq_some_iff.mp (by decide +kernel)
      exact ⟨e, "a", he, htag, by decide +kernel⟩⟩
  have hrange : (parse "<a x=></a>" "file:///a.xml").rangeOf ⟨3, 4⟩ = .ok ⟨⟨0, 3⟩, ⟨0, 4⟩⟩ := by
    decide +kernel
  have hslice : (parse "<a x=></a>" "file:///a.xml").slice ⟨3, 4⟩ = "x" := by decide +kernel
  refine ⟨_, by decide +kernel, _, hreported, rfl, _, fix_missingQuote rfl hrange .never,
    (edited_one (u := "<a ") (v := "x") (r := "=></a>") hrange).trans ?_, by decide +kernel, by decide +kernel⟩
  rw [hslice]
  rfl

end Participant.FromGrammar

end XmlAssist
