import XmlAssist.Proofs.Edits.Reading

/-!
# What a node covers

A node covers the spans that it keeps, and what a declaration keeps stands behind the first byte of the
declaration (`Node.Covers`). New nodes start at the token that they come from, or at the `</` whose
name has not been read; so the nodes that come behind some tokens start behind these tokens
(`Builder.Covering`).
-/

namespace XmlAssist

open Node
open Text (size isBoundary)
open Lexer (Leads)

/-- The node keeps no span but those inside its own. -/
structure Node.Covers (n : Node) : Prop where
  inside : ∀ sp ∈ n.kind.spans, n.span.start ≤ sp.start ∧ sp.stop ≤ n.span.stop
  behind : ∀ d, n.kind = .declaration d → ∀ sp ∈ n.kind.spans, n.span.start < sp.start

theorem Node.covers_of_nil {n : Node} (h : n.kind.spans = []) : n.Covers := by
  constructor <;> simp [h]

theorem Node.Covers.extend {n m : Node} (h : n.Covers) (hkind : m.kind = n.kind)
    (hstart : m.span.start = n.span.start) (hstop : n.span.stop ≤ m.span.stop) : m.Covers := by
  constructor
  · intro sp hsp
    rw [hkind] at hsp
    obtain ⟨hle, hin⟩ := h.inside sp hsp
    exact ⟨hstart ▸ hle, Nat.le_trans hin hstop⟩
  · intro d hd sp hsp
    rw [hkind] at hd hsp
    exact hstart ▸ h.behind d hd sp hsp

/-- A node that reaches up to `stop` covers what it did, and what stands behind its first byte up to there. -/
theorem Node.Covers.write {n : Node} {k : Kind} {stop : Nat} (h : n.Covers)
    (hdeclaration : ∀ d, k = .declaration d → ∃ d', n.kind = .declaration d')
    (hspans : ∀ sp ∈ k.spans, sp ∈ n.kind.spans ∨ (n.span.start ≤ sp.start ∧ sp.stop ≤ stop ∧
      ∀ d, k = .declaration d → n.span.start < sp.start)) :
    ({ n with kind := k, span := n.span.extendTo stop } : Node).Covers := by
  constructor
  · intro sp hsp
    rcases hspans sp hsp with hold | ⟨hle, hin, -⟩
    · exact ⟨(h.inside sp hold).1, Nat.le_trans (h.inside sp hold).2 (Nat.le_max_left ..)⟩
    · exact ⟨hle, Nat.le_trans hin (Nat.le_max_right ..)⟩
  · intro d hd sp hsp
    rcases hspans sp hsp with hold | ⟨-, -, hlt⟩
    · obtain ⟨d', hd'⟩ := hdeclaration d hd
      exact h.behind d' hd' sp hold
    · exact hlt d hd

namespace Builder

variable {s : String} {x y : Lexer} {l : List (Token × Lexer)} {b b' : Builder} {t : Token}
variable {id stop count pos : Nat} {k : Kind} {inDtd : Bool}

/-- Every node covers what it keeps, and the nodes with numbers from `count` on start at `pos` or behind it. -/
structure Covering (count pos : Nat) (b : Builder) : Prop where
  covers : ∀ {id : Nat} {n : Node}, b.nodes[id]? = some n → n.Covers
  later : ∀ {id : Nat} {n : Node}, b.nodes[id]? = some n → count ≤ id → pos ≤ n.span.start
  endTagOpen : ∀ start, b.endTagOpen = some start → pos ≤ start
  contentStart : ∀ {o id : Nat} {n : Node}, b.contentStart = some o → b.declaration = some id →
    b.nodes[id]? = some n → (∃ d, n.kind = .declaration d) → n.span.start < o

/-- Every node has started where the token `t` does, and every declaration before it. -/
def StartsBefore (b : Builder) (t : Token) : Prop := ∀ (id : Nat) (n : Node), b.nodes[id]? = some n →
  n.span.start ≤ t.start ∧ ((∃ d, n.kind = .declaration d) → n.span.start < t.start)

theorem StartsBefore.reach (h : b.StartsBefore t) (ids : List Nat) (stop : Nat) :
    ({ b with nodes := reach b.nodes ids stop } : Builder).StartsBefore t := by
  intro id m hm
  obtain ⟨n, hn, rfl⟩ := Option.map_eq_some_iff.mp ((getElem?_reach b.nodes ids stop id).symm.trans hm)
  have hold := h id n hn
  split <;> exact hold

namespace Covering

theorem of_nodes (h : b.Covering count pos) (hnodes : b'.nodes = b.nodes)
    (hend : ∀ start, b'.endTagOpen = some start → b.endTagOpen = some start ∨ pos ≤ start)
    (hcontent : b'.declaration = none ∨ (b'.declaration = b.declaration ∧ b'.contentStart = b.contentStart)) :
    b'.Covering count pos where
  covers hn := h.covers (hnodes ▸ hn)
  later hn := h.later (hnodes ▸ hn)
  endTagOpen start hstart := (hend start hstart).elim (h.endTagOpen start) fun hle => hle
  contentStart ho hid hn := by
    rcases hcontent with hnone | ⟨hdeclaration, hstart⟩
    · cases hnone.symm.trans hid
    · exact h.contentStart (hstart ▸ ho) (hdeclaration ▸ hid) (hnodes ▸ hn)

theorem leave (h : b.Covering count pos) (id : Nat) : { b with current := id }.Covering count pos :=
  h.of_nodes rfl (fun _ => .inl) (.inr ⟨rfl, rfl⟩)

theorem forget (h : b.Covering count pos) : { b with openAttribute := none }.Covering count pos :=
  h.of_nodes rfl (fun _ => .inl) (.inr ⟨rfl, rfl⟩)

/-- A node changes that starts where it did and covers what it keeps. -/
theorem modify (h : b.Covering count pos) {f : Node → Node} (hstart : ∀ n, (f n).span.start = n.span.start)
    (hf : ∀ n, b.nodes[id]? = some n → (∀ d, (f n).kind = .declaration d → ∃ d', n.kind = .declaration d') ∧
      (n.Covers → (f n).Covers)) : (b.modify id f).Covering count pos := by
  have hold {c : Nat} {m : Node} (hm : (b.modify id f).nodes[c]? = some m) : ∃ n, b.nodes[c]? = some n ∧
      m.span.start = n.span.start ∧ (∀ d, m.kind = .declaration d → ∃ d', n.kind = .declaration d') ∧
      (n.Covers → m.Covers) := by
    obtain ⟨n, hn, ⟨rfl, rfl⟩ | ⟨-, rfl⟩⟩ := getElem?_modify_eq_some hm
    · exact ⟨n, hn, hstart n, hf n hn⟩
    · exact ⟨m, hn, rfl, fun d hd => ⟨d, hd⟩, fun hcovers => hcovers⟩
  refine ⟨fun hm => ?_, fun hm hle => ?_, h.endTagOpen, fun ho hid hm hkind => ?_⟩
  · obtain ⟨n, hn, -, -, hcovers⟩ := hold hm
    exact hcovers (h.covers hn)
  · obtain ⟨n, hn, hsame, -⟩ := hold hm
    exact hsame ▸ h.later hn hle
  · obtain ⟨n, hn, hsame, hdeclaration, -⟩ := hold hm
    exact hsame ▸ h.contentStart ho hid hn (hdeclaration _ hkind.choose_spec)

theorem extend (h : b.Covering count pos) (id stop : Nat) : (b.extend id stop).Covering count pos :=
  h.modify (fun _ => rfl) fun _ _ =>
    ⟨fun d hd => ⟨d, hd⟩, fun hcovers => hcovers.extend rfl rfl (Nat.le_max_left ..)⟩

theorem foldl_extend (h : b.Covering count pos) (ids : List Nat) (stop : Nat) :
    (ids.foldl (fun b id => b.extend id stop) b).Covering count pos := by
  induction ids generalizing b with
  | nil => exact h
  | cons id ids ih => exact ih (h.extend id stop)

theorem update (h : b.Covering count pos) (hb : b.StartsBefore t)
    (hdeclaration : ∀ d, k = .declaration d → ∃ d', b.kindOf id = .declaration d')
    (hspans : ∀ sp ∈ k.spans, sp ∈ (b.kindOf id).spans ∨ (sp.stop ≤ t.stop ∧ (sp.start = t.start ∨
      (∃ old ∈ (b.kindOf id).spans, sp.start = old.start) ∨
      (b.declaration = some id ∧ b.contentStart = some sp.start ∧ ∃ d, b.kindOf id = .declaration d)))) :
    (b.update id k t.stop).Covering count pos := by
  refine h.modify (fun _ => rfl) fun n hn => ?_
  rw [kindOf_eq hn] at hdeclaration hspans
  refine ⟨hdeclaration, fun hcovers => ?_⟩
  refine hcovers.write hdeclaration fun sp hsp => (hspans sp hsp).imp_right fun ⟨hstop, hwhere⟩ => ?_
  rcases hwhere with hstart | ⟨old, hold, hstart⟩ | ⟨hid, hstart, hkind⟩
  · rw [hstart]
    exact ⟨(hb id n hn).1, hstop, fun d hd => (hb id n hn).2 (hdeclaration d hd)⟩
  · rw [hstart]
    refine ⟨(hcovers.inside old hold).1, hstop, fun d hd => ?_⟩
    obtain ⟨d', hd'⟩ := hdeclaration d hd
    exact hcovers.behind d' hd' old hold
  · have hlt := h.contentStart hstart hid hn hkind
    exact ⟨Nat.le_of_lt hlt, hstop, fun _ _ => hlt⟩

theorem push {n : Node} (h : b.Covering count pos) (hcovers : n.Covers) (hpos : pos ≤ n.span.start)
    (hdeclaration : (∀ d, n.kind ≠ .declaration d) ∨ b.declaration = none) (hnodes : b'.nodes = b.nodes.push n)
    (hend : b'.endTagOpen = b.endTagOpen) (hdecl : b'.declaration = b.declaration)
    (hcontent : b'.contentStart = b.contentStart) : b'.Covering count pos := by
  have hold {c : Nat} {m : Node} (hm : b'.nodes[c]? = some m) :
      (c = b.nodes.size ∧ m = n) ∨ b.nodes[c]? = some m := by
    rw [hnodes, Array.getElem?_push] at hm
    split at hm
    · exact .inl ⟨‹_›, (Option.some.inj hm).symm⟩
    · exact .inr hm
  refine ⟨fun hm => ?_, fun hm hle => ?_, hend ▸ h.endTagOpen, fun ho hid hm hkind => ?_⟩
  · obtain ⟨-, rfl⟩ | hn := hold hm
    · exact hcovers
    · exact h.covers hn
  · obtain ⟨-, rfl⟩ | hn := hold hm
    · exact hpos
    · exact h.later hn hle
  · rw [hdecl] at hid
    rcases hdeclaration with hne | hnone
    · obtain ⟨-, rfl⟩ | hn := hold hm
      · exact hkind.elim fun d hd => (hne d hd).elim
      · exact h.contentStart (hcontent ▸ ho) hid hn hkind
    · cases hnone.symm.trans hid

theorem append (h : b.Covering count pos) {span : Span} (hcovers : ({ span, kind := k } : Node).Covers)
    (hpos : pos ≤ span.start) (hdeclaration : (∀ d, k ≠ .declaration d) ∨ b.declaration = none) :
    (b.append k span).Covering count pos := by
  have hchild : (b.modify b.current (withChild b.nodes.size)).Covering count pos :=
    h.modify (fun _ => rfl) fun _ _ =>
      ⟨fun d hd => ⟨d, hd⟩, fun hcovers => hcovers.extend rfl rfl (Nat.le_refl _)⟩
  exact hchild.push (n := { span, parent := some b.current, kind := k }) ⟨hcovers.inside, hcovers.behind⟩ hpos
    hdeclaration rfl rfl rfl rfl

theorem openNode (h : b.Covering count pos) {span : Span} (hcovers : ({ span, kind := k } : Node).Covers)
    (hpos : pos ≤ span.start) (hdeclaration : (∀ d, k ≠ .declaration d) ∨ b.declaration = none) :
    (b.openNode k span).Covering count pos :=
  (h.append hcovers hpos hdeclaration).leave _

/-! ### Before new markup -/

theorem leaveClosedElement (h : b.Covering count pos) : b.leaveClosedElement.Covering count pos := by
  unfold Builder.leaveClosedElement
  split
  · split
    · exact h.leave _
    · exact h
  · exact h

theorem leaveDeclaration (h : b.Covering count pos) : b.leaveDeclaration.Covering count pos := by
  unfold Builder.leaveDeclaration
  split
  · exact h.of_nodes rfl (fun _ => .inl) (.inl rfl)
  · exact h

theorem leaveDoctype (h : b.Covering count pos) (stop : Nat) : (b.leaveDoctype stop).Covering count pos := by
  unfold Builder.leaveDoctype
  dsimp only
  split
  · exact (h.leaveDeclaration.extend _ stop).of_nodes rfl (fun _ => .inl) (.inr ⟨rfl, rfl⟩)
  · exact h.leaveDeclaration

theorem flushEndTag (h : b.Covering count pos) (stop : Nat) (close : Option Nat) :
    (b.flushEndTag stop close).Covering count pos := by
  unfold Builder.flushEndTag
  split
  · rename_i start hstart
    have hforget : { b with endTagOpen := none }.Covering count pos :=
      h.of_nodes rfl (fun _ hnone => by cases hnone) (.inr ⟨rfl, rfl⟩)
    exact hforget.append (covers_of_nil rfl) (h.endTagOpen start hstart) (.inl fun _ => by rintro ⟨⟩)
  · exact h

theorem beforeMarkup (h : b.Covering count pos) (start : Nat) (inDtd : Bool) :
    (b.beforeMarkup start inDtd).Covering count pos := by
  have hsettle : (b.settle start).Covering count pos := (h.forget.flushEndTag start none).leaveDeclaration
  rw [beforeMarkup_eq]
  refine leaveClosedElement ?_
  split
  · exact hsettle.leaveDoctype start
  · exact hsettle

theorem openMarkup (h : b.Covering count pos) (hpos : pos ≤ t.start) (hspans : k.spans = [])
    (hk : ∀ d, k ≠ .declaration d) : ((b.beforeMarkup t.start inDtd).openNode k t.span).Covering count pos :=
  (h.beforeMarkup _ _).openNode (covers_of_nil hspans) hpos (.inl hk)

/-! ### One token -/

theorem update_same {k' : Kind} (h : b.Covering count pos) (hkind : b.kindOf id = k)
    (hk' : ∀ d, k' ≠ .declaration d)
    (hspans : k'.spans = k.spans) (stop : Nat) : (b.update id k' stop).Covering count pos := by
  refine h.modify (fun _ => rfl) fun n hn => ?_
  rw [← hkind, kindOf_eq hn] at hspans
  exact ⟨fun d hd => absurd hd (hk' d),
    fun hcovers => hcovers.write (fun d hd => absurd hd (hk' d)) fun sp hsp => .inl (hspans ▸ hsp)⟩

theorem closeNearest (h : b.Covering count pos) (hb : b.StartsBefore t) {start : Nat} (hpos : pos ≤ start)
    (hstart : start ≤ t.start) : (closeNearest s b start t).Covering count pos := by
  unfold Builder.closeNearest
  split
  · rename_i c hfind
    obtain ⟨e, hkind, -⟩ := element_of_isOpenAs (List.find?_some hfind)
    rw [closeAt_eq hkind]
    have hinner := h.foldl_extend ((chain b.nodes b.current).takeWhile (!b.isOpenAs (t.written s) ·)) start
    rw [Builder.foldl_extend] at hinner
    refine (hinner.update (hb.reach _ start) (fun d hd => by cases hd) fun sp hsp => ?_).leave c
    rw [show _ = _ from (kindOf_reach b _ start c).trans hkind]
    rcases List.mem_append.mp hsp with hname | hname
    · exact .inl (List.mem_append_left _ hname)
    · obtain rfl : sp = t.span := by simpa using hname
      exact .inr ⟨Nat.le_refl _, .inl rfl⟩
  · refine h.openNode ⟨fun sp hsp => ?_, fun d hd => by cases hd⟩ hpos (.inl fun d => by rintro ⟨⟩)
    obtain rfl : sp = t.span := by simpa [strayElement, Kind.spans] using hsp
    exact ⟨hstart, Nat.le_refl _⟩

theorem attributeName (h : b.Covering count pos) (hpos : pos ≤ t.start) :
    (attributeName s b t).Covering count pos := by
  unfold Builder.attributeName
  dsimp only
  split
  · rename_i k hk
    have hspans : k.spans = (b.kindOf b.current).spans ∧ ∀ d, k ≠ .declaration d := by
      unfold withAttribute at hk
      split at hk
      · rename_i e hkind
        obtain rfl := Option.some.inj hk
        exact ⟨by rw [hkind]; rfl, fun d => by rintro ⟨⟩⟩
      · rename_i i hkind
        split at hk
        · obtain rfl := Option.some.inj hk
          exact ⟨by rw [hkind]; rfl, fun d => by rintro ⟨⟩⟩
        · cases hk
      · cases hk
    have hupdate : (b.update b.current k t.stop).Covering count pos :=
      h.update_same rfl hspans.2 hspans.1 t.stop
    let a : Attribute := { name := Text.slice s t.start t.stop, nameSpan := t.span }
    refine hupdate.push (n := { span := t.span, parent := some b.current, kind := .attribute a })
      ⟨fun sp hsp => ?_, fun d hd => by cases hd⟩ hpos
      (.inl fun d => by rintro ⟨⟩) rfl rfl rfl rfl
    obtain rfl : sp = t.span := by simpa [Kind.spans] using hsp
    exact ⟨Nat.le_refl _, Nat.le_refl _⟩
  · exact h

theorem assign (h : b.Covering count pos) : (assign b t).Covering count pos := by
  unfold Builder.assign
  dsimp only
  split
  · rename_i id _
    split
    · rename_i a hkind
      refine extend ?_ _ _
      refine h.modify (fun _ => rfl) fun n hn => ⟨fun d hd => (by cases hd), fun hcovers => ?_⟩
      rw [kindOf_eq hn] at hkind
      refine ⟨fun sp hsp => hcovers.inside sp ?_, fun d hd => by cases hd⟩
      rw [hkind]
      exact hsp
    · exact h.extend _ _
  · exact h.extend _ _

theorem attributeValue (h : b.Covering count pos) (hb : b.StartsBefore t) :
    (attributeValue s b t).Covering count pos := by
  unfold Builder.attributeValue
  split
  · rename_i id _
    dsimp only
    refine extend ?_ _ _
    split
    · rename_i a hkind
      refine h.forget.update hb (fun d hd => by cases hd) fun sp hsp => ?_
      rw [show ({ b with openAttribute := none } : Builder).kindOf id = .attribute a from hkind]
      rcases List.mem_cons.mp hsp with hname | hvalue
      · exact .inl (hname ▸ List.mem_cons_self)
      · obtain rfl : sp = t.span := by simpa [Attribute.withValue] using hvalue
        exact .inr ⟨Nat.le_refl _, .inl rfl⟩
    · exact h.forget.extend _ _
  · exact h.extend _ _

theorem tagToken (h : b.Covering count pos) (hb : b.StartsBefore t) (hpos : pos ≤ t.start)
    (hend : t.kind = .endTagName → ∃ start, b.endTagOpen = some start ∧ start ≤ t.start) :
    (tagToken s b t inDtd).Covering count pos := by
  unfold Builder.tagToken
  split
  · exact h.openMarkup hpos rfl fun d => by rintro ⟨⟩
  · rename_i e hkind
    refine h.update hb (fun d hd => by cases hd) fun sp hsp => ?_
    rw [hkind]
    rcases List.mem_append.mp hsp with hname | hname
    · obtain rfl : sp = t.span := by simpa using hname
      exact .inr ⟨Nat.le_refl _, .inl rfl⟩
    · exact .inl (List.mem_append_right _ hname)
  · rename_i hkind
    exact h.forget.update_same hkind (fun d => by rintro ⟨⟩) (by rfl) _
  · rename_i hkind
    exact (h.forget.update_same hkind (fun d => by rintro ⟨⟩) (by rfl) _).leave _
  · exact h.forget
  · exact h.forget
  · refine (h.beforeMarkup t.start inDtd).of_nodes rfl (fun start hstart => ?_) (.inr ⟨rfl, rfl⟩)
    obtain rfl := Option.some.inj hstart
    exact .inr hpos
  · rename_i hkind
    obtain ⟨start, hstart, hle⟩ := hend hkind
    rw [endTag_eq hstart]
    have hforget : { b with endTagOpen := none }.Covering count pos :=
      h.of_nodes rfl (fun _ hnone => by cases hnone) (.inr ⟨rfl, rfl⟩)
    exact hforget.closeNearest hb (h.endTagOpen start hstart) hle
  · split
    · exact h.flushEndTag _ _
    · split
      · rename_i e hkind
        split
        · exact (h.update_same hkind (fun d => by rintro ⟨⟩) (by rfl) _).leave _
        · exact h
      · exact h
  · split
    · exact h.extend _ _
    · exact h
  · exact h

theorem sectionToken (h : b.Covering count pos) (hb : b.StartsBefore t) (hpos : pos ≤ t.start) :
    (sectionToken s b t inDtd).Covering count pos := by
  have hcontent {wrap : Enclosed → Kind} {c : Enclosed} (hwrap : wrap = .comment ∨ wrap = .cdata)
      (hkind : b.kindOf b.current = wrap c) :
      (b.update b.current (wrap { c with content := some t.span }) t.stop).Covering count pos := by
    refine h.update hb (fun d hd => ?_) fun sp hsp => .inr ?_
    · rcases hwrap with rfl | rfl <;> cases hd
    · obtain rfl : sp = t.span := by rcases hwrap with rfl | rfl <;> simpa [Kind.spans] using hsp
      exact ⟨Nat.le_refl _, .inl rfl⟩
  have hclose {wrap : Enclosed → Kind} {c : Enclosed} (hwrap : wrap = .comment ∨ wrap = .cdata)
      (hkind : b.kindOf b.current = wrap c) :
      (b.update b.current (wrap { c with closed := true }) t.stop).leave.Covering count pos := by
    refine (h.update_same hkind (fun d hd => ?_) ?_ t.stop).leave _
    · rcases hwrap with rfl | rfl <;> cases hd
    · rcases hwrap with rfl | rfl <;> rfl
  unfold Builder.sectionToken
  split
  · exact h.openMarkup hpos rfl fun d => by rintro ⟨⟩
  · exact h.openMarkup hpos rfl fun d => by rintro ⟨⟩
  · exact hcontent (.inl rfl) ‹_›
  · exact hcontent (.inl rfl) ‹_›
  · exact hcontent (.inr rfl) ‹_›
  · exact hcontent (.inr rfl) ‹_›
  · exact hclose (.inl rfl) ‹_›
  · exact hclose (.inl rfl) ‹_›
  · exact hclose (.inr rfl) ‹_›
  · exact hclose (.inr rfl) ‹_›
  · exact h.openMarkup hpos rfl fun d => by rintro ⟨⟩
  · rename_i i hkind
    refine h.update hb (fun d hd => by cases hd) fun sp hsp => ?_
    rw [hkind]
    rcases List.mem_append.mp hsp with htarget | hcontent
    · obtain rfl : sp = t.span := by simpa using htarget
      exact .inr ⟨Nat.le_refl _, .inl rfl⟩
    · exact .inl (List.mem_append_right _ hcontent)
  · rename_i i hkind
    refine h.update hb (fun d hd => by cases hd) fun sp hsp => ?_
    rw [hkind]
    rcases List.mem_append.mp hsp with htarget | hcontent
    · obtain rfl : sp = t.span := by simpa using htarget
      exact .inr ⟨Nat.le_refl _, .inl rfl⟩
    · exact .inl (List.mem_append_right _ hcontent)
  · rename_i i hkind
    refine h.update hb (fun d hd => by cases hd) fun sp hsp => ?_
    rw [hkind]
    rcases List.mem_append.mp hsp with htarget | hcontent
    · exact .inl (List.mem_append_left _ htarget)
    · obtain rfl : sp = t.span := by simpa using hcontent
      exact .inr ⟨Nat.le_refl _, .inl rfl⟩
  · exact (h.forget.update_same ‹_› (fun d => by rintro ⟨⟩) (by rfl) _).leave _
  · exact (h.forget.update_same ‹_› (fun d => by rintro ⟨⟩) (by rfl) _).leave _
  · exact h.forget
  · exact h.forget
  · exact h

/-! ### Declarations -/

theorem onDoctype {f : Doctype → Doctype} (h : b.Covering count pos) (hb : b.StartsBefore t)
    (hf : ∀ d, ∀ p ∈ (f d).stored, p ∈ d.stored ∨ p = parameter s t) :
    (b.onDoctype t f).Covering count pos := by
  unfold Builder.onDoctype
  split
  · rename_i id _
    split
    · rename_i d hkind
      refine h.update hb (fun d hd => by cases hd) fun sp hsp => ?_
      rw [hkind]
      obtain ⟨p, hp, rfl⟩ := List.mem_map.mp hsp
      rcases hf d p hp with hold | rfl
      · exact .inl (List.mem_map_of_mem hold)
      · exact .inr ⟨Nat.le_refl _, .inl rfl⟩
    · exact h.extend _ _
  · exact h

theorem openDeclaration (h : b.Covering count pos) (hpos : pos ≤ t.start) {body : Declaration.Body}
    (hbody : body.stored = []) : (b.openDeclaration t body).Covering count pos := by
  have hnone : b.leaveDeclaration.leaveClosedElement.declaration = none := by
    have hleave : b.leaveDeclaration.declaration = none := by
      unfold Builder.leaveDeclaration
      split
      · rfl
      · assumption
    unfold Builder.leaveClosedElement
    split
    · split <;> exact hleave
    · exact hleave
  have hopen : (b.leaveDeclaration.leaveClosedElement.openNode (.declaration { body }) t.span).Covering count pos :=
    h.leaveDeclaration.leaveClosedElement.openNode (covers_of_nil (by simp [Kind.spans, Declaration.stored, hbody]))
      hpos (.inr hnone)
  refine ⟨hopen.covers, hopen.later, hopen.endTagOpen, fun ho => ?_⟩
  cases ho

theorem mem_joinUnrecognized {first : Option Parameter} {p : Parameter}
    (h : p ∈ (joinUnrecognized s first t).toList) :
    p.span.stop = t.stop ∧
    (p.span.start = t.start ∨ ∃ old, first = some old ∧ p.span.start = old.span.start) := by
  cases first with
  | none =>
    obtain rfl : p = parameter s t := by simpa [joinUnrecognized] using h
    exact ⟨rfl, .inl rfl⟩
  | some old =>
    obtain rfl : p = _ := by simpa [joinUnrecognized] using h
    exact ⟨rfl, .inr ⟨old, rfl, rfl⟩⟩

theorem unrecognized (h : b.Covering count pos) (hb : b.StartsBefore t) : (unrecognized s b t).Covering count pos := by
  -- a piece starts at the token or where the pieces before it do
  have hpiece {stored stored' : List Parameter} {first : Option Parameter}
      (hfirst : ∀ p ∈ first.toList, p ∈ stored)
      (hstored : ∀ p ∈ stored', p ∈ stored ∨ p ∈ (joinUnrecognized s first t).toList)
      {declared : Prop} (sp : Span)
      (hsp : sp ∈ stored'.map (·.span)) :
      sp ∈ stored.map (·.span) ∨ (sp.stop ≤ t.stop ∧ (sp.start = t.start ∨
        (∃ old ∈ stored.map (·.span), sp.start = old.start) ∨ declared)) := by
    obtain ⟨p, hp, rfl⟩ := List.mem_map.mp hsp
    refine (hstored p hp).imp (List.mem_map_of_mem ·) fun hjoin => ?_
    obtain ⟨hstop, hstart⟩ := mem_joinUnrecognized hjoin
    refine ⟨Nat.le_of_eq hstop, hstart.imp_right fun ⟨old, hold, hsame⟩ => .inl ⟨old.span, ?_, hsame⟩⟩
    exact List.mem_map_of_mem (hfirst old (by simp [hold]))
  unfold Builder.unrecognized
  split
  · rename_i id _
    split
    · rename_i d hkind
      refine h.update hb (fun d hd => by cases hd) fun sp hsp => ?_
      rw [hkind]
      refine hpiece (fun p (hp : p ∈ d.unrecognized.toList) => ?_) (fun p hp => ?_) sp hsp
      · exact List.mem_append_right _ hp
      · exact (List.mem_append.mp hp).imp_left (List.mem_append_left _ ·)
    · rename_i d hkind
      refine h.update hb (fun _ _ => ⟨d, hkind⟩) fun sp hsp => ?_
      rw [hkind]
      refine hpiece (fun p (hp : p ∈ d.unrecognized.toList) => ?_) (fun p hp => ?_) sp hsp
      · exact List.mem_append_right _ hp
      · exact (List.mem_append.mp hp).imp_left (List.mem_append_left _ ·)
    · exact h
  · exact h

theorem declarationParameter (h : b.Covering count pos) (hb : b.StartsBefore t) (kind : Token.DtdKind) :
    (declarationParameter s b kind t).Covering count pos := by
  unfold Builder.declarationParameter
  split
  · exact h
  · rename_i id hid
    have hmark : (if kind = .contentOpen then { b with contentStart := some t.start } else b).Covering count pos := by
      split
      · refine ⟨h.covers, h.later, h.endTagOpen, fun ho _ hn hkind => ?_⟩
        obtain rfl := Option.some.inj ho
        exact (hb _ _ hn).2 hkind
      · exact h
    generalize hmarked : (if kind = .contentOpen then { b with contentStart := some t.start } else b) = marked at *
    have hnodes : marked.nodes = b.nodes := by rw [← hmarked]; split <;> rfl
    have hdeclaration : marked.declaration = some id := by rw [← hmarked]; split <;> exact hid
    dsimp only
    split
    · rename_i d hkind
      refine hmark.update (fun id n hn => hb id n (hnodes ▸ hn)) (fun _ _ => ⟨d, hkind⟩) fun sp hsp => ?_
      rw [hkind]
      obtain ⟨p, hp, rfl⟩ := List.mem_map.mp hsp
      simp only [Declaration.stored, List.mem_append, List.mem_singleton] at hp
      rcases hp with (hbody | hold | rfl) | hold
      · rcases mem_stored_addParameter hbody with hold | rfl | hcontent
        · exact .inl (List.mem_map_of_mem (by simp [Declaration.stored, hold]))
        · exact .inr ⟨Nat.le_refl _, .inl rfl⟩
        · obtain ⟨o, ho, rfl⟩ := Option.map_eq_some_iff.mp hcontent
          exact .inr ⟨Nat.le_refl _, .inr (.inr ⟨hdeclaration, ho, d, rfl⟩)⟩
      · exact .inl (List.mem_map_of_mem (by simp [Declaration.stored, hold]))
      · exact .inr ⟨Nat.le_refl _, .inl rfl⟩
      · exact .inl (List.mem_map_of_mem (by simp [Declaration.stored, hold]))
    · exact hmark

theorem dtdToken (h : b.Covering count pos) (hb : b.StartsBefore t) (hpos : pos ≤ t.start) (kind : Token.DtdKind) :
    (dtdToken s b kind t inDtd).Covering count pos := by
  have hleave := h.leaveDeclaration
  have hb' : b.leaveDeclaration.StartsBefore t := by
    unfold Builder.leaveDeclaration
    split <;> exact hb
  have hparameter (kind : Token.DtdKind) :
      (b.onDoctype t (addDoctypeParameter kind (parameter s t))).Covering count pos :=
    h.onDoctype hb fun d p hp => mem_stored_addDoctypeParameter hp
  unfold Builder.dtdToken
  split
  · exact (h.openMarkup hpos rfl fun d => by rintro ⟨⟩).of_nodes rfl (fun _ => .inl) (.inr ⟨rfl, rfl⟩)
  · exact h.onDoctype (s := s) hb fun d p => .inl
  · exact hleave.onDoctype (s := s) hb' fun d p => .inl
  · dsimp only
    split
    · have hclose := hleave.onDoctype (s := s) (f := fun d => { d with closed := true }) hb' fun d p => .inl
      exact hclose.of_nodes rfl (fun _ => .inl) (.inr ⟨rfl, rfl⟩)
    · exact hleave
  · exact hparameter _
  · exact hparameter _
  · exact hparameter _
  · exact hparameter _
  · exact hparameter _
  · exact h.openDeclaration hpos rfl
  · exact h.openDeclaration hpos rfl
  · exact h.openDeclaration hpos rfl
  · exact h.openDeclaration hpos rfl
  · split
    · rename_i id _
      split
      · rename_i d hkind
        refine (h.update hb (fun _ _ => ⟨d, hkind⟩) fun sp hsp => .inl ?_).of_nodes rfl (fun _ => .inl) (.inl rfl)
        rw [hkind]
        exact hsp
      · exact (h.extend _ _).of_nodes rfl (fun _ => .inl) (.inl rfl)
    · exact h
  · exact h.unrecognized hb
  · exact h.declarationParameter hb kind

/-- **A token keeps the spans inside their nodes**, and what it adds starts behind the others. -/
theorem step (h : b.Covering count pos) (hb : b.StartsBefore t) (hpos : pos ≤ t.start)
    (hend : t.kind = .endTagName → ∃ start, b.endTagOpen = some start ∧ start ≤ t.start) :
    (step s b t inDtd).Covering count pos := by
  unfold Builder.step
  split
  any_goals exact h.tagToken hb hpos hend
  · exact h.attributeName hpos
  · exact h.assign
  · exact h.attributeValue hb
  · exact h
  · exact h
  · exact (h.beforeMarkup _ _).append (covers_of_nil rfl) hpos (.inl fun d => by rintro ⟨⟩)
  · exact h.dtdToken hb hpos _
  · exact h.sectionToken hb hpos

theorem atEnd (h : b.Covering count pos) : (atEnd s b).Covering count pos :=
  (h.flushEndTag _ _).foldl_extend _ _

end Covering

/-! ## Along the tokens -/

theorem Fits.exists_nested (h : Fits s x b) :
    ∃ edge ≤ x.pos, Nested s x.dtdFile.toNat b.nodes b.current edge := by
  have hphase := h.phase
  cases hmode : x.mode with
  | content | dtdContent | doctype _ =>
    simp only [Phase, hmode] at hphase
    exact ⟨_, Nat.le_refl _, hphase.nested⟩
  | afterEndTagOpen =>
    simp only [Phase, hmode] at hphase
    obtain ⟨start, hlt, hpending⟩ := hphase
    exact ⟨_, Nat.le_of_lt hlt, hpending.nested⟩
  | inEndTag =>
    simp only [Phase, hmode] at hphase
    rcases hphase with ⟨start, -, hpending⟩ | hclosing
    · exact ⟨_, Nat.le_refl _, hpending.nested⟩
    · exact ⟨_, Nat.le_refl _, hclosing.nested⟩
  | declaration _ =>
    simp only [Phase, hmode] at hphase
    exact ⟨_, Nat.le_refl _, hphase.steady.nested⟩
  | _ =>
    simp only [Phase, hmode] at hphase
    exact ⟨_, Nat.le_refl _, hphase.1.nested⟩

theorem Follows.startsBefore (h : Follows s x b) (hlt : x.pos < size s) : b.StartsBefore (x.step s).1 := by
  obtain ⟨edge, hle, hnested⟩ := h.fits.exists_nested
  intro id n hn
  rw [Leads.start_step h.boundary hlt]
  refine ⟨Nat.le_trans (hnested.span_le hn).1 hle, fun ⟨d, hd⟩ => ?_⟩
  have hin := hnested.inner hn (hnested.top_lt hn (by rw [hd]; rintro ⟨⟩) (by simp [isDoctype, doctype?, hd]))
  omega

theorem Follows.exists_endTagOpen (h : Follows s x b) (hlt : x.pos < size s)
    (hkind : (x.step s).1.kind = .endTagName) :
    ∃ start, b.endTagOpen = some start ∧ start ≤ (x.step s).1.start := by
  have hphase := h.fits.phase
  simp only [Phase, (Lexer.mode_of_name h.consistent h.boundary hlt).2 hkind] at hphase
  obtain ⟨start, hle, hpending⟩ := hphase
  exact ⟨start, hpending.endTagOpen, Leads.start_step h.boundary hlt ▸ Nat.le_of_lt hle⟩

theorem Covering.behind (h : b.Covering count pos) (hf : Follows s x b) (hpos : pos ≤ x.pos)
    (hl : Leads s x l y) : (Builder.behind s l b).Covering count pos := by
  induction hl generalizing b with
  | here => exact h
  | next hlt _ ih =>
    have hstart := Leads.start_step hf.boundary hlt
    have hlt' := Leads.pos_lt_step hf.boundary hlt
    exact ih (h.step (hf.startsBefore hlt) (hstart ▸ hpos) (hf.exists_endTagOpen hlt)) (hf.next hlt).2 (by omega)

theorem covering_start (s : String) (dtdFile : Bool) : (start s dtdFile).Covering 0 0 := by
  have hroot : ({ nodes := #[{ span := ⟨0, size s⟩ }] } : Builder).Covering 0 0 := by
    refine ⟨fun {id n} hn => ?_, fun _ _ => Nat.zero_le _, fun _ => by rintro ⟨⟩,
      fun {o} => by rintro _ _ ⟨⟩⟩
    rw [List.getElem?_toArray, List.getElem?_singleton] at hn
    split at hn
    · obtain rfl := Option.some.inj hn
      exact covers_of_nil rfl
    · cases hn
  unfold start
  cases dtdFile with
  | false => exact hroot
  | true =>
    have hopen : (openNode _ (.doctype { synthetic := true }) ⟨0, size s⟩).Covering 0 0 :=
      hroot.openNode (covers_of_nil rfl) (Nat.zero_le _) (.inr rfl)
    exact hopen.of_nodes rfl (fun _ => .inl) (.inr ⟨rfl, rfl⟩)

end Builder

namespace Document

/-- **Every node covers what it keeps**, whatever the text and the address. -/
theorem parse_covers (text uri : String) : ∀ n ∈ (parse text uri).nodes, n.Covers := by
  intro n hn
  obtain ⟨id, hid⟩ := Array.mem_iff_getElem?.mp hn
  have hf := Builder.follows_start text (isDtdUri uri)
  obtain ⟨y, hl, hpos⟩ := Leads.exists_end text _ hf.boundary
  have hcovering := ((Builder.covering_start text (isDtdUri uri)).behind hf (Nat.zero_le _) hl).atEnd (s := text)
  refine hcovering.covers (?_ : _[id]? = some n)
  rw [← hid, parse, Builder.build_eq, Builder.run_eq_behind hl hf.boundary hpos]

end Document

end XmlAssist
